import Shelterflex.StakeDelegation.Operations

namespace Shelterflex.StakeDelegation
open Lib Book
set_option autoImplicit true

instance (s : State) : (c : Call) → Decidable (c.UndelegatesWithin s)
  | .completeUndelegate _ _ => inferInstanceAs (Decidable (∀ p ∈ _, _ → _))
  | .init _ _ | .advanceEpoch _ | .setUndelegationCooldown _ _ | .setCommission _ _
  | .claimCommission _ | .setSlashingAuthority _ _ | .applyDelegateeSlash _ _ _ | .stake _ _
  | .unstake _ _ | .delegate _ _ _ | .requestRevocation _ _ | .finalizeRevocation _ _
  | .requestUndelegate _ _ _ | .fundRewards _ _ | .claimDelegateeRewards _ | .pause _
  | .unpause _ | .slashStake _ _ _ => isTrue trivial

instance (s : State) : (c : Call) → Decidable (c.SlashesEvenly s)
  | .applyDelegateeSlash _ _ _ => inferInstanceAs (Decidable (∀ a ∈ _, _))
  | .init _ _ | .advanceEpoch _ | .setUndelegationCooldown _ _ | .setCommission _ _
  | .claimCommission _ | .setSlashingAuthority _ _ | .stake _ _ | .unstake _ _
  | .delegate _ _ _ | .requestRevocation _ _ | .finalizeRevocation _ _
  | .requestUndelegate _ _ _ | .completeUndelegate _ _ | .fundRewards _ _
  | .claimDelegateeRewards _ | .pause _ | .unpause _ | .slashStake _ _ _ => isTrue trivial

theorem fresh_valid : (book .fresh).Valid where
  tidy _ := ⟨List.nodup_nil, nofun⟩
  nodup _ := List.nodup_nil
  listed _ _ := iff_of_false List.not_mem_nil (lt_irrefl 0)
  covered _ := le_rfl
  finite := (Store.empty : Store Address Int).support_finite fun _ _ => rfl

theorem run_valid (h : (machine own).Run .fresh t s) : (book s).Valid :=
  h.invariant (P := fun _ s => (book s).Valid) fresh_valid fun hv he =>
    (invoke_changes hv he).effects.valid hv

abbrev History (own : Address) := List (Event State (Env own × Call) Output)

/-- Every `init` of a run finds nothing staked. -/
def StartsEmpty (t : History own) : Prop := ∀ e ∈ t, e.input.2.forgets e.pre = 0

instance : Decidable (StartsEmpty (t : History own)) :=
  inferInstanceAs (Decidable (∀ e ∈ t, _))

theorem run_balanced (h : (machine own).Run .fresh t s) (ht : StartsEmpty t) :
    (book s).Balanced := by
  refine h.invariant_on (P := fun _ s => (book s).Balanced) ht finsum_zero.symm ?_
  intro t s i s' o hr hb he hk
  have hv := run_valid hr
  exact ((invoke_changes hv he).effects.total_iff hv hb).mpr hk

/-- While no call undelegates more than is delegated, and every slash of a delegatee divides
evenly, the stakes of the delegatees agree with the delegations. -/
theorem run_agrees (h : (machine own).Run .fresh t s)
    (hC : ∀ e ∈ t, e.input.2.UndelegatesWithin e.pre ∧ e.input.2.SlashesEvenly e.pre) :
    (book s).Agrees := by
  refine h.invariant_on (P := fun _ s => (book s).Agrees) hC (fun _ => finsum_zero.symm) ?_
  rintro t s i s' o hr ha he ⟨hw, hx⟩
  have hv := run_valid hr
  exact (invoke_changes hv he).effects.agrees hv hw hx ha

/-- While no call undelegates more than is delegated, and every slash of a delegatee divides
evenly, the stake of each delegatee is the sum of the delegations to it. -/
theorem delegateeStake_eq (h : (machine own).Run .fresh t s)
    (hC : ∀ e ∈ t, e.input.2.UndelegatesWithin e.pre ∧ e.input.2.SlashesEvenly e.pre)
    (d : Address) :
    getDelegateeStake s d = ∑ᶠ a, amountTo d (getDelegations s a) ∧ 0 ≤ getDelegateeStake s d := by
  have ha := run_agrees h hC d
  exact ⟨ha, ((run_valid h).received_nonneg d).trans_eq ha.symm⟩

/-- Two delegators share a delegatee that is slashed by half. -/
def evenSlashCalls : List (Env ⟨0⟩ × Call) :=
  [(.signed ⟨0⟩ 0, .init ⟨1⟩ 100), (.signed ⟨0⟩ 0, .stake ⟨2⟩ 40), (.signed ⟨0⟩ 0, .stake ⟨3⟩ 60),
    (.signed ⟨0⟩ 0, .delegate ⟨2⟩ ⟨9⟩ 40), (.signed ⟨0⟩ 0, .delegate ⟨3⟩ ⟨9⟩ 50),
    (.signed ⟨0⟩ 0, .setSlashingAuthority ⟨1⟩ ⟨5⟩),
    (.signed ⟨0⟩ 0, .requestUndelegate ⟨3⟩ ⟨9⟩ 20),
    (.signed ⟨0⟩ 0, .applyDelegateeSlash ⟨5⟩ ⟨9⟩ 45),
    (.signed ⟨0⟩ 604800, .completeUndelegate ⟨3⟩ ⟨9⟩)]

theorem delegateeStake_eq_even :
    getDelegateeStake ((machine ⟨0⟩).replay .fresh evenSlashCalls).2 ⟨9⟩ =
        ∑ᶠ a, amountTo ⟨9⟩ (getDelegations
          ((machine ⟨0⟩).replay .fresh evenSlashCalls).2 a) ∧
      0 ≤ getDelegateeStake ((machine ⟨0⟩).replay .fresh evenSlashCalls).2 ⟨9⟩ :=
  delegateeStake_eq ((machine ⟨0⟩).run_replay .fresh evenSlashCalls) (by decide) ⟨9⟩

/-- A delegator asks for all of its delegation back, is slashed by half, and then gets all of it. -/
def staleRequestCalls : List (Env ⟨0⟩ × Call) :=
  [(.signed ⟨0⟩ 0, .init ⟨1⟩ 100), (.signed ⟨0⟩ 0, .stake ⟨2⟩ 100),
    (.signed ⟨0⟩ 0, .delegate ⟨2⟩ ⟨9⟩ 100),
    (.signed ⟨0⟩ 0, .requestUndelegate ⟨2⟩ ⟨9⟩ 100),
    (.signed ⟨0⟩ 0, .setSlashingAuthority ⟨1⟩ ⟨5⟩),
    (.signed ⟨0⟩ 0, .applyDelegateeSlash ⟨5⟩ ⟨9⟩ 50),
    (.signed ⟨0⟩ 604800, .completeUndelegate ⟨2⟩ ⟨9⟩)]

theorem delegateeStake_drifts :
    ¬ ∀ t s, (machine ⟨0⟩).Run .fresh t s → ∀ d,
      getDelegateeStake s d = ∑ᶠ a, amountTo d (getDelegations s a) := by
  intro hall
  have hr := (machine ⟨0⟩).run_replay .fresh staleRequestCalls
  have hd := hall _ _ hr ⟨9⟩
  have hn := (run_valid hr).received_nonneg ⟨9⟩
  have hs : getDelegateeStake
      ((machine ⟨0⟩).replay .fresh staleRequestCalls).2 ⟨9⟩ = -50 := by decide
  rw [hs] at hd
  rw [received] at hn
  simp only [position, book] at hn
  omega

/-! What the users hold. -/

/-- The staked tokens are those of the users, and no user delegates more than it has staked. -/
structure Conserved (s : State) : Prop where
  finite : (getStakedBalance s).support.Finite
  total : getTotalStaked s = ∑ᶠ u, getStakedBalance s u
  covered : ∀ u, ((getDelegations s u).map Delegation.amount).sum ≤ getStakedBalance s u
  free : ∀ u delegated, totalDelegated s u = .ok delegated → 0 ≤ getStakedBalance s u - delegated
  positive : ∀ u, ∀ e ∈ getDelegations s u, 0 < e.amount
  nodup : ∀ u, ((getDelegations s u).map Delegation.delegatee).Nodup

theorem conserved_of_valid (hv : (book s).Valid) (hb : (book s).Balanced) : Conserved s := by
  refine ⟨hv.finite, hb, hv.covered, ?_, ?_, ?_⟩
  · intro u delegated hd
    rw [totalDelegated_ok hd]
    exact sub_nonneg.mpr (hv.covered u)
  · intro u
    exact (hv.tidy u).positive
  · intro u
    exact (hv.tidy u).nodup

/-- Every call of a run leaves the stake conserved exactly when its `init` finds nothing staked. -/
theorem stake_conserved_iff (h : (machine own).Run .fresh t s) :
    (∀ e ∈ t, Conserved e.post) ↔ StartsEmpty t := by
  induction h with
  | start => exact iff_of_true (List.forall_mem_nil _) (List.forall_mem_nil _)
  | @commit t s i s' o hr hs ih =>
    have hv := run_valid hr
    have hx := (invoke_changes hv hs).effects
    rw [StartsEmpty, List.forall_mem_cons, List.forall_mem_cons, ih]
    refine and_congr_left fun ht => ?_
    have hiff := hx.total_iff hv (run_balanced hr ht)
    exact ⟨fun hc => hiff.mp hc.total, fun hk => conserved_of_valid (hx.valid hv) (hiff.mpr hk)⟩
  | rollback _ _ ih => exact ih

theorem stake_conserved_iff_even :
    ((∀ e ∈ ((machine ⟨0⟩).replay .fresh evenSlashCalls).1, Conserved e.post) ↔
      StartsEmpty ((machine ⟨0⟩).replay .fresh evenSlashCalls).1) ∧
    StartsEmpty ((machine ⟨0⟩).replay .fresh evenSlashCalls).1 :=
  ⟨stake_conserved_iff ((machine ⟨0⟩).run_replay .fresh evenSlashCalls), by decide⟩

/-- A stake that comes before `init` stays with its staker and leaves the total. -/
def stakedEarly : List (Env ⟨0⟩ × Call) :=
  [(.signed ⟨0⟩ 0, .stake ⟨2⟩ 10), (.signed ⟨0⟩ 0, .init ⟨1⟩ 100)]

theorem early_stake_uncounted :
    ¬ ∀ t s, (machine ⟨0⟩).Run .fresh t s → getTotalStaked s = ∑ᶠ u, getStakedBalance s u := by
  intro hall
  have hr := (machine ⟨0⟩).run_replay .fresh stakedEarly
  have hv := run_valid hr
  have htotal : getTotalStaked ((machine ⟨0⟩).replay .fresh stakedEarly).2 = 0 := by decide
  have hstake : getStakedBalance ((machine ⟨0⟩).replay .fresh stakedEarly).2 ⟨2⟩ = 10 := by decide
  have hle := le_finsum hv.finite hv.balance_nonneg ⟨2⟩
  have hsum := hall _ _ hr
  simp only [book] at hle
  omega

/-- The delegators of a delegatee are those with a delegation to it, each listed once. -/
structure Indexed (s : State) : Prop where
  listed : ∀ a d, a ∈ getDelegatorsOf s d ↔ ∃ e ∈ getDelegations s a, e.delegatee = d
  once : ∀ a d, (getDelegatorsOf s d).count a ≤ 1

theorem indexed_of_valid (hv : (book s).Valid) : Indexed s where
  listed a d := by
    apply (hv.listed a d).trans
    apply (hv.tidy a).amountTo_pos_iff.trans
    exact List.mem_map
  once a d := List.nodup_iff_count_le_one.mp (hv.nodup d) a

/-- A slash by `n` takes one proportional part of every delegation to `d`, and takes it from the
balance behind the delegation as well. -/
structure Reaches (d : Address) (n : Int) (s s' : State) : Prop where
  delegated : ∀ a, amountTo d (getDelegations s' a) =
    amountTo d (getDelegations s a) * (getDelegateeStake s d - n) / getDelegateeStake s d
  balance : ∀ a, getStakedBalance s' a = getStakedBalance s a -
    (amountTo d (getDelegations s a) - amountTo d (getDelegations s' a))

theorem applyDelegateeSlash_reaches (hv : (book s).Valid)
    (h : applyDelegateeSlash env x d n s = .ok s') : Reaches d n s s' := by
  obtain ⟨_, hn, hle, hb, _⟩ := applyDelegateeSlash_ok hv h
  have hp (a) : (book s').position a d =
      (book s).share d (getDelegateeStake s d - n) ((book s).position a d) := by
    rw [hb]
    exact hv.position_column (sub_nonneg.mpr hle) (sub_lt_self _ hn) a
  refine ⟨hp, fun a => ?_⟩
  have hc : getStakedBalance s' a = ((book s).column d (getDelegateeStake s d - n)).balance a :=
    congrFun (congrArg Book.balance hb) a
  apply hc.trans
  exact congrArg (fun x => getStakedBalance s a - (amountTo d (getDelegations s a) - x)) (hp a).symm

theorem delegators_indexed (h : (machine own).Reachable .fresh s) :
    Indexed s ∧ ∀ env slashAuthority d n s' o,
      (machine own).step s (env, .applyDelegateeSlash slashAuthority d n) = some (s', o) →
      Reaches d n s s' := by
  obtain ⟨t, hr⟩ := h
  have hv := run_valid hr
  refine ⟨indexed_of_valid hv, ?_⟩
  intro env x d n s' o hs
  obtain ⟨_, hok, he⟩ := commit_some.mp hs
  cases he
  exact applyDelegateeSlash_reaches hv hok

theorem delegators_indexed_even : ∃ s s' : State,
    (machine ⟨0⟩).step s (.signed ⟨0⟩ 0, .applyDelegateeSlash ⟨5⟩ ⟨9⟩ 45) = some (s', .unit) ∧
      getDelegatorsOf s ⟨9⟩ = [⟨2⟩, ⟨3⟩] ∧ Indexed s ∧ Reaches ⟨9⟩ 45 s s' := by
  have hr := (machine ⟨0⟩).run_replay .fresh (evenSlashCalls.take 7)
  have hstep : (machine ⟨0⟩).step
        ((machine ⟨0⟩).replay .fresh (evenSlashCalls.take 7)).2
        (.signed ⟨0⟩ 0, .applyDelegateeSlash ⟨5⟩ ⟨9⟩ 45) =
      some (((machine ⟨0⟩).replay .fresh (evenSlashCalls.take 8)).2, .unit) := rfl
  obtain ⟨hi, hs⟩ := delegators_indexed ⟨_, hr⟩
  exact ⟨_, _, hstep, by decide, hi, hs _ _ _ _ _ _ hstep⟩

end Shelterflex.StakeDelegation
