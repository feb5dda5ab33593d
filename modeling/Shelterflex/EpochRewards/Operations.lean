import Shelterflex.EpochRewards.Ledger

/-! What a successful call does to the books and to the epochs. -/

namespace Shelterflex.EpochRewards
open Lib
set_option autoImplicit true

/-- The admin and the epochs are left as they are. -/
structure SameEpochs (s s' : State) : Prop where
  admin : s'.admin = s.admin
  epoch : s'.epoch = s.epoch
  start : s'.epochStartIndex = s.epochStartIndex
  current : getCurrentEpoch s' = getCurrentEpoch s

/-- One account was settled, its stake set, and what it earned paid out. -/
structure Writes (user : Address) (staked paid : Int) (s s' : State) : Prop where
  books : ledger s' = (ledger s).write scale user staked paid
  total : getTotalStaked s' = getTotalStaked s + staked - (ledger s).share user
  epochs : SameEpochs s s'

/-- Rewards were funded: the index went up, and the current epoch counts them. -/
structure Funds (amount : Int) (s s' : State) : Prop where
  ready : s.admin ≠ none
  admin : s'.admin = s.admin
  books : ledger s' = (ledger s).raise (increment s amount)
  total : getTotalStaked s' = getTotalStaked s
  start : s'.epochStartIndex = s.epochStartIndex
  current : getCurrentEpoch s' = getCurrentEpoch s
  epochs : (getEpoch s (getCurrentEpoch s) = none ∧ s'.epoch = s.epoch) ∨
    ∃ epoch dust, getEpoch s (getCurrentEpoch s) = some epoch ∧
      s'.epoch = s.epoch.set (getCurrentEpoch s)
        { epoch with totalRewards := epoch.totalRewards + amount, dust }

inductive Changes (s s' : State) : Call → Output → Prop where
  | start (hs : Starts s s') : Changes s s' (.init admin duration) .unit
  | stake (ha : 0 < amount) (hw : Writes user ((ledger s).share user + amount) 0 s s') :
      Changes s s' (.stake user amount) .unit
  | unstake (ha : 0 < amount) (hle : amount ≤ (ledger s).share user)
      (hw : Writes user ((ledger s).share user - amount) 0 s s') :
      Changes s s' (.unstake user amount) .unit
  | claim (hw : Writes user ((ledger s).share user) ((ledger s).claimable scale user) s s') :
      Changes s s' (.claim user) (.amount ((ledger s).claimable scale user))
  | fund (ha : 0 < amount) (hf : Funds amount s s') :
      Changes s s' (.fundEpochRewards caller amount) .unit
  | close (hs : Seals s s') : Changes s s' (.sealEpoch caller targetEpoch duration) .unit
  | setOperator (hl : ledger s' = ledger s) (ht : getTotalStaked s' = getTotalStaked s)
      (he : SameEpochs s s') : Changes s s' (.setOperator admin operator) .unit
  | pause (hl : ledger s' = ledger s) (ht : getTotalStaked s' = getTotalStaked s)
      (he : SameEpochs s s') : Changes s s' (.pause admin) .unit
  | unpause (hl : ledger s' = ledger s) (ht : getTotalStaked s' = getTotalStaked s)
      (he : SameEpochs s s') : Changes s s' (.unpause admin) .unit

theorem stake_changes (hb : Books s) (h : stake env user amount s = .ok s') :
    Changes s s' (.stake user amount) .unit := by
  obtain ⟨ha, pending, m, hp, _, hm, hs⟩ := stake_ok h
  have hl := ledger_write hb.wellFormed hp (congrArg State.userStake hs)
    (congrArg State.unclaimedRewards hs) (hm (calcPending_nonneg hb.wellFormed hp)) (by rw [hs])
  rw [sub_self] at hl
  subst hs
  refine .stake ha ⟨hl, ?_, rfl, rfl, rfl, rfl⟩
  simp only [getTotalStaked, Option.getD_some, ledger]
  omega

theorem unstake_changes (hb : Books s) (h : unstake env user amount s = .ok s') :
    Changes s s' (.unstake user amount) .unit := by
  obtain ⟨ha, hle, pending, m, hp, _, hm, hs⟩ := unstake_ok h
  have hl := ledger_write hb.wellFormed hp (congrArg State.userStake hs)
    (congrArg State.unclaimedRewards hs) (hm (calcPending_nonneg hb.wellFormed hp)) (by rw [hs])
  rw [sub_self] at hl
  subst hs
  refine .unstake ha hle ⟨hl, ?_, rfl, rfl, rfl, rfl⟩
  simp only [getTotalStaked, Option.getD_some, ledger]
  omega

theorem claim_changes (hb : Books s) (h : claim env user s = .ok (s', n)) :
    Changes s s' (.claim user) (.amount n) := by
  obtain ⟨pending, hp, _, rfl, hs⟩ := claim_ok h
  have hm (u : Address) : (s.unclaimedRewards.set user 0).getD u 0 =
      if u = user then 0 else getUnclaimed s u := Store.getD_set _ _ _ _ _
  have hl := ledger_write hb.wellFormed hp (congrArg State.userStake hs)
    (congrArg State.unclaimedRewards hs) hm (by rw [hs])
  rw [sub_zero, ← calcPending_claimable hb.wellFormed hp] at hl
  subst hs
  rw [add_comm, ← calcPending_claimable hb.wellFormed hp]
  exact .claim ⟨hl, (add_sub_cancel_right _ _).symm, rfl, rfl, rfl, rfl⟩

theorem fundEpochRewards_funds (h : fundEpochRewards env caller amount s = .ok s') :
    0 < amount ∧ Funds amount s s' := by
  obtain ⟨ha, r, m, hr, rfl, hready, he⟩ := fundEpochRewards_ok h
  refine ⟨ha, hready, rfl, ?_, rfl, rfl, rfl, he⟩
  ext u
  · rfl
  · rfl
  · rfl
  · exact hr

theorem setOperator_ok (h : setOperator env admin operator s = .ok s') :
    s' = { s with operator := some operator } := by
  simp only [setOperator, bind_ok, pure_ok] at h
  obtain ⟨_, _, rfl⟩ := h
  rfl

theorem pause_ok (h : pause env admin s = .ok s') : s' = { s with paused := some true } := by
  simp only [pause, bind_ok, pure_ok] at h
  obtain ⟨_, _, rfl⟩ := h
  rfl

theorem unpause_ok (h : unpause env admin s = .ok s') : s' = { s with paused := some false } := by
  simp only [unpause, bind_ok, pure_ok] at h
  obtain ⟨_, _, rfl⟩ := h
  rfl

def Call.funds : Call → Int
  | .fundEpochRewards _ amount => amount
  | _ => 0

def Call.seals : Call → Bool
  | .sealEpoch _ _ _ => true
  | _ => false

/-- A call opens the first epoch, is made within an epoch, or seals it. -/
inductive Spans (s s' : State) (c : Call) : Prop where
  | start (hs : Starts s s') (hf : c.funds = 0) (hc : c.seals = false)
  | quiet (he : SameEpochs s s') (hi : getRewardIndex s' = getRewardIndex s) (hf : c.funds = 0)
      (hc : c.seals = false)
  | fund (ha : 0 < c.funds) (hf : Funds c.funds s s') (hc : c.seals = false)
  | close (hs : Seals s s') (hf : c.funds = 0) (hc : c.seals = true)

theorem invoke_moves (h : invoke env s c = some (s', o)) :
    Spans s s' c ∧ (Books s → Changes s s' c o) := by
  cases c with
  | init admin duration =>
    obtain ⟨_, hs, he⟩ := commit_some.mp h
    cases he
    exact ⟨.start (init_ok hs) rfl rfl, fun _ => .start (init_ok hs)⟩
  | stake user amount =>
    obtain ⟨_, hs, he⟩ := commit_some.mp h
    cases he
    refine ⟨?_, fun hb => stake_changes hb hs⟩
    obtain ⟨_, _, _, _, _, _, rfl⟩ := stake_ok hs
    exact .quiet ⟨rfl, rfl, rfl, rfl⟩ rfl rfl rfl
  | unstake user amount =>
    obtain ⟨_, hs, he⟩ := commit_some.mp h
    cases he
    refine ⟨?_, fun hb => unstake_changes hb hs⟩
    obtain ⟨_, _, _, _, _, _, _, rfl⟩ := unstake_ok hs
    exact .quiet ⟨rfl, rfl, rfl, rfl⟩ rfl rfl rfl
  | claim user =>
    obtain ⟨_, hs, he⟩ := commit_some.mp h
    cases he
    refine ⟨?_, fun hb => claim_changes hb hs⟩
    obtain ⟨_, _, _, _, hs'⟩ := claim_ok hs
    rw [hs']
    exact .quiet ⟨rfl, rfl, rfl, rfl⟩ rfl rfl rfl
  | fundEpochRewards caller amount =>
    obtain ⟨_, hs, he⟩ := commit_some.mp h
    cases he
    obtain ⟨ha, hf⟩ := fundEpochRewards_funds hs
    exact ⟨.fund ha hf rfl, fun _ => .fund ha hf⟩
  | sealEpoch caller targetEpoch duration =>
    obtain ⟨_, hs, he⟩ := commit_some.mp h
    cases he
    exact ⟨.close (sealEpoch_ok hs) rfl rfl, fun _ => .close (sealEpoch_ok hs)⟩
  | setOperator admin operator =>
    obtain ⟨_, hs, he⟩ := commit_some.mp h
    cases he
    cases setOperator_ok hs
    have hsame : SameEpochs s { s with operator := some operator } := ⟨rfl, rfl, rfl, rfl⟩
    exact ⟨.quiet hsame rfl rfl rfl, fun _ => .setOperator rfl rfl hsame⟩
  | pause admin =>
    obtain ⟨_, hs, he⟩ := commit_some.mp h
    cases he
    cases pause_ok hs
    have hsame : SameEpochs s { s with paused := some true } := ⟨rfl, rfl, rfl, rfl⟩
    exact ⟨.quiet hsame rfl rfl rfl, fun _ => .pause rfl rfl hsame⟩
  | unpause admin =>
    obtain ⟨_, hs, he⟩ := commit_some.mp h
    cases he
    cases unpause_ok hs
    have hsame : SameEpochs s { s with paused := some false } := ⟨rfl, rfl, rfl, rfl⟩
    exact ⟨.quiet hsame rfl rfl rfl, fun _ => .unpause rfl rfl hsame⟩

theorem invoke_spans (h : invoke env s c = some (s', o)) : Spans s s' c := (invoke_moves h).1

theorem invoke_changes (hb : Books s) (h : invoke env s c = some (s', o)) : Changes s s' c o :=
  (invoke_moves h).2 hb

theorem increment_nonneg (s : State) (ha : 0 ≤ amount) : 0 ≤ increment s amount := by
  unfold increment
  split
  · rename_i ht
    exact Int.tdiv_nonneg (mul_nonneg ha scale_pos.le) ht.le
  · exact le_rfl

theorem increment_weight_le (s : State) (ha : 0 ≤ amount) :
    getTotalStaked s * increment s amount ≤ scale * amount := by
  unfold increment
  split
  · rename_i ht
    have hn : 0 ≤ amount * scale := mul_nonneg ha scale_pos.le
    rw [Int.tdiv_eq_ediv_of_nonneg hn, mul_comm scale]
    exact Int.mul_ediv_self_le ht.ne'
  · rw [mul_zero]
    exact mul_nonneg scale_pos.le ha

/-- Opening the first epoch leaves the reward entries alone, since the index is still at 0. -/
theorem start_ledger (hb : Books s) (h : Starts s s') : ledger s' = ledger s := by
  have hx : (ledger s).index = 0 := hb.idle h.unset
  rw [h.ledger, ← hx]

theorem Writes.keeps_books (hb : Books s) (h : Writes user staked paid s s') (hn : 0 ≤ staked)
    (hp : paid ≤ (ledger s).claimable scale user) : Books s' := by
  constructor
  · exact h.books ▸ hb.wellFormed.write scale_pos user hn hp
  · intro ha
    rw [h.epochs.admin] at ha
    exact (congrArg RewardIndex.index h.books).trans (hb.idle ha)

theorem Books.of_ledger (hb : Books s) (hl : ledger s' = ledger s)
    (ha : s'.admin = none → s.admin = none) : Books s' :=
  ⟨hl ▸ hb.wellFormed, fun hn => (congrArg RewardIndex.index hl).trans (hb.idle (ha hn))⟩

theorem Changes.books (hb : Books s) (h : Changes s s' c o) : Books s' := by
  have hn := hb.wellFormed.share_nonneg
  have hc := hb.wellFormed.claimable_nonneg scale_pos
  cases h with
  | start hs => exact hb.of_ledger (start_ledger hb hs) fun hn => absurd hn hs.ready
  | stake ha hw => exact hw.keeps_books hb (add_nonneg (hn _) ha.le) (hc _)
  | unstake ha hle hw => exact hw.keeps_books hb (sub_nonneg.mpr hle) (hc _)
  | claim hw => exact hw.keeps_books hb (hn _) le_rfl
  | fund ha hf =>
    constructor
    · exact hf.books ▸ hb.wellFormed.raise (increment_nonneg s ha.le)
    · exact fun hn => absurd (hf.admin ▸ hn) hf.ready
  | close hs => exact hb.of_ledger hs.ledger fun hn => hs.admin ▸ hn
  | setOperator hl _ he | pause hl _ he | unpause hl _ he =>
    exact hb.of_ledger hl fun hn => he.admin ▸ hn

theorem fresh_books : Books .fresh where
  wellFormed :=
    { share_nonneg := fun _ => le_rfl
      banked_nonneg := fun _ => le_rfl
      snapshot_le := fun _ => le_rfl
      share_finite := (ledger_finite _).1
      banked_finite := (ledger_finite _).2 }
  idle _ := rfl

theorem run_books (h : (machine own).Run .fresh t s) : Books s :=
  h.invariant (P := fun _ => Books) fresh_books fun hb hs => (invoke_changes hb hs).books hb

abbrev History (own : Address) := List (Event State (Env own × Call) Output)

/-- The stake that a call takes out of the total without taking it from its users. -/
def Call.forgets (s : State) : Call → Int
  | .init _ _ => getTotalStaked s
  | _ => 0

/-- Every `init` of a run finds nothing staked. -/
def StartsEmpty (t : History own) : Prop := ∀ e ∈ t, e.input.2.forgets e.pre = 0

instance : Decidable (StartsEmpty (t : History own)) :=
  inferInstanceAs (Decidable (∀ e ∈ t, _))

/-- What was staked is the total and the stake forgotten. -/
theorem Writes.balance (hb : Books s) (h : Writes user staked paid s s') :
    ∑ᶠ u, (ledger s').share u - getTotalStaked s' =
      ∑ᶠ u, (ledger s).share u - getTotalStaked s := by
  rw [h.total, h.books, RewardIndex.sum_share_write hb.wellFormed]
  omega

theorem Changes.balance (hb : Books s) (h : Changes s s' c o) :
    ∑ᶠ u, (ledger s').share u - getTotalStaked s' =
      ∑ᶠ u, (ledger s).share u - getTotalStaked s + c.forgets s := by
  cases h with
  | start hs =>
    rw [start_ledger hb hs, hs.total, sub_zero]
    exact (sub_add_cancel _ _).symm
  | stake _ hw | unstake _ _ hw | claim hw => exact (hw.balance hb).trans (add_zero _).symm
  | fund _ hf =>
    rw [hf.total, hf.books]
    exact (add_zero _).symm
  | close hs =>
    rw [hs.total, hs.ledger]
    exact (add_zero _).symm
  | setOperator hl ht _ | pause hl ht _ | unpause hl ht _ =>
    rw [ht, hl]
    exact (add_zero _).symm

theorem Changes.admin (h : Changes s s' c o) :
    s.admin = none ∧ s'.admin ≠ none ∨ s'.admin = s.admin ∧ c.forgets s = 0 := by
  cases h with
  | start hs => exact .inl ⟨hs.unset, hs.ready⟩
  | stake _ hw | unstake _ _ hw | claim hw => exact .inr ⟨hw.epochs.admin, rfl⟩
  | fund _ hf => exact .inr ⟨hf.admin, rfl⟩
  | close hs => exact .inr ⟨hs.admin, rfl⟩
  | setOperator _ _ he | pause _ _ he | unpause _ _ he => exact .inr ⟨he.admin, rfl⟩

def forgotten (t : History own) : Int := (t.map fun e => e.input.2.forgets e.pre).sum

theorem run_balance (h : (machine own).Run .fresh t s) :
    ∑ᶠ u, (ledger s).share u - getTotalStaked s = forgotten t ∧
      (s.admin = none → forgotten t = 0) ∧ ∀ e ∈ t, 0 ≤ e.input.2.forgets e.pre := by
  induction h with
  | start => exact ⟨(sub_zero _).trans finsum_zero, fun _ => rfl, List.forall_mem_nil _⟩
  | @commit t s i s' o hr hs ih =>
    obtain ⟨hsum, hidle, hnonneg⟩ := ih
    have hb := run_books hr
    have hch := invoke_changes hb hs
    have hcons : forgotten (⟨s, i, o, s'⟩ :: t) = i.2.forgets s + forgotten t := List.sum_cons
    refine ⟨?_, ?_, ?_⟩
    · rw [hch.balance hb, hsum, hcons, add_comm]
    · intro hn
      rcases hch.admin with ⟨_, ha⟩ | ⟨ha, hz⟩
      · exact absurd hn ha
      · rw [hcons, hz, hidle (ha ▸ hn), add_zero]
    · refine List.forall_mem_cons.mpr ⟨?_, hnonneg⟩
      rcases hch.admin with ⟨ha, _⟩ | ⟨_, hz⟩
      · rw [hidle ha, sub_eq_zero] at hsum
        have htotal := Balanced.total_nonneg hsum.symm hb
        unfold Call.forgets
        split
        · exact htotal
        · exact le_rfl
      · exact hz.ge
  | rollback _ _ ih => exact ih

theorem run_balanced_iff (h : (machine own).Run .fresh t s) : Balanced s ↔ StartsEmpty t := by
  obtain ⟨hsum, _, hnonneg⟩ := run_balance h
  have hzero : Balanced s ↔ forgotten t = 0 := by
    rw [← hsum, sub_eq_zero]
    exact eq_comm
  have hall := List.forall_mem_map.mpr hnonneg
  rw [hzero]
  constructor
  · intro hz e he
    exact List.all_zero_of_le_zero_le_of_sum_eq_zero hall hz (List.mem_map_of_mem he)
  · exact fun ht => List.sum_eq_zero (List.forall_mem_map.mpr ht)

theorem run_balanced (h : (machine own).Run .fresh t s) (ht : StartsEmpty t) :
    ∀ e ∈ t, Balanced e.pre :=
  h.pre_of (fun hr ht => (run_balanced_iff hr).mpr ht) ht

end Shelterflex.EpochRewards
