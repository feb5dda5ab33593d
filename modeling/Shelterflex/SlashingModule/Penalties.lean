import Shelterflex.SlashingModule.Lifecycle

namespace Shelterflex.SlashingModule
open Lib
set_option autoImplicit true

/-- The slash that a committed call finalizes. -/
def finalizes (e : Event State (Env own × Call) Output) : Option PendingSlash :=
  match e.input.2 with
  | .finalizeSlash _ slashId => getPendingSlash e.pre slashId
  | _ => none

/-- What a committed call takes from the balance of an actor. -/
def removed (e : Event State (Env own × Call) Output) (actor : Address) : Int :=
  getStakedBalance e.pre actor - getStakedBalance e.post actor

theorem finalizes_eq_some {e : Event State (Env own × Call) Output} :
    finalizes e = some p ↔ ∃ caller slashId, e.input.2 = .finalizeSlash caller slashId ∧
      getPendingSlash e.pre slashId = some p := by
  obtain ⟨s, ⟨env, c⟩, o, s'⟩ := e
  cases c with
  | finalizeSlash caller slashId =>
    constructor
    · exact fun h => ⟨caller, slashId, rfl, h⟩
    · rintro ⟨_, _, ⟨⟩, h⟩
      exact h
  | _ =>
    refine iff_of_false nofun ?_
    rintro ⟨_, _, ⟨⟩, _⟩

section
variable {own : Address} {t : History own} {env : Env own} {s s' : State}

theorem Filed.id_eq (h : Filed sha256 t s) (hp : getPendingSlash s slashId = some p) :
    p.id = slashId := ((h.agree slashId p.asFiled).mp (onFile_eq hp)).2

theorem Filed.origin (h : Filed sha256 t s) (hp : getPendingSlash s slashId = some p) :
    ∃ e ∈ t, created e = some p.asFiled :=
  List.mem_filterMap.mp ((h.agree slashId p.asFiled).mp (onFile_eq hp)).1

theorem filed_amount (h : filed env s c = some p) :
    p.amount = fixedAmount (getStakedBalance s p.actor) p.penaltyBps := by
  cases c with
  | submitEvidence _ _ _ _ | proposeSlash _ _ _ =>
    cases h
    rfl
  | _ => cases h

/-- A slash is finalized from its balance at that time, and is added to what the actor lost. -/
theorem Filed.finalized (h : Filed sha256 t s) (hs : invoke sha256 env s c = some (s', o))
    (hp : finalizes ⟨s, (env, c), o, s'⟩ = some p) :
    getStakedBalance s' = Function.update (getStakedBalance s) p.actor
        (getStakedBalance s p.actor - min p.amount (getStakedBalance s p.actor)) ∧
      totalSlashed s' = Function.update (totalSlashed s) p.actor
        (totalSlashed s p.actor + min p.amount (getStakedBalance s p.actor)) := by
  obtain ⟨caller, slashId, rfl, hp⟩ := finalizes_eq_some.mp hp
  have hc := (invoke_written hs).accounts
  have hb : getStakedBalance s' = (accounts s').balance := rfl
  have hx : totalSlashed s' = (accounts s').slashed := rfl
  rw [hb, hx]
  generalize accounts s' = a' at hc
  cases hc with
  | keep hw => cases hw
  | jail hq _ | reduce hq _ _ =>
    cases Option.some.inj (hp.symm.trans hq)
    exact ⟨rfl, rfl⟩
  | waive hq hv hn =>
    cases Option.some.inj (hp.symm.trans hq)
    obtain ⟨e, he, hf⟩ := h.origin hp
    exact absurd (h.positive p.asFiled (List.mem_filterMap.mpr ⟨e, he, hf⟩) hv) hn

theorem totalSlashed_kept (hs : invoke sha256 env s c = some (s', o))
    (hp : finalizes ⟨s, (env, c), o, s'⟩ = none) : totalSlashed s' = totalSlashed s := by
  have hc := (invoke_written hs).accounts
  have hx : totalSlashed s' = (accounts s').slashed := rfl
  rw [hx]
  generalize accounts s' = a' at hc
  cases hc with
  | jail hq _ => cases hp.symm.trans hq
  | reduce hq _ _ => cases hp.symm.trans hq
  | waive hq _ _ => cases hp.symm.trans hq
  | _ => rfl

theorem Filed.removed_eq (h : Filed sha256 t s) (hs : invoke sha256 env s c = some (s', o))
    (hp : finalizes ⟨s, (env, c), o, s'⟩ = some p) :
    removed ⟨s, (env, c), o, s'⟩ p.actor = min p.amount (getStakedBalance s p.actor) := by
  rw [removed, (h.finalized hs hp).1, Function.update_self]
  exact sub_sub_cancel _ _

theorem Filed.origin_finalizes {e : Event State (Env own × Call) Output} (h : Filed sha256 t e.pre)
    (hp : finalizes e = some p) : ∃ e₀ ∈ t, created e₀ = some p.asFiled := by
  obtain ⟨_, _, _, hq⟩ := finalizes_eq_some.mp hp
  exact h.origin hq

end

/-- A finalization takes no more than the share of the actor's balance that slashes were capped at
when the slash was filed. -/
def WithinCap (e₀ e : Event State (Env own × Call) Output) (actor : Address) : Prop :=
  maxBps * removed e actor ≤ getMaxSlashBps e₀.pre * getStakedBalance e.pre actor

instance (e₀ e : Event State (Env own × Call) Output) (actor : Address) :
    Decidable (WithinCap e₀ e actor) := inferInstanceAs (Decidable (_ ≤ _))

/-- What was fixed when the slash was filed is within the cap of the balance at the finalization,
or the cap does not bind there. -/
def AmountFits (e₀ e : Event State (Env own × Call) Output) (p : PendingSlash) : Prop :=
  maxBps * fixedAmount (getStakedBalance e₀.pre p.actor) p.penaltyBps ≤
      getMaxSlashBps e₀.pre * getStakedBalance e.pre p.actor ∨
    maxBps * getStakedBalance e.pre p.actor ≤
      getMaxSlashBps e₀.pre * getStakedBalance e.pre p.actor

/-- In every run a finalization keeps to the cap exactly if the amount that was filed still fits
the balance. -/
theorem withinCap_iff (h : (machine sha256 own).Run (initialized admin) t s) :
    ∀ later e earlier p, t = later ++ e :: earlier → finalizes e = some p →
      ∃ e₀ ∈ earlier, created e₀ = some p.asFiled ∧
        (WithinCap e₀ e p.actor ↔ AmountFits e₀ e p) := by
  intro later e earlier p ht hp
  subst ht
  obtain ⟨hr, hs⟩ := h.upTo
  have hf := run_filed hr
  obtain ⟨e₀, he₀, hc⟩ := hf.origin_finalizes hp
  have ha : p.amount = fixedAmount (getStakedBalance e₀.pre p.actor) p.penaltyBps :=
    filed_amount (p := p.asFiled) hc
  have hx : removed e p.actor = min p.amount (getStakedBalance e.pre p.actor) :=
    hf.removed_eq hs hp
  have hm : (0 : Int) ≤ maxBps := Int.natCast_nonneg _
  exists e₀, he₀, hc
  rw [WithinCap, AmountFits, hx, ← ha, mul_min_of_nonneg _ _ hm]
  exact min_le_iff

/-- Two slashes of half the balance are filed before either is finalized, under a cap of half. -/
def cappedTwice : List (Env ⟨0⟩ × Call) :=
  [(.signed ⟨0⟩ 0, .configureTiers ⟨1⟩ 1000 100 500 5000),
    (.signed ⟨0⟩ 0, .setStakedBalance ⟨1⟩ ⟨5⟩ 1000), (.signed ⟨0⟩ 0, .proposeSlash ⟨1⟩ ⟨5⟩ 5000),
    (.signed ⟨0⟩ 0, .proposeSlash ⟨1⟩ ⟨5⟩ 5000), (.signed ⟨0⟩ 604800, .finalizeSlash ⟨1⟩ 1),
    (.signed ⟨0⟩ 604800, .finalizeSlash ⟨1⟩ 2)]

theorem withinCap_iff_cappedTwice : ∃ (e₀ e : Event State (Env ⟨0⟩ × Call) Output) (p : _),
    finalizes e = some p ∧ created e₀ = some p.asFiled ∧
      (WithinCap e₀ e p.actor ↔ AmountFits e₀ e p) := by
  obtain ⟨e₀, _, hc, hw⟩ := withinCap_iff
    ((machine padded ⟨0⟩).run_replay (initialized ⟨1⟩) cappedTwice) [] _ _ _ rfl rfl
  exact ⟨e₀, _, _, rfl, hc, hw⟩

theorem cap_exceeded :
    ¬ ∀ t s, (machine padded ⟨0⟩).Run (initialized ⟨1⟩) t s →
      ∀ later e earlier p, t = later ++ e :: earlier → finalizes e = some p →
        ∀ e₀ ∈ earlier, created e₀ = some p.asFiled → WithinCap e₀ e p.actor := by
  intro hall
  have hr := (machine padded ⟨0⟩).run_replay (initialized ⟨1⟩) cappedTwice
  have hw := hall _ _ hr [] _ _ _ rfl rfl _ (.tail _ (.head _)) rfl
  exact absurd hw (by decide)

/-- A slash of an actor is finalized. -/
def FinalizedFor (s : State) (actor : Address) (slashId : Nat) : Prop :=
  ∃ p, getPendingSlash s slashId = some p ∧ p.actor = actor ∧ p.status = .finalized

/-- What a committed call takes from an actor by finalizing a slash, with the id of the slash. -/
def taken (actor : Address) (e : Event State (Env own × Call) Output) : Option (Nat × Int) :=
  (finalizes e).bind fun p => if p.actor = actor then some (p.id, removed e actor) else none

theorem taken_eq_some {e : Event State (Env own × Call) Output} : taken actor e = some x ↔
    ∃ p, finalizes e = some p ∧ p.actor = actor ∧ (p.id, removed e actor) = x := by
  simp only [taken, Option.bind_eq_some_iff, Option.ite_none_right_eq_some, Option.some.injEq]

section
variable {own : Address} {t : History own} {env : Env own} {s s' : State}

theorem Filed.finalize_pending (h : Filed sha256 t s) (hs : invoke sha256 env s c = some (s', o))
    (hp : finalizes ⟨s, (env, c), o, s'⟩ = some p) :
    getPendingSlash s p.id = some p ∧ p.status = .pending ∧
      getPendingSlash s' p.id = some { p with status := .finalized } := by
  obtain ⟨caller, slashId, rfl, hq⟩ := finalizes_eq_some.mp hp
  have hi := h.id_eq hq
  subst hi
  obtain ⟨_, hf, he⟩ := commit_some.mp hs
  cases he
  obtain ⟨p', hp', hst, _, _, hd⟩ := finalizeSlash_docket hf
  cases Option.some.inj (hq.symm.trans hp')
  have hx : getPendingSlash s' p.id = (docket s').slashes p.id := rfl
  rw [hx, hd, Docket.guard_slashes]
  exact ⟨hq, hst, Function.update_self _ _ _⟩

theorem Filed.finalizedFor_iff (h : Filed sha256 t s)
    (hs : invoke sha256 env s c = some (s', o)) (actor : Address) (slashId : Nat) :
    FinalizedFor s' actor slashId ↔ FinalizedFor s actor slashId ∨
      ∃ p, finalizes ⟨s, (env, c), o, s'⟩ = some p ∧ p.actor = actor ∧ p.id = slashId := by
  constructor
  · rintro ⟨q, hq, ha, hst⟩
    cases h.advances hs slashId with
    | keep hp => exact .inl ⟨q, hp ▸ hq, ha, hst⟩
    | create _ _ hp _ hp' =>
      cases Option.some.inj (hq.symm.trans hp')
      cases hst.symm.trans hp
    | finalize hc hp _ _ _ hp' =>
      cases Option.some.inj (hq.symm.trans hp')
      exact .inr ⟨_, finalizes_eq_some.mpr ⟨_, _, hc, hp⟩, ha, h.id_eq hp⟩
    | cancel _ _ _ hp' =>
      cases Option.some.inj (hq.symm.trans hp')
      cases hst
  · rintro (⟨q, hq, ha, hst⟩ | ⟨p, hp, ha, rfl⟩)
    · obtain ⟨status, hq', hk⟩ := (invoke_written hs).docket.kept h.sound hq
      refine ⟨_, hq', ha, ?_⟩
      rw [hk (by rw [hst]; nofun)]
      exact hst
    · exact ⟨_, (h.finalize_pending hs hp).2.2, ha, rfl⟩

/-- The slashes finalized against an actor, with what each took. -/
def penalties (t : History own) (actor : Address) : List (Nat × Int) := t.filterMap (taken actor)

/-- What an actor lost is what the finalized slashes took. -/
structure Tallied (t : History own) (s : State) (actor : Address) : Prop where
  ids : ((penalties t actor).map Prod.fst).Nodup
  finalized : ∀ slashId, slashId ∈ (penalties t actor).map Prod.fst ↔ FinalizedFor s actor slashId
  total : totalSlashed s actor = ((penalties t actor).map Prod.snd).sum

theorem Tallied.step (ht : Tallied t s actor) (h : Filed sha256 t s)
    (hs : invoke sha256 env s c = some (s', o)) :
    Tallied (⟨s, (env, c), o, s'⟩ :: t) s' actor := by
  have hiff := h.finalizedFor_iff hs actor
  cases hp : finalizes ⟨s, (env, c), o, s'⟩ with
  | none =>
    have hx : penalties (⟨s, (env, c), o, s'⟩ :: t) actor = penalties t actor :=
      List.filterMap_cons_none (by rw [taken, hp]; rfl)
    refine ⟨hx ▸ ht.ids, fun slashId => ?_, ?_⟩
    · rw [hx, ht.finalized, hiff, hp]
      refine ⟨.inl, fun h => h.resolve_right ?_⟩
      rintro ⟨_, he, _⟩
      cases he
    · rw [hx, totalSlashed_kept hs hp]
      exact ht.total
  | some p =>
    obtain ⟨hpre, hst, _⟩ := h.finalize_pending hs hp
    have hd := (h.finalized hs hp).2
    by_cases ha : p.actor = actor
    · have hx : penalties (⟨s, (env, c), o, s'⟩ :: t) actor =
          (p.id, removed ⟨s, (env, c), o, s'⟩ actor) :: penalties t actor :=
        List.filterMap_cons_some (taken_eq_some.mpr ⟨p, hp, ha, rfl⟩)
      refine ⟨?_, fun slashId => ?_, ?_⟩
      · rw [hx, List.map_cons, List.nodup_cons, ht.finalized]
        refine ⟨?_, ht.ids⟩
        rintro ⟨q, hq, _, hf⟩
        cases Option.some.inj (hpre.symm.trans hq)
        cases hst.symm.trans hf
      · rw [hx, List.map_cons, List.mem_cons, ht.finalized, hiff, hp, or_comm]
        apply or_congr_right
        constructor
        · exact fun he => ⟨p, rfl, ha, he.symm⟩
        · rintro ⟨_, ⟨⟩, _, he⟩
          exact he.symm
      · have hr := h.removed_eq hs hp
        subst ha
        rw [hx, hd, Function.update_self, List.map_cons, List.sum_cons, ← ht.total, hr]
        exact add_comm _ _
    · have hx : penalties (⟨s, (env, c), o, s'⟩ :: t) actor = penalties t actor :=
        List.filterMap_cons_none (by rw [taken, hp]; exact if_neg ha)
      refine ⟨hx ▸ ht.ids, fun slashId => ?_, ?_⟩
      · rw [hx, ht.finalized, hiff, hp]
        refine ⟨.inl, fun h => h.resolve_right ?_⟩
        rintro ⟨_, ⟨⟩, he, _⟩
        exact ha he
      · rw [hx, hd, Function.update_of_ne (Ne.symm ha)]
        exact ht.total

end

theorem run_tallied (h : (machine sha256 own).Run (initialized admin) t s) (actor : Address) :
    Tallied t s actor := by
  induction h with
  | start =>
    refine ⟨List.nodup_nil, fun slashId => iff_of_false List.not_mem_nil ?_, rfl⟩
    rintro ⟨_, h, _⟩
    cases h
  | commit hr hs ih => exact ih.step (run_filed hr) hs
  | rollback _ _ ih => exact ih

theorem fixedAmount_nonneg : 0 ≤ fixedAmount b bps ↔ 0 ≤ b := by
  constructor
  · intro h
    exact h.trans (min_le_right _ _)
  · intro h
    apply le_min _ h
    exact Int.tdiv_nonneg (mul_nonneg h (Int.natCast_nonneg _)) (Int.natCast_nonneg _)

/-- A finalization lowers the balance of the actor, to no less than zero, and adds the difference
to what the actor lost. -/
structure Lowers (e : Event State (Env own × Call) Output) (actor : Address) : Prop where
  nonneg : 0 ≤ getStakedBalance e.post actor
  le : getStakedBalance e.post actor ≤ getStakedBalance e.pre actor
  slashed : totalSlashed e.post = Function.update (totalSlashed e.pre) actor
    (totalSlashed e.pre actor + removed e actor)

theorem Filed.lowers_iff {t : History own} (h : Filed sha256 t s) {env : Env own}
    (hs : invoke sha256 env s c = some (s', o)) (hp : finalizes ⟨s, (env, c), o, s'⟩ = some p) :
    Lowers ⟨s, (env, c), o, s'⟩ p.actor ↔ 0 ≤ p.amount ∧ 0 ≤ getStakedBalance s p.actor := by
  obtain ⟨hb, hx⟩ := h.finalized hs hp
  have hr := h.removed_eq hs hp
  have hb' : getStakedBalance s' p.actor =
      getStakedBalance s p.actor - min p.amount (getStakedBalance s p.actor) := by
    rw [hb, Function.update_self]
  rw [← le_min_iff]
  constructor
  · rintro ⟨_, hle, _⟩
    dsimp only at hle
    omega
  · intro hn
    refine ⟨?_, ?_, ?_⟩
    · exact hb' ▸ sub_nonneg.mpr (min_le_right _ _)
    · exact hb' ▸ sub_le_self _ hn
    · rw [hr]
      exact hx

/-- In every run a finalization lowers the balance as it should exactly if neither that balance nor
the one the slash was filed on is negative, and in any case the total of each actor is what its
finalized slashes took. -/
theorem slashed_accounting (h : (machine sha256 own).Run (initialized admin) t s) :
    (∀ later e earlier, t = later ++ e :: earlier →
      (finalizes e = none → totalSlashed e.post = totalSlashed e.pre) ∧
      ∀ p, finalizes e = some p → ∃ e₀ ∈ earlier, created e₀ = some p.asFiled ∧
        (Lowers e p.actor ↔
          0 ≤ getStakedBalance e₀.pre p.actor ∧ 0 ≤ getStakedBalance e.pre p.actor)) ∧
    ∀ actor, Tallied t s actor := by
  refine ⟨?_, run_tallied h⟩
  intro later e earlier ht
  subst ht
  obtain ⟨hr, hs⟩ := h.upTo
  have hf := run_filed hr
  refine ⟨totalSlashed_kept hs, fun p hp => ?_⟩
  obtain ⟨e₀, he₀, hc⟩ := hf.origin_finalizes hp
  have ha : p.amount = fixedAmount (getStakedBalance e₀.pre p.actor) p.penaltyBps :=
    filed_amount (p := p.asFiled) hc
  have hl : Lowers e p.actor ↔ 0 ≤ p.amount ∧ 0 ≤ getStakedBalance e.pre p.actor :=
    hf.lowers_iff hs hp
  rw [ha, fixedAmount_nonneg] at hl
  exact ⟨e₀, he₀, hc, hl⟩

/-- A slash is submitted on a negative balance, and finalized on another. -/
def negativeBalance : List (Env ⟨0⟩ × Call) :=
  [(.signed ⟨0⟩ 0, .setSubmitter ⟨1⟩ ⟨2⟩ true), (.signed ⟨0⟩ 0, .setStakedBalance ⟨1⟩ ⟨5⟩ (-100)),
    (.signed ⟨0⟩ 0, .submitEvidence ⟨2⟩ (hashCommitment padded [7] [1]) ⟨5⟩ .downtime),
    (.signed ⟨0⟩ 1, .revealEvidence ⟨2⟩ 1 [7] [1]),
    (.signed ⟨0⟩ 2, .setStakedBalance ⟨1⟩ ⟨5⟩ 500), (.signed ⟨0⟩ 604800, .finalizeSlash ⟨2⟩ 1)]

theorem slashed_accounting_negativeBalance :
    (∃ (e₀ e : Event State (Env ⟨0⟩ × Call) Output) (p : _), finalizes e = some p ∧
      created e₀ = some p.asFiled ∧ (Lowers e p.actor ↔
        0 ≤ getStakedBalance e₀.pre p.actor ∧ 0 ≤ getStakedBalance e.pre p.actor)) ∧
    Tallied ((machine padded ⟨0⟩).replay (initialized ⟨1⟩) negativeBalance).1
      ((machine padded ⟨0⟩).replay (initialized ⟨1⟩) negativeBalance).2 ⟨5⟩ := by
  obtain ⟨hx, ht⟩ := slashed_accounting
    ((machine padded ⟨0⟩).run_replay (initialized ⟨1⟩) negativeBalance)
  obtain ⟨e₀, _, hc, hl⟩ := (hx [] _ _ rfl).2 _ rfl
  exact ⟨⟨e₀, _, _, rfl, hc, hl⟩, ht ⟨5⟩⟩

theorem balance_raised :
    ¬ ∀ t s, (machine padded ⟨0⟩).Run (initialized ⟨1⟩) t s →
      ∀ later e earlier p, t = later ++ e :: earlier → finalizes e = some p →
        Lowers e p.actor := by
  intro hall
  have hr := (machine padded ⟨0⟩).run_replay (initialized ⟨1⟩) negativeBalance
  have hl := hall _ _ hr [] _ _ _ rfl rfl
  exact absurd hl.le (by decide)

end Shelterflex.SlashingModule
