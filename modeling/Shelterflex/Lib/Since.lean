import Shelterflex.Lib.Machine

namespace Lib
set_option autoImplicit true

/-- In a history, latest first, `p` happened, and `q` did not happen after that. -/
inductive Since (p q : α → Prop) : List α → Prop where
  | now : p a → Since p q (a :: t)
  | earlier : ¬ q a → Since p q t → Since p q (a :: t)

theorem since_cons {p q : α → Prop} : Since p q (a :: t) ↔ p a ∨ ¬ q a ∧ Since p q t := by
  constructor
  · intro h
    cases h with
    | now ha => exact .inl ha
    | earlier hb h => exact .inr ⟨hb, h⟩
  · rintro (ha | ⟨hb, h⟩)
    · exact .now ha
    · exact .earlier hb h

theorem Since.imp {p q p' q' : α → Prop} (h : Since p q t) (hp : ∀ a ∈ t, p a → p' a)
    (hq : ∀ a ∈ t, q' a → q a) : Since p' q' t := by
  induction h with
  | now ha => exact .now (hp _ List.mem_cons_self ha)
  | earlier hb _ ih =>
    refine .earlier (fun hb' => hb (hq _ List.mem_cons_self hb')) (ih ?_ ?_)
    · exact fun a ha => hp a (List.mem_cons_of_mem _ ha)
    · exact fun a ha => hq a (List.mem_cons_of_mem _ ha)

theorem Since.happened {p q : α → Prop} (h : Since p q t) : ∃ a ∈ t, p a := by
  induction h with
  | now ha => exact ⟨_, List.mem_cons_self, ha⟩
  | earlier _ _ ih =>
    obtain ⟨a, ha, hp⟩ := ih
    exact ⟨a, List.mem_cons_of_mem _ ha, hp⟩

theorem since_iff_append {p q : α → Prop} : Since p q t ↔
    ∃ later a earlier, t = later ++ a :: earlier ∧ p a ∧ ∀ b ∈ later, ¬ q b := by
  constructor
  · intro h
    induction h with
    | now ha => exact ⟨[], _, _, rfl, ha, List.forall_mem_nil _⟩
    | earlier hb _ ih =>
      obtain ⟨later, a, earlier, rfl, ha, hnone⟩ := ih
      exact ⟨_ :: later, a, earlier, rfl, ha, List.forall_mem_cons.mpr ⟨hb, hnone⟩⟩
  · rintro ⟨later, a, earlier, rfl, ha, hnone⟩
    induction later with
    | nil => exact .now ha
    | cons b later ih =>
      obtain ⟨hb, hnone⟩ := List.forall_mem_cons.mp hnone
      exact .earlier hb (ih hnone)

instance Since.decidable {p q : α → Prop} [DecidablePred p] [DecidablePred q] :
    (t : List α) → Decidable (Since p q t)
  | [] => isFalse nofun
  | a :: t =>
    have : Decidable (Since p q t) := Since.decidable t
    decidable_of_iff (p a ∨ ¬ q a ∧ Since p q t) since_cons.symm

/-- In a history, latest first, each event is as `P` says of it and the events before it. -/
def Throughout (P : α → List α → Prop) : List α → Prop
  | [] => True
  | a :: t => P a t ∧ Throughout P t

instance Throughout.decidable {P : α → List α → Prop} [∀ a t, Decidable (P a t)] :
    (t : List α) → Decidable (Throughout P t)
  | [] => isTrue True.intro
  | a :: t =>
    have : Decidable (Throughout P t) := Throughout.decidable t
    inferInstanceAs (Decidable (P a t ∧ Throughout P t))

namespace Machine

section
variable {M : Machine σ ι ο} {p q C : Event σ ι ο → Prop} {f : σ → Prop}

/-- What only `p` brings about and `q` never leaves standing was brought about since the last
`q`. -/
theorem Run.since_of (h : M.Run s₀ t s) (hC : ∀ e ∈ t, C e) (h₀ : ¬ f s₀)
    (hs : ∀ {s i s' o}, M.Reachable s₀ s → M.step s i = some (s', o) → C ⟨s, i, o, s'⟩ → f s' →
      p ⟨s, i, o, s'⟩ ∨ ¬ q ⟨s, i, o, s'⟩ ∧ f s) (hf : f s) : Since p q t := by
  induction h with
  | start => exact absurd hf h₀
  | commit hr he ih =>
    obtain ⟨hc, hC⟩ := List.forall_mem_cons.mp hC
    rcases hs ⟨_, hr⟩ he hc hf with hp | ⟨hq, hf'⟩
    · exact .now hp
    · exact .earlier hq (ih hC hf')
  | rollback _ _ ih => exact ih hC hf

theorem Run.stands (h : M.Run s₀ t s)
    (hp : ∀ {s i s' o}, M.step s i = some (s', o) → p ⟨s, i, o, s'⟩ → f s')
    (hq : ∀ {s i s' o}, M.step s i = some (s', o) → f s → ¬ q ⟨s, i, o, s'⟩ → f s')
    (ht : Since p q t) : f s := by
  induction h with
  | start => cases ht
  | commit _ he ih =>
    cases ht with
    | now ha => exact hp he ha
    | earlier hb ht => exact hq he (ih ht) hb
  | rollback _ _ ih => exact ih ht

/-- A register that an event writes, clears or leaves as it is holds what the last event that
touched it wrote. -/
theorem Run.register_iff (h : M.Run s₀ t s) (get : σ → Option ν)
    (effect : Event σ ι ο → Option (Option ν)) (h₀ : get s₀ = none)
    (hs : ∀ {s i s' o}, M.step s i = some (s', o) →
      get s' = (effect ⟨s, i, o, s'⟩).getD (get s)) (v : ν) :
    get s = some v ↔ Since (fun e => effect e = some (some v)) (fun e => (effect e).isSome) t := by
  induction h with
  | start =>
    rw [h₀]
    exact iff_of_false nofun nofun
  | @commit t s i s' o hr he ih =>
    rw [hs he, since_cons, ← ih]
    cases effect ⟨s, i, o, s'⟩ with
    | none => simp
    | some left => simp
  | rollback _ _ ih => exact ih

end

/-! ## At most once -/

section
variable {M : Machine σ ι ο} {p : Event σ ι ο → Bool} {f : σ → Prop}

/-- Calls that need a condition to be open, and close it for good. -/
structure Closes (M : Machine σ ι ο) (s₀ : σ) (p : Event σ ι ο → Bool) (f : σ → Prop) : Prop where
  stays : M.Reachable s₀ s → M.step s i = some (s', o) → f s → f s'
  needs : M.Reachable s₀ s → M.step s i = some (s', o) → p ⟨s, i, o, s'⟩ = true → ¬ f s
  sets : M.Reachable s₀ s → M.step s i = some (s', o) → p ⟨s, i, o, s'⟩ = true → f s'

/-- A run commits such a call at most once, and none while the condition is still open. -/
theorem Run.once (h : M.Run s₀ t s) (hc : M.Closes s₀ p f) :
    t.countP p ≤ 1 ∧ (t.countP p ≠ 0 → f s) := by
  induction h with
  | start => exact ⟨Nat.zero_le _, fun hn => absurd rfl hn⟩
  | @commit t s i s' o hr hs ih =>
    obtain ⟨hle, hf⟩ := ih
    by_cases hp : p ⟨s, i, o, s'⟩ = true
    · have hz : t.countP p = 0 := by
        by_contra hn
        exact hc.needs ⟨_, hr⟩ hs hp (hf hn)
      rw [List.countP_cons_of_pos hp, hz]
      exact ⟨Nat.le_refl _, fun _ => hc.sets ⟨_, hr⟩ hs hp⟩
    · rw [List.countP_cons_of_neg hp]
      exact ⟨hle, fun hn => hc.stays ⟨_, hr⟩ hs (hf hn)⟩
  | rollback _ _ ih => exact ih

end

end Machine

end Lib
