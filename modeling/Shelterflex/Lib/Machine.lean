import Mathlib.Data.List.Basic

namespace Lib
set_option autoImplicit true

/-- A machine whose calls either commit a new state and an output, or fail. -/
structure Machine (σ ι ο : Type) where
  step : σ → ι → Option (σ × ο)

/-- A committed call, with the states around it. -/
structure Event (σ ι ο : Type) where
  pre : σ
  input : ι
  output : ο
  post : σ

namespace Machine

/-- A run and its committed calls, latest first. A failed call leaves the state as it was. -/
inductive Run (M : Machine σ ι ο) (s₀ : σ) : List (Event σ ι ο) → σ → Prop where
  | start : Run M s₀ [] s₀
  | commit : Run M s₀ t s → M.step s i = some (s', o) → Run M s₀ (⟨s, i, o, s'⟩ :: t) s'
  | rollback : Run M s₀ t s → M.step s i = none → Run M s₀ t s

/-- Perform one call, rolling back when it fails. -/
def apply (M : Machine σ ι ο) (r : List (Event σ ι ο) × σ) (i : ι) : List (Event σ ι ο) × σ :=
  match M.step r.2 i with
  | some (s', o) => (⟨r.2, i, o, s'⟩ :: r.1, s')
  | none => r

/-- Perform a list of calls in order. -/
def replay (M : Machine σ ι ο) (s₀ : σ) (is : List ι) : List (Event σ ι ο) × σ :=
  is.foldl M.apply ([], s₀)

theorem apply_of_none {M : Machine σ ι ο} (t : List (Event σ ι ο)) (h : M.step s i = none) :
    M.apply (t, s) i = (t, s) := by
  unfold Machine.apply
  rw [h]

theorem apply_of_some {M : Machine σ ι ο} (t : List (Event σ ι ο))
    (h : M.step s i = some (s', o)) : M.apply (t, s) i = (⟨s, i, o, s'⟩ :: t, s') := by
  unfold Machine.apply
  rw [h]

theorem Run.apply {M : Machine σ ι ο} {r : List (Event σ ι ο) × σ} (h : M.Run s₀ r.1 r.2)
    (i : ι) : M.Run s₀ (M.apply r i).1 (M.apply r i).2 := by
  unfold Machine.apply
  split
  · rename_i s' o hs
    exact .commit h hs
  · exact h

theorem run_replay (M : Machine σ ι ο) (s₀ : σ) (is : List ι) :
    M.Run s₀ (M.replay s₀ is).1 (M.replay s₀ is).2 := by
  have hfold (is : List ι) (r : List (Event σ ι ο) × σ) (h : M.Run s₀ r.1 r.2) :
      M.Run s₀ (is.foldl M.apply r).1 (is.foldl M.apply r).2 := by
    induction is generalizing r with
    | nil => exact h
    | cons i is ih => exact ih _ (h.apply i)
  exact hfold is _ .start

theorem Run.invariant_on {M : Machine σ ι ο} {C : Event σ ι ο → Prop}
    {P : List (Event σ ι ο) → σ → Prop} (h : M.Run s₀ t s) (hC : ∀ e ∈ t, C e) (h₀ : P [] s₀)
    (hs : ∀ {t s i s' o}, M.Run s₀ t s → P t s → M.step s i = some (s', o) →
      C ⟨s, i, o, s'⟩ → P (⟨s, i, o, s'⟩ :: t) s') : P t s := by
  induction h with
  | start => exact h₀
  | commit hr he ih =>
    exact hs hr (ih fun e h => hC e (List.mem_cons_of_mem _ h)) he (hC _ List.mem_cons_self)
  | rollback _ _ ih => exact ih hC

/-- The rule for calls that preserve the property whatever came before. -/
theorem Run.invariant_of {M : Machine σ ι ο} {C : Event σ ι ο → Prop}
    {P : List (Event σ ι ο) → σ → Prop} (h : M.Run s₀ t s) (hC : ∀ e ∈ t, C e) (h₀ : P [] s₀)
    (hs : ∀ {t s i s' o}, P t s → M.step s i = some (s', o) → C ⟨s, i, o, s'⟩ →
      P (⟨s, i, o, s'⟩ :: t) s') : P t s :=
  h.invariant_on hC h₀ fun _ hp he hc => hs hp he hc

theorem Run.invariant {M : Machine σ ι ο} {P : List (Event σ ι ο) → σ → Prop}
    (h : M.Run s₀ t s) (h₀ : P [] s₀)
    (hs : ∀ {t s i s' o}, P t s → M.step s i = some (s', o) → P (⟨s, i, o, s'⟩ :: t) s') :
    P t s :=
  h.invariant_of (C := fun _ => True) (fun _ _ => True.intro) h₀ fun hp he _ => hs hp he

/-- The states a machine reaches. -/
def Reachable (M : Machine σ ι ο) (s₀ s : σ) : Prop := ∃ t, M.Run s₀ t s

theorem Run.committed {M : Machine σ ι ο} {e : Event σ ι ο} (h : M.Run s₀ t s) (he : e ∈ t) :
    M.Reachable s₀ e.pre ∧ M.step e.pre e.input = some (e.post, e.output) := by
  induction h with
  | start => cases he
  | commit hr hs ih =>
    rcases List.mem_cons.mp he with rfl | he
    · exact ⟨⟨_, hr⟩, hs⟩
    · exact ih he
  | rollback _ _ ih => exact ih he

/-- What holds at the end of every run whose calls meet a condition holds before each of them. -/
theorem Run.pre_of {M : Machine σ ι ο} {C : Event σ ι ο → Prop} {P : σ → Prop}
    (hP : ∀ {t s}, M.Run s₀ t s → (∀ e ∈ t, C e) → P s) (h : M.Run s₀ t s) (hC : ∀ e ∈ t, C e) :
    ∀ e ∈ t, P e.pre := by
  induction h with
  | start => exact List.forall_mem_nil _
  | commit hr hs ih =>
    have hC' := (List.forall_mem_cons.mp hC).2
    exact List.forall_mem_cons.mpr ⟨hP hr hC', ih hC'⟩
  | rollback _ _ ih => exact ih hC

/-- A run up to one of its committed calls, and from it on. -/
theorem Run.split {M : Machine σ ι ο} {e : Event σ ι ο} (h : M.Run s₀ (later ++ e :: earlier) s) :
    (M.Run s₀ earlier e.pre ∧ M.step e.pre e.input = some (e.post, e.output)) ∧
      M.Run e.post later s := by
  generalize ht : later ++ e :: earlier = t at h
  induction h generalizing later with
  | start => exact absurd ht (List.append_ne_nil_of_right_ne_nil _ (List.cons_ne_nil _ _))
  | commit hr hs ih =>
    cases later with
    | nil =>
      cases ht
      exact ⟨⟨hr, hs⟩, .start⟩
    | cons e' later =>
      cases (List.cons.inj ht).1
      obtain ⟨hupTo, hafter⟩ := ih (List.cons.inj ht).2
      exact ⟨hupTo, .commit hafter hs⟩
  | rollback _ hs ih =>
    obtain ⟨hupTo, hafter⟩ := ih ht
    exact ⟨hupTo, .rollback hafter hs⟩

theorem Run.upTo {M : Machine σ ι ο} {e : Event σ ι ο} (h : M.Run s₀ (later ++ e :: earlier) s) :
    M.Run s₀ earlier e.pre ∧ M.step e.pre e.input = some (e.post, e.output) :=
  h.split.1

theorem Run.after {M : Machine σ ι ο} {e : Event σ ι ο} (h : M.Run s₀ (later ++ e :: earlier) s) :
    M.Run e.post later s :=
  h.split.2

theorem Run.append {M : Machine σ ι ο} (h : M.Run s₀ t s) (h' : M.Run s t' s') :
    M.Run s₀ (t' ++ t) s' := by
  induction h' with
  | start => exact h
  | commit _ hs ih => exact .commit ih hs
  | rollback _ hs ih => exact .rollback ih hs

theorem Run.nil_eq {M : Machine σ ι ο} (h : M.Run s₀ [] s) : s = s₀ := by
  generalize ht : ([] : List (Event σ ι ο)) = t at h
  induction h with
  | start => rfl
  | commit hr hs ih => cases ht
  | rollback hr hs ih => exact ih ht

theorem Run.uncons {M : Machine σ ι ο} {e : Event σ ι ο} (h : M.Run s₀ (e :: t) s) :
    M.Run s₀ t e.pre ∧ M.step e.pre e.input = some (e.post, e.output) ∧ s = e.post := by
  generalize ht : e :: t = t' at h
  induction h with
  | start => cases ht
  | commit hr hs ih =>
    cases ht
    exact ⟨hr, hs, rfl⟩
  | rollback hr hs ih => exact ih ht

theorem Reachable.invariant {M : Machine σ ι ο} {P : σ → Prop} (h : M.Reachable s₀ s)
    (h₀ : P s₀) (hs : ∀ {s i s' o}, P s → M.step s i = some (s', o) → P s') : P s := by
  obtain ⟨t, hr⟩ := h
  exact hr.invariant (P := fun _ => P) h₀ fun hp he => hs hp he

/-- The calls of a history, latest first, deal with the items of a list one after the other. -/
def InTurn (C : α → Event σ ι ο → Prop) : List α → List (Event σ ι ο) → Prop
  | [], t => t = []
  | a :: as, t => ∃ later earlier, t = later ++ earlier ∧ (∀ e ∈ earlier, C a e) ∧
      InTurn C as later

/-- Tasks on different items, each of which a sound state lets be done on its item alone, can be
done in any order. -/
theorem Run.each [DecidableEq α] {M : Machine σ ι ο} {I : σ → Prop} {P : σ → α → Prop}
    {Q : α → Prop} {C : α → Event σ ι ο → Prop} {view : σ → α → β} {goal : β → β}
    (hs : ∀ {s a}, I s → P s a → ∃ t s', M.Run s t s' ∧ I s' ∧ (∀ e ∈ t, C a e) ∧
      (∀ b, b ≠ a → P s b → P s' b) ∧
      ∀ b, Q b → view s' b = if b = a then goal (view s b) else view s b)
    (h : I s) (as : List α) (hd : as.Nodup) (hP : ∀ a ∈ as, P s a) :
    ∃ t s', M.Run s t s' ∧ I s' ∧ InTurn C as t ∧
      ∀ b, Q b → view s' b = if b ∈ as then goal (view s b) else view s b := by
  induction as generalizing s with
  | nil => exact ⟨[], s, .start, h, rfl, fun _ _ => rfl⟩
  | cons a as ih =>
    obtain ⟨hna, hd⟩ := List.nodup_cons.mp hd
    obtain ⟨t₁, s₁, hr₁, h₁, hc₁, hp₁, hv₁⟩ := hs h (hP a List.mem_cons_self)
    have hrest : ∀ b ∈ as, P s₁ b := fun b hb =>
      hp₁ b (fun he => hna (he ▸ hb)) (hP b (List.mem_cons_of_mem _ hb))
    obtain ⟨t₂, s₂, hr₂, h₂, hc₂, hv₂⟩ := ih h₁ hd hrest
    refine ⟨t₂ ++ t₁, s₂, hr₁.append hr₂, h₂, ⟨t₂, t₁, rfl, hc₁, hc₂⟩, fun b hb => ?_⟩
    rw [hv₂ b hb, hv₁ b hb]
    by_cases hba : b = a
    · subst hba
      rw [if_neg hna, if_pos rfl, if_pos List.mem_cons_self]
    · rw [if_neg hba]
      exact if_congr (List.mem_cons.trans (or_iff_right hba)).symm rfl rfl

end Machine

end Lib
