import Mathlib.Data.List.Basic

namespace Lib
set_option autoImplicit true

section
variable (opens : ε → Option π) (closes : ε → Bool)

/-- The session still open at the end of a history, latest event first: what opened it, and the
events since. -/
def openSession : List ε → Option (π × List ε)
  | [] => none
  | e :: t =>
    match opens e with
    | some p => some (p, [])
    | none => if closes e then none else (openSession t).map fun r => (r.1, e :: r.2)

variable {opens closes}

theorem openSession_of_opens (h : opens e = some p) (t : List ε) :
    openSession opens closes (e :: t) = some (p, []) := by
  simp only [openSession, h]

theorem openSession_of_closes (ho : opens e = none) (hc : closes e = true) (t : List ε) :
    openSession opens closes (e :: t) = none := by
  simp only [openSession, ho, hc, if_true]

theorem openSession_of_neither (ho : opens e = none) (hc : closes e = false) (t : List ε) :
    openSession opens closes (e :: t) =
      (openSession opens closes t).map fun r => (r.1, e :: r.2) := by
  simp only [openSession, ho, hc, Bool.false_eq_true, if_false]

/-- An open session was opened by an event of the history, and nothing has closed it since. -/
theorem openSession_split (h : openSession opens closes t = some (p, since)) :
    ∃ q before, t = since ++ q :: before ∧ opens q = some p ∧
      ∀ e ∈ since, opens e = none ∧ closes e = false := by
  induction t generalizing since with
  | nil => cases h
  | cons e t ih =>
    cases ho : opens e with
    | some p' =>
      rw [openSession_of_opens ho] at h
      cases h
      exact ⟨e, t, rfl, ho, fun _ he => absurd he List.not_mem_nil⟩
    | none =>
      cases hc : closes e with
      | true =>
        rw [openSession_of_closes ho hc] at h
        cases h
      | false =>
        rw [openSession_of_neither ho hc] at h
        obtain ⟨⟨p', since'⟩, hs, he⟩ := Option.map_eq_some_iff.mp h
        cases he
        obtain ⟨q, before, rfl, hq, hs⟩ := ih hs
        refine ⟨q, before, rfl, hq, fun e' he => ?_⟩
        rcases List.mem_cons.mp he with rfl | he
        · exact ⟨ho, hc⟩
        · exact hs e' he

theorem openSession_closed (hn : ∀ e ∈ mid, opens e = none) (h : ∃ e ∈ mid, closes e = true)
    (t : List ε) : openSession opens closes (mid ++ t) = none := by
  induction mid with
  | nil =>
    obtain ⟨e, he, _⟩ := h
    cases he
  | cons e mid ih =>
    have ho := hn e List.mem_cons_self
    cases hc : closes e with
    | true => exact openSession_of_closes ho hc _
    | false =>
      rw [List.cons_append, openSession_of_neither ho hc, Option.map_eq_none_iff]
      apply ih fun e he => hn e (List.mem_cons_of_mem _ he)
      obtain ⟨e', he, hc'⟩ := h
      rcases List.mem_cons.mp he with rfl | he
      · exact absurd hc' (by simp [hc])
      · exact ⟨e', he, hc'⟩

/-- If only open sessions are closed, each is closed at most once. -/
theorem countP_closes_le_one
    (h : ∀ later e earlier, t = later ++ e :: earlier → closes e = true →
      openSession opens closes earlier ≠ none)
    (ht : t = later ++ (mid ++ before)) (hn : ∀ e ∈ mid, opens e = none) :
    mid.countP closes ≤ 1 := by
  induction mid generalizing later with
  | nil => simp
  | cons e mid ih =>
    have hn' : ∀ e ∈ mid, opens e = none := fun e he => hn e (List.mem_cons_of_mem _ he)
    cases hc : closes e with
    | true =>
      have ho := h later e (mid ++ before) ht hc
      have hz : mid.countP closes = 0 := by
        rw [List.countP_eq_zero]
        intro e' he hc'
        exact ho (openSession_closed hn' ⟨e', he, hc'⟩ before)
      rw [List.countP_cons_of_pos hc]
      omega
    | false =>
      rw [List.countP_cons_of_neg (by simp [hc])]
      exact @ih (later ++ [e]) (by rw [ht, List.append_assoc]; rfl) hn'

end

end Lib
