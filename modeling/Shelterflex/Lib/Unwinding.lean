import Mathlib.Data.List.Basic

namespace Lib
set_option autoImplicit true

section
variable (step : σ → ι → σ × ρ)

/-- The state after a list of calls. -/
def after (s : σ) (is : List ι) : σ := is.foldl (fun s i => (step s i).1) s

/-- The calls with their results, in order. -/
def results : σ → List ι → List (ι × ρ)
  | _, [] => []
  | s, i :: is => (i, (step s i).2) :: results (step s i).1 is

/-- The part of the results that an observer sees. -/
def observed (sees : ι → Bool) (s : σ) (is : List ι) : List (ι × ρ) :=
  (results step s is).filter fun r => sees r.1

/-- Hidden calls leave the states related, and related states give the observer the same results. -/
structure Unwinding (hidden sees : ι → Bool) (C : ι → Prop) (R : σ → σ → Prop) : Prop where
  unseen : hidden i = true → sees i = false
  hides : hidden i = true → C i → R s s' → R (step s i).1 s'
  respects : hidden i = false → R s s' → R (step s i).1 (step s' i).1
  agrees : sees i = true → R s s' → (step s i).2 = (step s' i).2

end

section
variable {step : σ → ι → σ × ρ} {hidden sees : ι → Bool} {C : ι → Prop} {R : σ → σ → Prop}

theorem observed_append (s : σ) (is is' : List ι) :
    observed step sees s (is ++ is') =
      observed step sees s is ++ observed step sees (after step s is) is' := by
  induction is generalizing s with
  | nil => rfl
  | cons i is ih =>
    have htail := ih (step s i).1
    simp only [observed, List.cons_append, results, List.filter_cons] at htail ⊢
    split
    · rw [htail]
      rfl
    · exact htail

theorem observed_cons_of_sees (h : sees i = true) (s : σ) (is : List ι) :
    observed step sees s (i :: is) = (i, (step s i).2) :: observed step sees (step s i).1 is :=
  List.filter_cons_of_pos h

theorem observed_cons_of_not (h : sees i = false) (s : σ) (is : List ι) :
    observed step sees s (i :: is) = observed step sees (step s i).1 is :=
  List.filter_cons_of_neg (by simp [h])

/-- The observer sees the same without the hidden calls. -/
theorem Unwinding.purge (h : Unwinding step hidden sees C R)
    (hC : ∀ i ∈ is, hidden i = true → C i) (hR : R s s') :
    observed step sees s is = observed step sees s' (is.filter fun i => !hidden i) := by
  induction is generalizing s s' with
  | nil => rfl
  | cons i is ih =>
    obtain ⟨hi, hC⟩ := List.forall_mem_cons.mp hC
    cases hh : hidden i with
    | true =>
      rw [List.filter_cons_of_neg (by simp [hh]), observed_cons_of_not (h.unseen hh)]
      exact ih hC (h.hides hh (hi hh) hR)
    | false =>
      have htail := ih hC (h.respects hh hR)
      rw [List.filter_cons_of_pos (by simp [hh])]
      cases hs : sees i with
      | true => rw [observed_cons_of_sees hs, observed_cons_of_sees hs, h.agrees hs hR, htail]
      | false => rw [observed_cons_of_not hs, observed_cons_of_not hs, htail]

theorem Unwinding.same (h : Unwinding step hidden sees C R) (hR : R s s)
    (hC : ∀ i ∈ is, hidden i = true → C i) (hC' : ∀ i ∈ is', hidden i = true → C i)
    (he : is.filter (fun i => !hidden i) = is'.filter fun i => !hidden i) :
    observed step sees s is = observed step sees s is' := by
  rw [h.purge hC hR, h.purge hC' hR, he]

end

end Lib
