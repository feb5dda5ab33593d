import Mathlib.Algebra.BigOperators.Finprod
import Mathlib.Data.Set.Finite.Lattice
import Mathlib.Algebra.Order.BigOperators.Group.Finset
import Mathlib.Algebra.BigOperators.Ring.Finset

namespace Lib
set_option autoImplicit true

/-- A key-value store with finitely many entries. -/
structure Store (κ ν : Type) where
  get : κ → Option ν
  finite : {k | get k ≠ none}.Finite

namespace Store

def empty : Store κ ν := ⟨fun _ => none, by simp⟩

instance : Inhabited (Store κ ν) := ⟨empty⟩

theorem ext {m m' : Store κ ν} (h : ∀ k, m.get k = m'.get k) : m = m' := by
  cases m
  cases m'
  congr
  exact funext h

@[simp] theorem get_empty (k : κ) : (empty : Store κ ν).get k = none := rfl

def getD (m : Store κ ν) (k : κ) (d : ν) : ν := (m.get k).getD d

@[simp] theorem getD_empty (k : κ) (d : ν) : (empty : Store κ ν).getD k d = d := rfl

def has (m : Store κ ν) (k : κ) : Bool := (m.get k).isSome

section
variable [DecidableEq κ]

def set (m : Store κ ν) (k : κ) (v : ν) : Store κ ν where
  get k' := if k' = k then some v else m.get k'
  finite := by
    apply (m.finite.insert k).subset
    intro k' hk'
    by_cases he : k' = k
    · exact .inl he
    · exact .inr (by simpa [he] using hk')

def remove (m : Store κ ν) (k : κ) : Store κ ν where
  get k' := if k' = k then none else m.get k'
  finite := by
    apply m.finite.subset
    intro k' hk'
    by_cases he : k' = k
    · simp [he] at hk'
    · simpa [he] using hk'

theorem get_set (m : Store κ ν) (k k' : κ) (v : ν) :
    (m.set k v).get k' = if k' = k then some v else m.get k' := rfl

theorem get_remove (m : Store κ ν) (k k' : κ) :
    (m.remove k).get k' = if k' = k then none else m.get k' := rfl

@[simp] theorem get_set_self (m : Store κ ν) (k : κ) (v : ν) : (m.set k v).get k = some v := by
  simp [get_set]

@[simp] theorem get_remove_self (m : Store κ ν) (k : κ) : (m.remove k).get k = none := by
  simp [get_remove]

theorem get_set_of_ne (m : Store κ ν) (v : ν) (h : k' ≠ k) : (m.set k v).get k' = m.get k' := by
  simp [get_set, h]

theorem get_remove_of_ne (m : Store κ ν) (h : k' ≠ k) : (m.remove k).get k' = m.get k' := by
  simp [get_remove, h]

theorem getD_set (m : Store κ ν) (k k' : κ) (v d : ν) :
    (m.set k v).getD k' d = if k' = k then v else m.getD k' d := by
  simp only [getD, get_set]
  split <;> rfl

@[simp] theorem getD_set_self (m : Store κ ν) (k : κ) (v d : ν) : (m.set k v).getD k d = v := by
  simp [getD_set]

theorem getD_set_of_ne (m : Store κ ν) (v d : ν) (h : k' ≠ k) :
    (m.set k v).getD k' d = m.getD k' d := by
  simp [getD_set, h]

theorem getD_set_update (m : Store κ ν) (k : κ) (v d : ν) :
    ((m.set k v).getD · d) = Function.update (m.getD · d) k v := by
  funext k'
  rw [getD_set, Function.update_apply]

theorem get_set_update (m : Store κ ν) (k : κ) (v : ν) :
    (m.set k v).get = Function.update m.get k (some v) := by
  funext k'
  rw [get_set, Function.update_apply]

theorem has_set_of_ne (m : Store κ ν) (v : ν) (h : k' ≠ k) : (m.set k v).has k' = m.has k' := by
  rw [has, has, get_set_of_ne m v h]

theorem has_set_update (m : Store κ ν) (k : κ) (v : ν) :
    (m.set k v).has = Function.update m.has k true := by
  funext k'
  simp only [has, get_set, Function.update_apply]
  split <;> rfl

theorem has_remove_update (m : Store κ ν) (k : κ) :
    (m.remove k).has = Function.update m.has k false := by
  funext k'
  simp only [has, get_remove, Function.update_apply]
  split <;> rfl

theorem getD_remove (m : Store κ ν) (k k' : κ) (d : ν) :
    (m.remove k).getD k' d = if k' = k then d else m.getD k' d := by
  simp only [getD, get_remove]
  split <;> rfl

theorem getD_remove_update (m : Store κ ν) (k : κ) (d : ν) :
    ((m.remove k).getD · d) = Function.update (m.getD · d) k d := by
  funext k'
  rw [getD_remove, Function.update_apply]

/-- Write the values of a function at the keys of a list. -/
def setAll (m : Store κ ν) (f : κ → ν) (ks : List κ) : Store κ ν :=
  ks.foldl (fun m k => m.set k (f k)) m

theorem get_setAll (m : Store κ ν) (f : κ → ν) (ks : List κ) (k : κ) :
    (m.setAll f ks).get k = if k ∈ ks then some (f k) else m.get k := by
  induction ks generalizing m with
  | nil => exact (if_neg List.not_mem_nil).symm
  | cons k' ks ih =>
    rw [setAll, List.foldl_cons]
    refine (ih (m.set k' (f k'))).trans ?_
    rw [get_set]
    by_cases hm : k ∈ ks
    · rw [if_pos hm, if_pos (List.mem_cons_of_mem _ hm)]
    · rw [if_neg hm]
      by_cases he : k = k'
      · rw [if_pos he, he, if_pos List.mem_cons_self]
      · rw [if_neg he, if_neg fun h => (List.mem_cons.mp h).elim he hm]

end

theorem support_finite [Zero β] (m : Store κ ν) {f : κ → β} (h : ∀ k, m.get k = none → f k = 0) :
    f.support.Finite := by
  apply m.finite.subset
  intro k hk hn
  exact hk (h k hn)

end Store

section
variable {f g : κ → ℤ}

/-- Changing one summand changes a finite sum by the difference. -/
theorem finsum_change (hf : f.support.Finite) (k : κ) (h : ∀ i, i ≠ k → g i = f i) :
    ∑ᶠ i, g i = ∑ᶠ i, f i - f k + g k := by
  classical
  let S := insert k hf.toFinset
  have hk : k ∈ S := Finset.mem_insert_self _ _
  have hS : f.support ⊆ S := by
    intro i hi
    exact Finset.mem_insert_of_mem (hf.mem_toFinset.mpr hi)
  have hS' : g.support ⊆ S := by
    intro i hi
    by_cases he : i = k
    · exact he ▸ hk
    · apply hS
      simpa [h i he] using hi
  rw [finsum_eq_sum_of_support_subset _ hS, finsum_eq_sum_of_support_subset _ hS',
    ← Finset.add_sum_erase S f hk, ← Finset.add_sum_erase S g hk]
  have he : ∑ i ∈ S.erase k, g i = ∑ i ∈ S.erase k, f i :=
    Finset.sum_congr rfl fun i hi => h i (Finset.ne_of_mem_erase hi)
  omega

theorem finsum_eq_list_sum [DecidableEq κ] {l : List κ} (hl : l.Nodup)
    (h : ∀ k, k ∉ l → f k = 0) : ∑ᶠ k, f k = (l.map f).sum := by
  rw [← List.sum_toFinset f hl]
  apply finsum_eq_sum_of_support_subset
  intro k hk
  rw [List.coe_toFinset]
  by_contra hn
  exact hk (h k hn)

theorem change_support_finite (hf : f.support.Finite) (k : κ) (h : ∀ i, i ≠ k → g i = f i) :
    g.support.Finite := by
  apply (hf.insert k).subset
  intro i hi
  by_cases he : i = k
  · exact .inl he
  · exact .inr (by simpa [h i he] using hi)

theorem le_finsum (hf : f.support.Finite) (hn : ∀ i, 0 ≤ f i) (k : κ) : f k ≤ ∑ᶠ i, f i := by
  classical
  have h := finsum_change hf k (g := Function.update f k 0) fun i hi => Function.update_of_ne hi 0 f
  have h' : 0 ≤ ∑ᶠ i, Function.update f k 0 i := by
    apply finsum_nonneg
    intro i
    by_cases he : i = k
    · simp [he]
    · simpa [Function.update_of_ne he] using hn i
  simp only [Function.update_self] at h
  omega

theorem list_sum_le_finsum [DecidableEq κ] (hf : f.support.Finite) (hn : ∀ i, 0 ≤ f i) {l : List κ}
    (hl : l.Nodup) : (l.map f).sum ≤ ∑ᶠ i, f i := by
  have hS : f.support ⊆ ↑(l.toFinset ∪ hf.toFinset) := by
    intro i hi
    exact Finset.mem_union_right _ (hf.mem_toFinset.mpr hi)
  rw [finsum_eq_sum_of_support_subset _ hS, ← List.sum_toFinset f hl]
  exact Finset.sum_le_sum_of_subset_of_nonneg Finset.subset_union_left fun i _ _ => hn i

end

end Lib
