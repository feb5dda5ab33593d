import Mathlib.Data.List.AList
import Mathlib.Data.List.Nodup
import Mathlib.Data.Set.Card

namespace Lib
set_option autoImplicit true

/-- A finite map that keeps its entries in a list. -/
abbrev Table (κ ν : Type) := AList fun _ : κ => ν

namespace Table
variable [DecidableEq κ]

def get (m : Table κ ν) (k : κ) : Option ν := m.lookup k

theorem get_insert (m : Table κ ν) (k : κ) (v : ν) :
    get (m.insert k v) = Function.update m.get k (some v) := by
  funext k'
  by_cases hk : k' = k
  · subst hk
    rw [Function.update_self]
    exact AList.lookup_insert m
  · rw [Function.update_of_ne hk]
    exact AList.lookup_insert_ne hk

theorem get_erase (m : Table κ ν) (k : κ) :
    get (m.erase k) = Function.update m.get k none := by
  funext k'
  by_cases hk : k' = k
  · subst hk
    rw [Function.update_self]
    exact AList.lookup_erase k' m
  · rw [Function.update_of_ne hk]
    exact AList.lookup_erase_ne hk

/-- The number of entries with a property. -/
def count (m : Table κ ν) (p : ν → Bool) : Nat := (m.entries.filter fun e => p e.2).length

theorem mem_filter {m : Table κ ν} {p : ν → Bool} :
    ⟨k, v⟩ ∈ m.entries.filter (fun e => p e.2) ↔ m.get k = some v ∧ p v = true := by
  rw [List.mem_filter]
  exact and_congr_left fun _ => AList.mem_lookup_iff.symm

theorem count_eq_ncard (m : Table κ ν) (p : ν → Bool) :
    m.count p = {k | ∃ v, m.get k = some v ∧ p v = true}.ncard := by
  have hnodup : ((m.entries.filter fun e => p e.2).map Sigma.fst).Nodup :=
    (List.filter_sublist.map Sigma.fst).nodup m.nodupKeys
  have hset : {k | ∃ v, m.get k = some v ∧ p v = true} =
      ((m.entries.filter fun e => p e.2).map Sigma.fst).toFinset := by
    ext k
    simp only [Set.mem_ofPred_eq, Finset.mem_coe, List.mem_toFinset, List.mem_map, ← mem_filter]
    constructor
    · exact fun ⟨v, hv⟩ => ⟨⟨k, v⟩, hv, rfl⟩
    · rintro ⟨⟨_, v⟩, hv, rfl⟩
      exact ⟨v, hv⟩
  rw [hset, Set.ncard_coe_finset, List.toFinset_card_of_nodup hnodup, List.length_map, count]

/-- At most one entry is counted when it is the only one with the property, and only then. -/
theorem count_le_one {m : Table κ ν} {p : ν → Bool} (hk : m.get k = some v) (hv : p v = true) :
    m.count p ≤ 1 ↔ ∀ k' v', m.get k' = some v' → p v' = true → k' = k := by
  have hmem := mem_filter.mpr ⟨hk, hv⟩
  have hnodup : (m.entries.filter fun e => p e.2).Nodup := m.nodupKeys.nodup.filter _
  constructor
  · intro hle k' v' hk' hv'
    have hmem' := mem_filter.mpr ⟨hk', hv'⟩
    obtain ⟨e, he⟩ := List.length_eq_one_iff.mp
      (Nat.le_antisymm hle (List.length_pos_of_mem hmem))
    rw [he, List.mem_singleton] at hmem hmem'
    exact congrArg Sigma.fst (hmem'.trans hmem.symm)
  · intro h
    have hsub : m.entries.filter (fun e => p e.2) ⊆ [⟨k, v⟩] := by
      rintro ⟨k', v'⟩ he
      obtain ⟨hk', hv'⟩ := mem_filter.mp he
      obtain rfl := h k' v' hk' hv'
      cases hk.symm.trans hk'
      exact List.mem_singleton_self _
    exact hnodup.length_le_of_subset hsub

end Table

end Lib
