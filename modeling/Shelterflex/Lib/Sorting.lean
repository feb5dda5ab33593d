import Mathlib.Data.List.Sort

/-! Sorting by insertion from the back, and by selection of the least values of a list whose used
positions are marked, where the search for the least starts from a bound. -/

namespace Lib
set_option autoImplicit true

section
variable [LinearOrder κ] (key : α → κ)

/-- A permutation in ascending order, with the entries of one key in the order they had. -/
structure StableSort (l sorted : List α) : Prop where
  perm : sorted.Perm l
  ascending : sorted.Pairwise (key · ≤ key ·)
  stable : ∀ k, sorted.filter (key · = k) = l.filter (key · = k)

/-- Whether an entry stays in front of another when the list is read from its end. -/
def Late (a b : α) : Prop := key b ≤ key a

instance : DecidableRel (Late key) := fun a b => inferInstanceAs (Decidable (key b ≤ key a))

instance : Std.Total (Late key) := ⟨fun a b => le_total (key b) (key a)⟩

instance : IsTrans α (Late key) := ⟨fun _ _ _ hab hbc => le_trans hbc hab⟩

/-- An entry put in behind the last one that does not exceed it. -/
def insertBack (l : List α) (x : α) : List α := (l.reverse.orderedInsert (Late key) x).reverse

/-- The entries of a list put in one after the other, first to last. -/
def sortBack (l : List α) : List α := (l.reverse.insertionSort (Late key)).reverse

theorem sortBack_concat (l : List α) (x : α) :
    sortBack key (l ++ [x]) = insertBack key (sortBack key l) x := by
  rw [sortBack, insertBack, sortBack, List.reverse_append, List.reverse_reverse]
  rfl

variable {key}

theorem insertBack_concat_of_lt (h : key x < key a) (l : List α) :
    insertBack key (l ++ [a]) x = insertBack key l x ++ [a] := by
  have hlate : ¬ Late key x a := not_le.mpr h
  rw [insertBack, insertBack, List.reverse_append, List.reverse_singleton, List.singleton_append,
    List.orderedInsert_of_not_le _ _ hlate, List.reverse_cons]

theorem insertBack_concat_of_le (h : key a ≤ key x) (l : List α) :
    insertBack key (l ++ [a]) x = l ++ [a] ++ [x] := by
  have hlate : Late key x a := h
  rw [insertBack, List.reverse_append, List.reverse_singleton, List.singleton_append,
    List.orderedInsert_cons_of_le _ _ hlate, List.reverse_cons, List.reverse_cons,
    List.reverse_reverse]

theorem perm_sortBack (l : List α) : (sortBack key l).Perm l :=
  (List.reverse_perm _).trans ((List.perm_insertionSort _ _).trans (List.reverse_perm l))

theorem length_sortBack (l : List α) : (sortBack key l).length = l.length :=
  (perm_sortBack l).length_eq

/-- The entries of one key are kept in their order. -/
theorem filter_sortBack (l : List α) (k : κ) :
    (sortBack key l).filter (key · = k) = l.filter (key · = k) := by
  have hlate : (l.filter (key · = k)).reverse.Pairwise (Late key) := by
    rw [List.pairwise_reverse]
    apply List.pairwise_of_forall_mem_list
    intro a ha b hb
    have ha := of_decide_eq_true (List.mem_filter.mp ha).2
    have hb := of_decide_eq_true (List.mem_filter.mp hb).2
    exact (ha.trans hb.symm).le
  have hsub := List.sublist_insertionSort hlate List.filter_sublist.reverse
  have hkeep := hsub.reverse.filter (key · = k)
  rw [List.reverse_reverse, List.filter_filter] at hkeep
  simp only [Bool.and_self] at hkeep
  exact (hkeep.eq_of_length ((perm_sortBack l).filter _).length_eq.symm).symm

theorem stableSort_sortBack (l : List α) : StableSort key l (sortBack key l) where
  perm := perm_sortBack l
  ascending := List.pairwise_reverse.mpr (List.pairwise_insertionSort (Late key) _)
  stable := filter_sortBack l

end

/-! ## Selection -/

/-- The values at the positions that are not marked. -/
def unused : List α → List Bool → List α
  | v :: vs, u :: us => if u then unused vs us else v :: unused vs us
  | _, _ => []

theorem unused_replicate (l : List α) : unused l (.replicate l.length false) = l := by
  induction l with
  | nil => rfl
  | cons v l ih => exact congrArg (v :: ·) ih

theorem mem_unused {l : List α} {used : List Bool} :
    v ∈ unused l used ↔ ∃ i : Nat, l[i]? = some v ∧ used[i]? = some false := by
  induction l generalizing used with
  | nil => exact iff_of_false nofun fun ⟨_, h, _⟩ => nomatch h
  | cons w l ih =>
    cases used with
    | nil => exact iff_of_false nofun fun ⟨_, _, h⟩ => nomatch h
    | cons u used =>
      rw [← Nat.or_exists_add_one]
      simp only [List.getElem?_cons_zero, List.getElem?_cons_succ, Option.some.injEq, ← ih]
      cases u <;> simp [unused, eq_comm]

theorem unused_set {l : List α} {used : List Bool} (hv : l[i]? = some v)
    (hu : used[i]? = some false) : (unused l used).Perm (v :: unused l (used.set i true)) := by
  induction l generalizing used i with
  | nil => cases hv
  | cons w l ih =>
    cases used with
    | nil => cases hu
    | cons u used =>
      cases i with
      | zero =>
        cases hv
        cases hu
        exact .refl _
      | succ i =>
        have hperm := ih hv hu
        cases u with
        | true => exact hperm
        | false => exact (hperm.cons w).trans (.swap v w _)

theorem unused_set_subset {l : List α} {used : List Bool} :
    unused l (used.set i true) ⊆ unused l used := by
  intro v hv
  obtain ⟨j, hj, hu⟩ := mem_unused.mp hv
  rw [List.getElem?_set] at hu
  refine mem_unused.mpr ⟨j, hj, ?_⟩
  split at hu
  · split at hu <;> cases hu
  · exact hu

section
variable [LinearOrder α]

/-- Two lists have the same values below a bound. -/
def SameBelow (top : α) (l l' : List α) : Prop :=
  (l.filter (· < top)).Perm (l'.filter (· < top))

/-- The least value below the bound is the first of a sorted list. -/
theorem SameBelow.least {top : α} {d : α} {D U U' : List α} (h : SameBelow top (d :: D) U)
    (hs : (d :: D).Pairwise (· ≤ ·)) (hm : m < top) (hU : U.Perm (m :: U'))
    (hle : ∀ v ∈ U, m ≤ v) : d = m ∧ SameBelow top D U' := by
  have hmU : m ∈ U.filter (· < top) :=
    List.mem_filter.mpr ⟨hU.mem_iff.mpr List.mem_cons_self, decide_eq_true hm⟩
  have hmD := (List.mem_filter.mp (h.mem_iff.mpr hmU)).1
  have hdm : d ≤ m := by
    rcases List.mem_cons.mp hmD with rfl | hmD
    · exact le_rfl
    · exact (List.pairwise_cons.mp hs).1 m hmD
  have hdtop : d < top := hdm.trans_lt hm
  have hdU : d ∈ U := (List.mem_filter.mp (h.mem_iff.mp
    (List.mem_filter.mpr ⟨List.mem_cons_self, decide_eq_true hdtop⟩))).1
  obtain rfl : d = m := le_antisymm hdm (hle d hdU)
  refine ⟨rfl, ?_⟩
  have hfilter := List.Perm.trans h (hU.filter _)
  simp only [List.filter_cons, hdtop, decide_true, if_true] at hfilter
  exact hfilter.cons_inv

theorem SameBelow.exhausted {top : α} {d : α} {D U U' : List α} (h : SameBelow top (d :: D) U)
    (hd : d ≤ top) (hU : ∀ v ∈ U, top ≤ v) (hsub : U' ⊆ U) : d = top ∧ SameBelow top D U' := by
  have hnone {l : List α} (hl : l ⊆ U) : l.filter (· < top) = [] := by
    rw [List.filter_eq_nil_iff]
    exact fun v hv => by simpa using hU v (hl hv)
  rw [SameBelow, hnone (List.Subset.refl U)] at h
  have hnil := List.filter_eq_nil_iff.mp h.eq_nil
  constructor
  · exact le_antisymm hd (by simpa using hnil d List.mem_cons_self)
  · rw [SameBelow, hnone hsub]
    have hD : D.filter (· < top) = [] :=
      List.filter_eq_nil_iff.mpr fun v hv => hnil v (List.mem_cons_of_mem d hv)
    rw [hD]

end

end Lib
