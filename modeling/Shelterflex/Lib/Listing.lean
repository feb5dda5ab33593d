import Mathlib.Algebra.Ring.Nat
import Mathlib.Data.List.Basic
import Shelterflex.Lib.Store

/-! Lists that index the entries of a store, and reading them page by page. -/

namespace Lib
set_option autoImplicit true

theorem nodup_map_concat {f : α → β} {l : List α} (h : (l.map f).Nodup)
    (hn : ∀ b ∈ l, f b ≠ f a) : ((l ++ [a]).map f).Nodup := by
  rw [List.map_append, List.nodup_append]
  refine ⟨h, List.nodup_singleton _, ?_⟩
  intro c hc d hd
  obtain ⟨b, hb, rfl⟩ := List.mem_map.mp hc
  rw [List.mem_singleton.mp hd]
  exact hn b hb

theorem getElem?_concat (l : List α) (a : α) (n : Nat) :
    (l ++ [a])[n]? = if n = l.length then some a else l[n]? := by
  split
  · rename_i he
    rw [he, List.getElem?_concat_length]
  · rename_i hn
    rcases Nat.lt_or_ge n l.length with hlt | hge
    · rw [List.getElem?_append_left hlt]
    · rw [List.getElem?_eq_none hge, List.getElem?_eq_none]
      rw [List.length_append, List.length_singleton]
      omega

/-- A numbered index with a count for each key holds a list for each key, without a hole. -/
def Lists (index : Store (κ × Nat) ν) (count : Store κ Nat) (l : κ → List ν) : Prop :=
  ∀ k, count.getD k 0 = (l k).length ∧ ∀ n, index.get (k, n) = (l k)[n]?

theorem Lists.empty : Lists (κ := κ) (ν := ν) .empty .empty fun _ => [] :=
  fun _ => ⟨rfl, fun _ => rfl⟩

section
variable [DecidableEq κ] {index : Store (κ × Nat) ν} {count : Store κ Nat} {l : κ → List ν}

/-- Writing at the count and raising it appends to the list of the key. -/
theorem Lists.push (h : Lists index count l) (k : κ) (v : ν) :
    Lists (index.set (k, count.getD k 0) v) (count.set k (count.getD k 0 + 1))
      (Function.update l k (l k ++ [v])) := by
  intro k'
  obtain ⟨hc, hi⟩ := h k'
  by_cases hk : k' = k
  · subst hk
    rw [Function.update_self, Store.getD_set_self, List.length_append, List.length_singleton, hc]
    refine ⟨rfl, fun n => ?_⟩
    rw [Store.get_set, getElem?_concat]
    by_cases hn : n = (l k').length
    · rw [hn, if_pos rfl, if_pos rfl]
    · rw [if_neg fun he => hn (Prod.mk.inj he).2, if_neg hn, hi]
  · rw [Function.update_of_ne hk, Store.getD_set_of_ne _ _ _ hk]
    refine ⟨hc, fun n => ?_⟩
    rw [Store.get_set_of_ne _ _ fun he => hk (Prod.mk.inj he).1, hi]

end

/-- The values of a list under their numbers, counted from one. -/
structure Numbered (m : Store Nat ν) (l : List ν) : Prop where
  zero : m.get 0 = none
  succ : ∀ n, m.get (n + 1) = l[n]?

theorem Numbered.empty : Numbered (ν := ν) .empty [] := ⟨rfl, fun _ => rfl⟩

theorem Numbered.push {m : Store Nat ν} (h : Numbered m l) (v : ν) :
    Numbered (m.set (l.length + 1) v) (l ++ [v]) := by
  constructor
  · rw [Store.get_set_of_ne _ _ (Nat.zero_ne_add_one _), h.zero]
  · intro n
    rw [Store.get_set, getElem?_concat, h.succ]
    simp only [Nat.add_right_cancel_iff]

/-! ## Pages -/

theorem filterMap_range' (l : List α) (start n : Nat) :
    (List.range' start n).filterMap (l[·]?) = (l.drop start).take n := by
  induction n generalizing start with
  | zero => rfl
  | succ n ih =>
    rw [List.range'_succ]
    cases hs : l[start]? with
    | none =>
      have hle := List.getElem?_eq_none_iff.mp hs
      rw [List.filterMap_cons_none hs, ih, List.drop_eq_nil_of_le hle,
        List.drop_eq_nil_of_le (Nat.le_succ_of_le hle), List.take_nil, List.take_nil]
    | some a =>
      obtain ⟨hlt, rfl⟩ := List.getElem?_eq_some_iff.mp hs
      rw [List.filterMap_cons_some hs, ih, List.drop_eq_getElem_cons hlt, List.take_succ_cons]

theorem map_range' {l : List α} (h : start + n ≤ l.length) :
    (List.range' start n).map (l[·]?) = ((l.drop start).take n).map some := by
  induction n generalizing start with
  | zero => rfl
  | succ n ih =>
    have hlt : start < l.length := by omega
    rw [List.range'_succ, List.map_cons, ih (by omega), List.drop_eq_getElem_cons hlt,
      List.take_succ_cons, List.map_cons, List.getElem?_eq_getElem hlt]

/-! A reader that asks for one page after the other, each from behind what it has read. -/

section
variable (pageAt : Nat → Nat → Except ε (List α))

def readPages : List Nat → List α → Except ε (List α)
  | [], read => .ok read
  | limit :: limits, read => do
    let page ← pageAt read.length limit
    readPages limits (read ++ page)

/-- The end of each page is below a bound, where the reading of a list of `count` values is at
`n`. -/
def PagesFit (bound count : Nat) : Nat → List Nat → Prop
  | _, [] => True
  | n, limit :: limits => n + limit < bound ∧ PagesFit bound count (min (n + limit) count) limits

instance decidablePagesFit (bound count : Nat) :
    (n : Nat) → (limits : List Nat) → Decidable (PagesFit bound count n limits)
  | _, [] => .isTrue trivial
  | n, limit :: limits =>
    have := decidablePagesFit bound count (min (n + limit) count) limits
    inferInstanceAs (Decidable (_ ∧ _))

variable {pageAt}

/-- Where pages that end below a bound are windows of a list, and others fail, the reader gets as
much of the list as it asked for. -/
theorem readPages_ok {l : List α}
    (hpage : ∀ n limit page, pageAt n limit = .ok page ↔
      n + limit < bound ∧ page = (l.drop n).take limit) (hn : n ≤ l.length) (limits : List Nat)
    (all : List α) :
    readPages pageAt limits (l.take n) = .ok all ↔
      PagesFit bound l.length n limits ∧ l.take (n + limits.sum) = all := by
  induction limits generalizing n with
  | nil =>
    rw [readPages, Except.ok.injEq]
    exact (and_iff_right trivial).symm
  | cons limit limits ih =>
    have hnext : l.take n ++ (l.drop n).take limit = l.take (min (n + limit) l.length) := by
      rw [← List.take_add, ← List.take_take, List.take_length]
    rw [readPages, PagesFit, List.length_take_of_le hn, List.sum_cons]
    cases hp : pageAt n limit with
    | error e =>
      refine iff_of_false (fun h => ?_) (fun h => ?_)
      · cases h
      · cases hp.symm.trans ((hpage n limit _).mpr ⟨h.1.1, rfl⟩)
    | ok page =>
      obtain ⟨hfit, rfl⟩ := (hpage n limit _).mp hp
      change readPages pageAt limits (l.take n ++ (l.drop n).take limit) = _ ↔ _
      rw [hnext, ih (Nat.min_le_right _ _)]
      have htake : l.take (min (n + limit) l.length + limits.sum) =
          l.take (n + (limit + limits.sum)) := by
        rw [List.take_eq_take_iff]
        omega
      rw [htake, and_assoc, and_iff_right hfit]

end

section
variable {R : α → α → Prop} (hR : ∀ {a b}, R a b → ¬ R b a) {p : α → Bool}
  (hp : ∀ b, p b = true ↔ R a b)
include hR hp

theorem findIdx?_after (h : (pre ++ a :: post).Pairwise R) (hne : post ≠ []) :
    (pre ++ a :: post).findIdx? p = some (pre.length + 1) := by
  obtain ⟨_, hpost, hcross⟩ := List.pairwise_append.mp h
  have hpre : pre.findIdx? p = none := by
    rw [List.findIdx?_eq_none_iff]
    intro b hb
    rw [← Bool.not_eq_true, hp]
    exact hR (hcross b hb a List.mem_cons_self)
  have ha : ¬ p a = true := by
    rw [hp]
    exact fun haa => hR haa haa
  obtain ⟨b, post, rfl⟩ := List.exists_cons_of_ne_nil hne
  have hb : p b = true := (hp b).mpr ((List.pairwise_cons.mp hpost).1 b List.mem_cons_self)
  rw [List.findIdx?_append, hpre, Option.none_or, List.findIdx?_cons, if_neg ha, List.findIdx?_cons,
    if_pos hb]
  exact congrArg some (Nat.add_comm 1 _)

theorem findIdx?_after_last (h : (pre ++ [a]).Pairwise R) : (pre ++ [a]).findIdx? p = none := by
  rw [List.findIdx?_eq_none_iff]
  intro b hb
  rw [← Bool.not_eq_true, hp]
  intro hab
  rcases List.mem_append.mp hb with hb | hb
  · exact hR ((List.pairwise_append.mp h).2.2 b hb a List.mem_cons_self) hab
  · cases List.mem_singleton.mp hb
    exact hR hab hab

end

end Lib
