import Shelterflex.Lib.Listing
import Shelterflex.RentPayments.Model

/-! The page of a deal whose receipts were stored in their order. -/

namespace Shelterflex.RentPayments
open Lib
set_option autoImplicit true

/-- The order of the listing. -/
def Receipt.Before (r r' : Receipt) : Prop :=
  r.timestamp < r'.timestamp ∨ r.timestamp = r'.timestamp ∧ r.txId.toList < r'.txId.toList

def Receipt.cursor (r : Receipt) : Cursor := ⟨r.timestamp, r.txId⟩

theorem before_asymm {r r' : Receipt} (h : r.Before r') : ¬ r'.Before r := by
  rintro (hlt' | ⟨heq', htx'⟩) <;> rcases h with hlt | ⟨heq, htx⟩
  · omega
  · omega
  · omega
  · exact List.lt_asymm htx htx'

theorem shouldSwap_iff : shouldSwap key prev = true ↔ key.Before prev := by
  unfold shouldSwap Receipt.Before
  split
  · simp [*]
  · split <;> simp [*]

theorem isBefore_iff {q : Receipt} (r : Receipt) : q.cursor.isBefore r = true ↔ q.Before r := by
  rw [Cursor.isBefore, decide_eq_true_iff, Receipt.Before, eq_comm]
  rfl

theorem sink_eq (hi : sorted[i]? = some key)
    (hp : ∀ j prev, i = j + 1 → sorted[j]? = some prev → ¬ key.Before prev) :
    sink key i sorted = .ok sorted := by
  obtain ⟨hlt, rfl⟩ := List.getElem?_eq_some_iff.mp hi
  cases i with
  | zero => exact congrArg Except.ok (List.set_getElem_self hlt)
  | succ j =>
    have hprev := List.getElem?_eq_getElem (Nat.lt_of_succ_lt hlt)
    have hno : ¬ shouldSwap sorted[j + 1] sorted[j] = true := by
      rw [shouldSwap_iff]
      exact hp j _ rfl hprev
    rw [sink, bind_of_ok (expect_ok.mpr hprev), if_neg hno, List.set_getElem_self hlt]
    rfl

theorem foldlM_fixed {f : β → α → Outcome ε β} {l : List α} (h : ∀ a ∈ l, f b a = .ok b) :
    l.foldlM f b = .ok b := by
  induction l with
  | nil => rfl
  | cons a l ih =>
    rw [List.foldlM_cons, bind_of_ok (h a List.mem_cons_self)]
    exact ih fun c hc => h c (List.mem_cons_of_mem _ hc)

theorem sortReceipts_eq (h : l.Pairwise Receipt.Before) : sortReceipts l = .ok l := by
  unfold sortReceipts
  split
  · apply foldlM_fixed
    intro i hi
    have hlt : i < l.length := by
      have := (List.mem_range'_1.mp hi).2
      omega
    have hget := List.getElem?_eq_getElem hlt
    rw [bind_of_ok (expect_ok.mpr hget)]
    refine sink_eq hget fun j prev hij hprev => ?_
    obtain ⟨hj, rfl⟩ := List.getElem?_eq_some_iff.mp hprev
    exact before_asymm (List.pairwise_iff_getElem.mp h j i hj hlt (by omega))
  · rfl

/-- The cursor stands behind the given receipts. -/
inductive Marks : Option Cursor → List Receipt → Prop where
  | start : Marks none []
  | last : Marks (some a.cursor) (pre ++ [a])

theorem startIndex_eq (hm : Marks cursor pre) (h : (pre ++ post).Pairwise Receipt.Before) :
    startIndex (pre ++ post) cursor = .ok pre.length := by
  cases hm with
  | start => rfl
  | @last pre a =>
    rw [List.append_assoc, List.singleton_append] at h ⊢
    by_cases hpost : post = []
    · subst hpost
      have hnone : (pre ++ [a]).findIdx? a.cursor.isBefore = none :=
        findIdx?_after_last (fun h => before_asymm h) isBefore_iff h
      obtain ⟨first, hfirst⟩ : ∃ first, (pre ++ [a])[0]? = some first :=
        Option.isSome_iff_exists.mp (by simp)
      have hno : ¬ a.cursor.isBefore first = true := by
        have hmem := List.findIdx?_eq_none_iff.mp hnone first (List.mem_of_getElem? hfirst)
        exact Bool.not_eq_true _ ▸ hmem
      have hcond : (none : Option Nat).getD 0 = 0 ∧ pre ++ [a] ≠ [] := by simp
      rw [startIndex, hnone, if_pos hcond, bind_of_ok (expect_ok.mpr hfirst), if_neg hno]
      rfl
    · have hsome := findIdx?_after (fun h => before_asymm h) isBefore_iff h hpost
      have hcond : ¬ ((some (pre.length + 1)).getD 0 = 0 ∧ pre ++ a :: post ≠ []) := by simp
      rw [startIndex, hsome, if_neg hcond, List.length_append, List.length_singleton]
      rfl

/-- A page of the receipts that come after the cursor. -/
structure PageOf (limit : Nat) (post : List Receipt) (page : ReceiptPage) : Prop where
  receipts : page.receipts = post.take limit
  hasNext : page.hasNext = true ↔ limit < post.length
  next : page.hasNext = true → ∃ a, page.receipts.getLast? = some a ∧ page.nextCursor = a.cursor

section
variable {s : State} (hs : getReceipts s dealId = pre ++ post)
  (h : (pre ++ post).Pairwise Receipt.Before) (hm : Marks cursor pre)
include hs h hm

theorem listReceiptsByDeal_eq (hpos : 0 < limit) (hle : limit ≤ 100)
    (hfit : pre.length + limit < 2 ^ 32) :
    ∃ page, listReceiptsByDeal dealId limit cursor s = .ok page ∧ PageOf limit post page := by
  have hlimit : ¬ (limit = 0 ∨ 100 < limit) := by omega
  have hlen : (pre ++ post).length = pre.length + post.length := List.length_append
  have hslice (k : Nat) :
      (List.range' pre.length k).filterMap ((pre ++ post)[·]?) = post.take k := by
    rw [filterMap_range', List.drop_left]
  rw [listReceiptsByDeal, require_bind_of hlimit, hs, bind_of_ok (sortReceipts_eq h),
    bind_of_ok (startIndex_eq hm h), bind_of_ok (u32Add_ok.mpr ⟨hfit, rfl⟩)]
  simp only [hslice, hlen]
  by_cases hmore : limit < post.length
  · have hreach : pre.length + limit < pre.length + post.length := by omega
    have hne : post.take limit ≠ [] := by
      rw [Ne, List.take_eq_nil_iff]
      rintro (rfl | rfl)
      · omega
      · cases hmore
    rw [if_pos hreach, Nat.add_sub_cancel_left, if_pos ⟨hreach, hne⟩, ← List.getLast?_eq_getElem?,
      List.getLast?_eq_some_getLast hne]
    exact ⟨_, rfl, rfl, iff_of_true rfl hmore, fun _ => ⟨_, List.getLast?_eq_some_getLast hne, rfl⟩⟩
  · have hreach : ¬ pre.length + limit < pre.length + post.length := by omega
    rw [if_neg hreach, Nat.add_sub_cancel_left, if_neg fun hc => hc.1.ne rfl]
    refine ⟨_, rfl, ?_, iff_of_false nofun hmore, nofun⟩
    rw [List.take_length, List.take_of_length_le (by omega)]

/-- Whatever page the call returns was read from behind the cursor. -/
theorem page_of_list (hl : listReceiptsByDeal dealId limit cursor s = .ok page) :
    0 < limit ∧ PageOf limit post page := by
  have hl' := hl
  rw [listReceiptsByDeal] at hl'
  obtain ⟨_, hlimit, hl'⟩ := bind_ok.mp hl'
  have hlimit := require_ok.mp hlimit
  rw [hs, bind_of_ok (sortReceipts_eq h), bind_of_ok (startIndex_eq hm h)] at hl'
  obtain ⟨_, hfit, _⟩ := bind_ok.mp hl'
  obtain ⟨page', hpage', hof⟩ := listReceiptsByDeal_eq hs h hm (by omega) (by omega)
    (u32Add_ok.mp hfit).1
  cases hl.symm.trans hpage'
  exact ⟨by omega, hof⟩

end

end Shelterflex.RentPayments
