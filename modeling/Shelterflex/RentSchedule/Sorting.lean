import Shelterflex.Lib.Sorting
import Shelterflex.RentSchedule.Model

/-! The schedule as it is read: a stable sort by instalment number. -/

namespace Shelterflex.RentSchedule
open Lib
set_option autoImplicit true

theorem setAt_ok (h : i < l.length) (inst : ScheduledInstalment) :
    setAt l i inst = .ok (l.set i inst) := by
  rw [setAt, demand, if_pos h]
  rfl

theorem sink_swap (h : x.instalmentNumber < a.instalmentNumber) (l q : List ScheduledInstalment) :
    sink (l ++ a :: x :: q) (l.length + 1) = sink (l ++ x :: a :: q) l.length := by
  have ha : (expect (l ++ a :: x :: q)[l.length]? : Result _) = .ok a := by simp [expect]
  have hx : (expect (l ++ a :: x :: q)[l.length + 1]? : Result _) = .ok x := by simp [expect]
  have hset₁ : setAt (l ++ a :: x :: q) l.length x = .ok (l ++ x :: x :: q) := by
    rw [setAt_ok (by simp), List.set_append_right _ _ le_rfl, Nat.sub_self]
    rfl
  have hset₂ : setAt (l ++ x :: x :: q) (l.length + 1) a = .ok (l ++ x :: a :: q) := by
    rw [setAt_ok (by simp), List.set_append_right _ _ (Nat.le_add_right _ 1),
      Nat.add_sub_cancel_left]
    rfl
  rw [sink, bind_of_ok ha, bind_of_ok hx, if_pos h, bind_of_ok hset₁, bind_of_ok hset₂]

theorem sink_stop (h : a.instalmentNumber ≤ x.instalmentNumber) (l q : List ScheduledInstalment) :
    sink (l ++ a :: x :: q) (l.length + 1) = .ok (l ++ a :: x :: q) := by
  have ha : (expect (l ++ a :: x :: q)[l.length]? : Result _) = .ok a := by simp [expect]
  have hx : (expect (l ++ a :: x :: q)[l.length + 1]? : Result _) = .ok x := by simp [expect]
  rw [sink, bind_of_ok ha, bind_of_ok hx, if_neg (not_lt.mpr h)]
  rfl

theorem sink_eq (l : List ScheduledInstalment) (x : ScheduledInstalment)
    (q : List ScheduledInstalment) : sink (l ++ x :: q) l.length =
      .ok (insertBack (·.instalmentNumber) l x ++ q) := by
  induction l using List.reverseRecOn generalizing q with
  | nil => rfl
  | append_singleton l a ih =>
    rw [List.length_append, List.length_singleton, List.append_assoc, List.singleton_append]
    rcases lt_or_ge x.instalmentNumber a.instalmentNumber with hlt | hge
    · rw [sink_swap hlt, ih, insertBack_concat_of_lt hlt, List.append_assoc]
      rfl
    · rw [sink_stop hge, insertBack_concat_of_le hge, List.append_assoc, List.append_assoc]
      rfl

/-- After some turns of the outer loop the front of the list is sorted, and the rest is as it
was. -/
theorem sink_turns {l : List ScheduledInstalment} (hn : n + 1 ≤ l.length) :
    (List.range' 1 n).foldlM sink l =
      .ok (sortBack (·.instalmentNumber) (l.take (n + 1)) ++ l.drop (n + 1)) := by
  induction n with
  | zero =>
    cases l with
    | nil => cases hn
    | cons x l => rfl
  | succ n ih =>
    have hx : l.take (n + 2) = l.take (n + 1) ++ [l[n + 1]] := by
      rw [List.take_succ_eq_append_getElem hn]
    have hlen : 1 + n =
        (sortBack ScheduledInstalment.instalmentNumber (l.take (n + 1))).length := by
      rw [length_sortBack, List.length_take_of_le (Nat.le_of_succ_le hn), Nat.add_comm]
    rw [List.range'_1_concat, List.foldlM_append, ih (Nat.le_of_succ_le hn)]
    change ([1 + n].foldlM sink _ : Result _) = _
    rw [List.foldlM_cons, List.drop_eq_getElem_cons hn, hlen, sink_eq, hx, sortBack_concat]
    rfl

/-- The schedule of a deal is read without a panic, sorted by instalment number, with instalments
of one number in stored order. -/
theorem schedule_sorted (dealId : Bytes) (s : State) :
    ∃ sorted, getSchedule dealId s = .ok sorted ∧
      StableSort ScheduledInstalment.instalmentNumber (s.schedule.getD dealId []) sorted := by
  refine ⟨_, ?_, stableSort_sortBack _⟩
  rw [getSchedule]
  cases hl : s.schedule.getD dealId [] with
  | nil => rfl
  | cons inst l =>
    have hturns := @sink_turns l.length (inst :: l) le_rfl
    rwa [← List.length_cons, List.take_length, List.drop_length, List.append_nil] at hturns

end Shelterflex.RentSchedule
