import Shelterflex.Lib.Machine
import Shelterflex.Lib.RewardIndex
import Shelterflex.Lib.Rounding

/-! What one account of a shared index gets over a run, against its exact part of all that was
handed out. -/

namespace Lib
set_option autoImplicit true

namespace RewardIndex

/-- What an operation does for an account: its exact part of what is handed out, what it draws, and
what rounding may cost it. -/
structure Posting where
  due : ℚ
  drawn : ℤ
  slack : ℚ

def Posting.none : Posting := ⟨0, 0, 0⟩

/-- The account has not been settled since the index grew. -/
def Behind (L : RewardIndex α) (a : α) : Prop := L.snapshot a < L.index

instance (L : RewardIndex α) (a : α) : Decidable (L.Behind a) := inferInstanceAs (Decidable (_ < _))

/-- What settling an account may cost it. -/
def settleSlack (L : RewardIndex α) (a : α) : ℚ := if L.Behind a then 1 else 0

/-- The books after an operation, with its posting to one account. -/
inductive Posts (scale : ℤ) (a : α) (L L' : RewardIndex α) : Posting → Prop where
  | raise {x due : ℚ} {d : ℤ} (hx : Within (x - d) 1) (hdue : due = L.share a * x / scale)
      (hL : L' = L.raise d) :
      Posts scale a L L' ⟨due, 0, L.share a / scale⟩
  | settle (hL : L'.owed scale a + x * scale + L.residue scale a = L.owed scale a) :
      Posts scale a L L' ⟨0, x, L.settleSlack a⟩
  | keep (hL : L'.owed scale a = L.owed scale a) : Posts scale a L L' .none

section
variable {L L' : RewardIndex α}

theorem owed_raise (scale : ℤ) (L : RewardIndex α) (d : ℤ) (a : α) :
    (L.raise d).owed scale a = L.owed scale a + L.share a * d := by
  simp only [owed, raise]
  ring

theorem residue_within (h : L.WellFormed) (hs : 0 < scale) (a : α) :
    Within ((L.residue scale a : ℚ) / scale) (L.settleSlack a) := by
  by_cases hb : L.Behind a
  · rw [settleSlack, if_pos hb]
    exact Within.remainder hs _
  · have he : L.snapshot a = L.index := le_antisymm (h.snapshot_le a) (not_lt.mp hb)
    rw [settleSlack, if_neg hb, residue_of_current he, Int.cast_zero, zero_div]
    exact Within.zero

theorem settleSlack_eq (hw : L.WellFormed) (hc : L'.snapshot a = L.index) :
    L.settleSlack a = if L'.snapshot a = L.snapshot a then 0 else 1 := by
  have hle := hw.snapshot_le a
  rw [settleSlack, hc]
  by_cases hb : L.Behind a
  · rw [if_pos hb, if_neg (show L.snapshot a < L.index from hb).ne']
  · rw [if_neg hb, if_pos (le_antisymm (not_lt.mp hb) hle)]

/-- What an operation leaves an account short of, within its slack. -/
theorem Posts.within (h : L.WellFormed) (hs : 0 < scale) (hp : Posts scale a L L' p) :
    Within (p.due - p.drawn - (L'.owed scale a - L.owed scale a : ℚ) / scale) p.slack := by
  have hs' : (scale : ℚ) ≠ 0 := (Int.cast_pos.mpr hs).ne'
  cases hp with
  | @raise x due d hx hdue hL =>
    have hn : 0 ≤ (L.share a : ℚ) / scale :=
      div_nonneg (Int.cast_nonneg (h.share_nonneg a)) (Int.cast_nonneg hs.le)
    have he : due - (0 : ℤ) - (L'.owed scale a - L.owed scale a : ℚ) / scale =
        (L.share a : ℚ) / scale * (x - d) := by
      rw [hL, owed_raise, hdue]
      push_cast
      ring
    rw [he]
    simpa only [mul_one] using hx.mul hn
  | @settle x hL =>
    have he : 0 - (x : ℚ) - (L'.owed scale a - L.owed scale a : ℚ) / scale =
        (L.residue scale a : ℚ) / scale := by
      rw [← hL]
      push_cast
      field_simp
      ring
    rw [he]
    exact residue_within h hs a
  | keep hL =>
    rw [hL, sub_self, zero_div]
    simpa only [Posting.none, Int.cast_zero, sub_zero] using Within.zero (K := ℚ)

end

theorem posts_spread {L L' : RewardIndex α} (hs : 0 < scale) (ht : 0 < total)
    (hL : L' = L.raise (pot * scale / total)) (a : α) :
    Posts scale a L L' ⟨L.share a * pot / total, 0, L.share a / scale⟩ := by
  have hs' : (scale : ℚ) ≠ 0 := (Int.cast_pos.mpr hs).ne'
  have hx : Within ((pot * scale : ℤ) / total - (pot * scale / total : ℤ) : ℚ) 1 := by
    rw [div_sub_ediv ht]
    exact Within.remainder ht _
  refine .raise hx ?_ hL
  push_cast
  field_simp

theorem posts_write [DecidableEq α] {L L' : RewardIndex α} (hL : L' = L.write scale b n x)
    (a : α) : Posts scale a L L' (if a = b then ⟨0, x, L.settleSlack a⟩ else .none) := by
  subst hL
  split
  · rename_i he
    subst he
    apply Posts.settle
    rw [owed_eq scale L a]
    simp only [owed, write, withdraw, setShare, settle, Function.update_self, sub_self, mul_zero]
    ring
  · rename_i hn
    apply Posts.keep
    simp only [owed, write, withdraw, setShare, settle, Function.update_of_ne hn]

section
variable [DecidableEq α] {L L' : RewardIndex α}

theorem settle_owed_of_ne (scale : ℤ) (L : RewardIndex α) (h : b ≠ a) :
    (L.settle scale a).owed scale b = L.owed scale b ∧
      (L.settle scale a).residue scale b = L.residue scale b := by
  simp only [owed, residue, settle, Function.update_of_ne h, and_self]

theorem settleAll_owed_current (h : L.snapshot a = L.index) (as : List α) :
    (as.foldl (settle scale) L).owed scale a = L.owed scale a := by
  induction as generalizing L with
  | nil => rfl
  | cons b as ih =>
    rw [List.foldl_cons, ih (settle_current h scale b)]
    by_cases he : a = b
    · subst he
      rw [settle_of_current h]
    · exact (settle_owed_of_ne scale L he).1

theorem settleAll_owed (scale : ℤ) (L : RewardIndex α) (as : List α) (a : α) :
    (as.foldl (settle scale) L).owed scale a + (if a ∈ as then L.residue scale a else 0) =
      L.owed scale a := by
  induction as generalizing L with
  | nil => simp
  | cons b as ih =>
    rw [List.foldl_cons]
    by_cases he : a = b
    · subst he
      rw [settleAll_owed_current (settle_snapshot scale L a), settle_owed,
        if_pos List.mem_cons_self, ← owed_eq]
    · obtain ⟨howed, hres⟩ := settle_owed_of_ne scale L he
      have ih := ih (L.settle scale b)
      rw [howed, hres] at ih
      simpa only [List.mem_cons, he, false_or] using ih

theorem settleAll_snapshot (scale : ℤ) (L : RewardIndex α) (as : List α) (a : α) :
    (as.foldl (settle scale) L).snapshot a = if a ∈ as then L.index else L.snapshot a := by
  induction as generalizing L with
  | nil => simp
  | cons b as ih =>
    rw [List.foldl_cons, ih]
    by_cases he : a = b
    · subst he
      rw [if_pos List.mem_cons_self, settle_snapshot]
      exact ite_self L.index
    · simp only [List.mem_cons, he, false_or, settle, Function.update_of_ne he]

theorem posts_reshare (as : List α) (hw : L.WellFormed) (hs : 0 < scale)
    (hb : L'.banked = (as.foldl (settle scale) L).banked)
    (hsnap : L'.snapshot = (as.foldl (settle scale) L).snapshot)
    (hidx : L'.index = (as.foldl (settle scale) L).index)
    (hshare : ∀ b, b ∉ as → L'.share b = (as.foldl (settle scale) L).share b) (a : α) :
    Posts scale a L L' ⟨0, 0, if L'.snapshot a = L.snapshot a then 0 else 1⟩ := by
  obtain ⟨_, hi, _, _⟩ := settleAll_spec hw hs as
  have howed := settleAll_owed scale L as a
  have hcur := settleAll_snapshot scale L as a
  by_cases hmem : a ∈ as
  · rw [if_pos hmem] at howed hcur
    rw [← settleSlack_eq hw ((congrFun hsnap a).trans hcur)]
    apply Posts.settle
    rw [← howed]
    simp only [owed, hb, hsnap, hidx, hcur, hi, sub_self, mul_zero, zero_mul, add_zero]
  · rw [if_neg hmem] at howed hcur
    rw [if_pos ((congrFun hsnap a).trans hcur)]
    apply Posts.keep
    rw [← howed, add_zero]
    simp only [owed, hb, hsnap, hidx, hshare a hmem]

end

end RewardIndex

namespace Machine

section
variable {M : Machine σ ι ο} (books : σ → RewardIndex α)
  (post : Event σ ι ο → RewardIndex.Posting) (a : α)

/-- Over a run an account is paid and owed its exact part, less what rounding costs it. -/
theorem Run.account (h : M.Run s₀ t s) (hscale : 0 < scale) (h₀ : (books s₀).owed scale a = 0)
    (hs : ∀ {s i s' o}, M.Reachable s₀ s → M.step s i = some (s', o) →
      (books s).WellFormed ∧ (books s).Posts scale a (books s') (post ⟨s, i, o, s'⟩)) :
    Within ((t.map fun e => (post e).due).sum - (t.map fun e => (post e).drawn).sum -
        ((books s).owed scale a : ℚ) / scale)
      (t.map fun e => (post e).slack).sum := by
  induction h with
  | start =>
    rw [h₀]
    simpa using Within.zero (K := ℚ)
  | @commit t s i s' o hr he ih =>
    obtain ⟨hw, hp⟩ := hs ⟨_, hr⟩ he
    have hsum := ih.add (hp.within hw hscale)
    rw [List.map_cons, List.map_cons, List.map_cons, List.sum_cons, List.sum_cons, List.sum_cons,
      add_comm (post _).slack]
    generalize (t.map fun e => (post e).due).sum = due at hsum ⊢
    generalize (t.map fun e => (post e).drawn).sum = drawn at hsum ⊢
    have he : (post ⟨s, i, o, s'⟩).due + due - ((post ⟨s, i, o, s'⟩).drawn + drawn : ℤ) -
        ((books s').owed scale a : ℚ) / scale =
      due - drawn - ((books s).owed scale a : ℚ) / scale +
        ((post ⟨s, i, o, s'⟩).due - (post ⟨s, i, o, s'⟩).drawn -
          ((books s').owed scale a - (books s).owed scale a : ℚ) / scale) := by
      push_cast
      ring
    rw [he]
    exact hsum
  | rollback _ _ ih => exact ih

theorem Run.accuracy (h : M.Run s₀ t s) (hscale : 0 < scale) (h₀ : (books s₀).owed scale a = 0)
    (hs : ∀ {s i s' o}, M.Reachable s₀ s → M.step s i = some (s', o) →
      (books s).WellFormed ∧ (books s).Posts scale a (books s') (post ⟨s, i, o, s'⟩))
    (hw : (books s).WellFormed) :
    Within ((t.map fun e => (post e).due).sum -
        ((t.map fun e => (post e).drawn).sum + (books s).claimable scale a : ℤ))
      ((t.map fun e => (post e).slack).sum + (books s).settleSlack a) := by
  have hsum := (h.account books post a hscale h₀ hs).add (RewardIndex.residue_within hw hscale a)
  have hs' : (scale : ℚ) ≠ 0 := (Int.cast_pos.mpr hscale).ne'
  generalize (t.map fun e => (post e).due).sum = due at hsum ⊢
  generalize (t.map fun e => (post e).drawn).sum = drawn at hsum ⊢
  have he : due - (drawn + (books s).claimable scale a : ℤ) =
      due - drawn - ((books s).owed scale a : ℚ) / scale +
        ((books s).residue scale a : ℚ) / scale := by
    rw [RewardIndex.owed_eq]
    push_cast
    field_simp
    ring
  rw [he]
  exact hsum

end

end Machine

end Lib
