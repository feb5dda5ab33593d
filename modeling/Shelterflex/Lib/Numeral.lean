import Shelterflex.Lib.Decimal

/-! Decimal texts as they are read, and the shortest text of an integer. -/

namespace Lib
set_option autoImplicit true

def digitValue (b : UInt8) : Option Nat :=
  if 48 ≤ b.toNat ∧ b.toNat < 58 then some (b.toNat - 48) else none

/-- The number that a text of digits stands for. -/
def readDigits (t : List UInt8) : Option Nat :=
  t.foldlM (fun n b => (digitValue b).map (10 * n + ·)) 0

/-- The integer that a text stands for: a minus sign or none, then at least one digit. -/
def readDecimal (t : List UInt8) : Option Int :=
  match t with
  | [] => none
  | b :: ds =>
    if b = 45 then if ds = [] then none else (readDigits ds).map fun n => -Int.ofNat n
    else (readDigits (b :: ds)).map Int.ofNat

theorem digitValue_some : digitValue b = some d ↔ d < 10 ∧ b = digit d := by
  rw [digitValue, digit]
  constructor
  · intro h
    split at h
    · rename_i hb
      cases h
      refine ⟨by omega, UInt8.toNat_inj.mp ?_⟩
      rw [UInt8.toNat_add, UInt8.toNat_ofNat']
      change b.toNat = (_ + 48) % 2 ^ 8
      omega
    · cases h
  · rintro ⟨hd, rfl⟩
    have hv : (UInt8.ofNat d + 48).toNat = d + 48 := by
      rw [UInt8.toNat_add, UInt8.toNat_ofNat']
      change (_ + 48) % 2 ^ 8 = _
      omega
    rw [hv, if_pos (by omega), Nat.add_sub_cancel]

theorem readDigits_concat : readDigits (t ++ [b]) = some n ↔
    ∃ m, readDigits t = some m ∧ ∃ d, digitValue b = some d ∧ 10 * m + d = n := by
  rw [readDigits, List.foldlM_append, ← readDigits]
  simp [List.foldlM_cons, Option.bind_eq_some_iff, Option.map_eq_some_iff]

theorem readDigits_some : readDigits t = some n ↔
    ∃ ds, (∀ d ∈ ds, d < 10) ∧ t = (ds.map digit).reverse ∧ Nat.ofDigits 10 ds = n := by
  induction t using List.reverseRecOn generalizing n with
  | nil =>
    constructor
    · intro h
      cases h
      exact ⟨[], List.forall_mem_nil _, rfl, rfl⟩
    · rintro ⟨ds, _, h, rfl⟩
      rw [List.map_eq_nil_iff.mp (List.reverse_eq_nil_iff.mp h.symm)]
      rfl
  | append_singleton t b ih =>
    rw [readDigits_concat]
    constructor
    · rintro ⟨m, hm, d, hd, rfl⟩
      obtain ⟨ds, hlt, rfl, rfl⟩ := ih.mp hm
      obtain ⟨hd₁₀, rfl⟩ := digitValue_some.mp hd
      refine ⟨d :: ds, List.forall_mem_cons.mpr ⟨hd₁₀, hlt⟩, List.reverse_cons.symm, ?_⟩
      rw [Nat.ofDigits_cons, Nat.add_comm]
    · rintro ⟨ds, hlt, h, rfl⟩
      cases ds with
      | nil => exact absurd (congrArg List.length h) (by simp)
      | cons d ds =>
        obtain ⟨hd, hlt⟩ := List.forall_mem_cons.mp hlt
        rw [List.map_cons, List.reverse_cons] at h
        obtain ⟨rfl, hb⟩ := List.append_inj' h rfl
        refine ⟨_, ih.mpr ⟨ds, hlt, rfl, rfl⟩, d, digitValue_some.mpr ⟨hd, ?_⟩, ?_⟩
        · exact List.head_eq_of_cons_eq hb
        · rw [Nat.ofDigits_cons, Nat.add_comm]

/-- Digits of a number are its own digits, behind some zeros. -/
theorem eq_digits_append (hlt : ∀ d ∈ ds, d < 10) :
    ∃ k, ds = Nat.digits 10 (Nat.ofDigits 10 ds) ++ List.replicate k 0 := by
  induction ds with
  | nil => exact ⟨0, rfl⟩
  | cons d ds ih =>
    obtain ⟨hd, hlt⟩ := List.forall_mem_cons.mp hlt
    obtain ⟨k, hk⟩ := ih hlt
    rw [Nat.ofDigits_cons]
    rcases Nat.eq_zero_or_pos (Nat.ofDigits 10 ds) with h₀ | hpos
    · rw [h₀] at hk ⊢
      rcases Nat.eq_zero_or_pos d with rfl | hd₀
      · exact ⟨k + 1, congrArg (0 :: ·) hk⟩
      · refine ⟨k, ?_⟩
        rw [Nat.mul_zero, Nat.add_zero, Nat.digits_of_lt _ _ hd₀.ne' hd]
        exact congrArg (d :: ·) hk
    · refine ⟨k, ?_⟩
      rw [Nat.digits_add 10 (by decide) _ _ hd (.inr hpos.ne'), List.cons_append, ← hk]

theorem readDigits_eq (h : readDigits t = some n) :
    ∃ k, t = List.replicate k 48 ++ decimal n := by
  obtain ⟨ds, hlt, rfl, rfl⟩ := readDigits_some.mp h
  obtain ⟨k, hk⟩ := eq_digits_append hlt
  refine ⟨k, ?_⟩
  rw [decimal, ← List.reverse_replicate, ← List.reverse_append]
  conv_lhs => rw [hk, List.map_append, List.map_replicate]
  rfl

theorem readDigits_decimal (n : Nat) : readDigits (decimal n) = some n :=
  readDigits_some.mpr ⟨Nat.digits 10 n, fun _ => Nat.digits_lt_base (by decide), rfl,
    Nat.ofDigits_digits 10 n⟩

theorem readDecimal_some : readDecimal t = some v ↔
    (∃ n : Nat, t ≠ [] ∧ t.head? ≠ some 45 ∧ readDigits t = some n ∧ v = n) ∨
      ∃ ds, ∃ n : Nat, t = 45 :: ds ∧ ds ≠ [] ∧ readDigits ds = some n ∧ v = -n := by
  cases t with
  | nil => simp [readDecimal]
  | cons b ds =>
    rw [readDecimal]
    by_cases hb : b = 45
    · subst hb
      by_cases hds : ds = []
      · simp [hds]
      · rw [if_pos rfl, if_neg hds, Option.map_eq_some_iff]
        constructor
        · rintro ⟨n, hn, rfl⟩
          exact .inr ⟨ds, n, rfl, hds, hn, rfl⟩
        · rintro (⟨_, _, hsign, _⟩ | ⟨_, n, he, _, hn, rfl⟩)
          · exact absurd rfl hsign
          · cases he
            exact ⟨n, hn, rfl⟩
    · rw [if_neg hb, Option.map_eq_some_iff]
      constructor
      · rintro ⟨n, hn, rfl⟩
        exact .inl ⟨n, List.cons_ne_nil _ _, fun h => hb (Option.some.inj h), hn, rfl⟩
      · rintro (⟨n, _, _, hn, rfl⟩ | ⟨_, n, he, _⟩)
        · exact ⟨n, hn, rfl⟩
        · exact absurd (List.head_eq_of_cons_eq he) hb

/-- The text of an integer that has no rival of the same length. -/
structure ShortestDecimal (v : Int) (t : List UInt8) : Prop where
  reads : readDecimal t = some v
  unique : ∀ t', readDecimal t' = some v → t' = t ∨ t.length < t'.length
  sign : t.head? = some 45 ↔ v < 0
  leading : v ≠ 0 → t.head? ≠ some 48 ∧ ∀ ds, t = 45 :: ds → ds.head? ≠ some 48
  zero : v = 0 → t = [48]

theorem head_decimal_ne_sign (n : Nat) : (decimal n).head? ≠ some 45 := fun h =>
  sign_notMem_decimal n (List.mem_of_head? h)

theorem readDecimal_signedDecimal (v : Int) : readDecimal (signedDecimal v) = some v := by
  rw [readDecimal_some]
  rcases lt_trichotomy v 0 with hv | rfl | hv
  · refine .inr ⟨_, v.natAbs, signedDecimal_of_neg hv, ?_, readDigits_decimal _, by omega⟩
    exact decimal_ne_nil (by omega)
  · exact .inl ⟨0, by decide, by decide, by decide, rfl⟩
  · rw [signedDecimal_of_pos hv]
    exact .inl ⟨v.natAbs, decimal_ne_nil (by omega), head_decimal_ne_sign _, readDigits_decimal _,
      by omega⟩

/-- A text of a number other than zero has no zeros in front, or is longer. -/
theorem unique_decimal (h : readDigits t = some n) :
    t = decimal n ∨ (decimal n).length < t.length := by
  obtain ⟨k, rfl⟩ := readDigits_eq h
  cases k with
  | zero => exact .inl rfl
  | succ k =>
    refine .inr ?_
    rw [List.length_append, List.length_replicate]
    omega

theorem unique_zero (h : readDigits t = some 0) (hne : t ≠ []) :
    t = [48] ∨ 1 < t.length := by
  obtain ⟨k, rfl⟩ := readDigits_eq h
  rcases k with _ | _ | k
  · exact absurd rfl hne
  · exact .inl rfl
  · refine .inr ?_
    rw [List.length_append, List.length_replicate]
    omega

theorem unique_signedDecimal (h : readDecimal t = some v) :
    t = signedDecimal v ∨ (signedDecimal v).length < t.length := by
  rcases readDecimal_some.mp h with ⟨n, hne, _, hr, rfl⟩ | ⟨ds, n, rfl, hne, hr, rfl⟩
  · rcases Nat.eq_zero_or_pos n with rfl | hn
    · exact unique_zero hr hne
    · rw [signedDecimal_of_pos (Int.natCast_pos.mpr hn), Int.natAbs_natCast]
      exact unique_decimal hr
  · rcases Nat.eq_zero_or_pos n with rfl | hn
    · refine .inr ?_
      have hlen := List.length_pos_of_ne_nil hne
      exact Nat.succ_lt_succ hlen
    · rw [signedDecimal_of_neg (Int.neg_neg_of_pos (Int.natCast_pos.mpr hn)), Int.natAbs_neg,
        Int.natAbs_natCast]
      rcases unique_decimal hr with rfl | hlt
      · exact .inl rfl
      · exact .inr (Nat.succ_lt_succ hlt)

theorem head_signedDecimal (v : Int) : (signedDecimal v).head? = some 45 ↔ v < 0 := by
  rcases lt_trichotomy v 0 with hv | rfl | hv
  · rw [signedDecimal_of_neg hv]
    exact iff_of_true rfl hv
  · exact iff_of_false (by decide) (lt_irrefl 0)
  · rw [signedDecimal_of_pos hv]
    exact iff_of_false (head_decimal_ne_sign _) hv.not_gt

theorem leading_signedDecimal (hv : v ≠ 0) : (signedDecimal v).head? ≠ some 48 ∧
    ∀ ds, signedDecimal v = 45 :: ds → ds.head? ≠ some 48 := by
  have hhead := head_decimal (Int.natAbs_ne_zero.mpr hv) []
  rw [List.append_nil] at hhead
  rcases hv.lt_or_gt with hneg | hpos
  · rw [signedDecimal_of_neg hneg]
    refine ⟨by simp, fun ds hds => ?_⟩
    cases hds
    exact hhead
  · rw [signedDecimal_of_pos hpos]
    refine ⟨hhead, fun ds hds => ?_⟩
    exact absurd (congrArg List.head? hds) (head_decimal_ne_sign _)

theorem shortest_signedDecimal (v : Int) : ShortestDecimal v (signedDecimal v) where
  reads := readDecimal_signedDecimal v
  unique _ := unique_signedDecimal
  sign := head_signedDecimal v
  leading := leading_signedDecimal
  zero hv := by rw [hv]; rfl

end Lib
