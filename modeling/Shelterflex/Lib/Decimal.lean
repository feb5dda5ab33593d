import Mathlib.Data.Nat.Digits.Lemmas

namespace Lib
set_option autoImplicit true

/-- The ASCII code of a decimal digit. -/
def digit (d : Nat) : UInt8 := UInt8.ofNat d + 48

/-- The digits of a positive number, first digit first. -/
def decimal (n : Nat) : List UInt8 := ((Nat.digits 10 n).map digit).reverse

theorem digit_inj (hd : d < 10) (he : e < 10) (h : digit d = digit e) : d = e := by
  have hall : ∀ d < 10, ∀ e < 10, digit d = digit e → d = e := by decide
  exact hall d hd e he h

theorem digit_ne_zero (hd : d < 10) : digit d ≠ 0 := by
  have hall : ∀ d < 10, digit d ≠ 0 := by decide
  exact hall d hd

theorem digit_eq_zero (hd : d < 10) (h : digit d = 48) : d = 0 := digit_inj hd (by decide) h

theorem map_digit_inj {l l' : List Nat} (hl : ∀ d ∈ l, d < 10) (hl' : ∀ d ∈ l', d < 10)
    (h : l.map digit = l'.map digit) : l = l' := by
  induction l generalizing l' with
  | nil => exact (List.map_eq_nil_iff.mp h.symm).symm
  | cons d l ih =>
    cases l' with
    | nil => cases h
    | cons d' l' =>
      obtain ⟨hd, ht⟩ := List.cons.inj h
      have he := digit_inj (hl d List.mem_cons_self) (hl' d' List.mem_cons_self) hd
      have ht := ih (fun e he => hl e (List.mem_cons_of_mem _ he))
        (fun e he => hl' e (List.mem_cons_of_mem _ he)) ht
      rw [he, ht]

theorem decimal_inj : decimal n = decimal m ↔ n = m := by
  constructor
  · intro h
    apply Nat.digits_inj_iff.mp
    apply map_digit_inj (fun _ => Nat.digits_lt_base (by decide))
      (fun _ => Nat.digits_lt_base (by decide))
    exact List.reverse_injective h
  · exact congrArg decimal

theorem zero_notMem_decimal (n : Nat) : 0 ∉ decimal n := by
  intro h
  obtain ⟨d, hm, hd⟩ := List.mem_map.mp (List.mem_reverse.mp h)
  exact digit_ne_zero (Nat.digits_lt_base (by decide) hm) hd

theorem decimal_ne_nil (hn : n ≠ 0) : decimal n ≠ [] := by
  intro h
  have h' := List.map_eq_nil_iff.mp (List.reverse_eq_nil_iff.mp h)
  exact Nat.digits_ne_nil_iff_ne_zero.mpr hn h'

theorem head_decimal (hn : n ≠ 0) (l : List UInt8) : (decimal n ++ l).head? ≠ some 48 := by
  have hd := Nat.digits_ne_nil_iff_ne_zero (b := 10).mpr hn
  have hl := Nat.getLast_digit_ne_zero 10 hn
  intro h
  rw [List.head?_append_of_ne_nil _ (decimal_ne_nil hn), decimal, List.head?_reverse,
    List.getLast?_map, List.getLast?_eq_some_getLast hd] at h
  exact hl (digit_eq_zero (Nat.digits_lt_base (by decide) (List.getLast_mem hd))
    (Option.some.inj h))

theorem mem_decimal (h : b ∈ decimal n) : ∃ d < 10, digit d = b := by
  obtain ⟨d, hd, he⟩ := List.mem_map.mp (List.mem_reverse.mp h)
  exact ⟨d, Nat.digits_lt_base (by decide) hd, he⟩

/-- An integer, with a sign if it is negative. -/
def signedDecimal (v : Int) : List UInt8 :=
  if v = 0 then [48] else (if v < 0 then [45] else []) ++ decimal v.natAbs

theorem mem_signedDecimal (h : b ∈ signedDecimal v) : b = 45 ∨ ∃ d < 10, digit d = b := by
  rw [signedDecimal] at h
  split at h
  · exact .inr ⟨0, by decide, (List.mem_singleton.mp h).symm⟩
  · rcases List.mem_append.mp h with h | h
    · split at h
      · exact .inl (List.mem_singleton.mp h)
      · cases h
    · exact .inr (mem_decimal h)

theorem sign_notMem_decimal (n : Nat) : 45 ∉ decimal n := by
  intro h
  obtain ⟨d, hd, he⟩ := mem_decimal h
  have hall : ∀ d < 10, digit d ≠ 45 := by decide
  exact hall d hd he

theorem signedDecimal_of_pos (h : 0 < v) : signedDecimal v = decimal v.natAbs := by
  rw [signedDecimal, if_neg h.ne', if_neg h.not_gt, List.nil_append]

theorem signedDecimal_of_neg (h : v < 0) : signedDecimal v = 45 :: decimal v.natAbs := by
  rw [signedDecimal, if_neg h.ne, if_pos h, List.singleton_append]

theorem decimal_ne_zero_text (hn : n ≠ 0) : decimal n ≠ [48] := by
  intro h
  exact head_decimal hn [] (by rw [List.append_nil, h]; rfl)

theorem signedDecimal_inj (h : signedDecimal v = signedDecimal w) : v = w := by
  have hsign (n m : Nat) : decimal n ≠ 45 :: decimal m := fun he =>
    sign_notMem_decimal n (he ▸ List.mem_cons_self)
  have hzero {v : Int} (hv : 0 < v) : decimal v.natAbs ≠ signedDecimal 0 :=
    decimal_ne_zero_text (Int.natAbs_ne_zero.mpr hv.ne')
  have hminus (n : Nat) : 45 :: decimal n ≠ signedDecimal 0 := fun he =>
    absurd (List.cons.inj he).1 (by decide)
  rcases lt_trichotomy v 0 with hv | rfl | hv <;> rcases lt_trichotomy w 0 with hw | rfl | hw
  · rw [signedDecimal_of_neg hv, signedDecimal_of_neg hw] at h
    have he := decimal_inj.mp (List.cons.inj h).2
    omega
  · rw [signedDecimal_of_neg hv] at h
    exact absurd h (hminus _)
  · rw [signedDecimal_of_neg hv, signedDecimal_of_pos hw] at h
    exact absurd h.symm (hsign _ _)
  · rw [signedDecimal_of_neg hw] at h
    exact absurd h.symm (hminus _)
  · rfl
  · rw [signedDecimal_of_pos hw] at h
    exact absurd h.symm (hzero hw)
  · rw [signedDecimal_of_pos hv, signedDecimal_of_neg hw] at h
    exact absurd h (hsign _ _)
  · rw [signedDecimal_of_pos hv] at h
    exact absurd h (hzero hv)
  · rw [signedDecimal_of_pos hv, signedDecimal_of_pos hw] at h
    have he := decimal_inj.mp h
    omega

/-- Two numbers written one after the other read as one number. -/
theorem decimal_append (n m : Nat) :
    decimal n ++ decimal m = decimal (m + 10 ^ (Nat.digits 10 m).length * n) := by
  rw [decimal, decimal, decimal, ← List.reverse_append, ← List.map_append,
    Nat.digits_append_digits (by decide)]

theorem decimal_append_inj :
    decimal n ++ decimal m = decimal n' ++ decimal m' ↔
      m + 10 ^ (Nat.digits 10 m).length * n = m' + 10 ^ (Nat.digits 10 m').length * n' := by
  rw [decimal_append, decimal_append, decimal_inj]

/-- With as many digits in the second number, both numbers can be read back. -/
theorem eq_of_digits_length (hl : (Nat.digits 10 m).length = (Nat.digits 10 m').length)
    (h : m + 10 ^ (Nat.digits 10 m).length * n = m' + 10 ^ (Nat.digits 10 m').length * n') :
    n = n' ∧ m = m' := by
  have hm := Nat.lt_base_pow_length_digits (m := m) (show 1 < 10 by decide)
  have hm' := Nat.lt_base_pow_length_digits (m := m') (show 1 < 10 by decide)
  rw [← hl] at h hm'
  have hmod := congrArg (· % 10 ^ (Nat.digits 10 m).length) h
  simp only [Nat.add_mul_mod_self_left, Nat.mod_eq_of_lt hm, Nat.mod_eq_of_lt hm'] at hmod
  subst hmod
  exact ⟨Nat.eq_of_mul_eq_mul_left (by positivity) (Nat.add_left_cancel h), rfl⟩

end Lib
