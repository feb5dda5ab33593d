import Mathlib.Data.List.Basic
import Mathlib.Algebra.Order.Ring.Nat

namespace Lib
set_option autoImplicit true

/-- A code whose words mark their own end: a value can be read off the front of a text. -/
structure Delimited (f : α → List β) : Prop where
  read : ∀ {a b : α} {r r' : List β}, f a ++ r = f b ++ r' → a = b ∧ r = r'

namespace Delimited

theorem append {f : α → List β} {g : γ → List β} (hf : Delimited f) (hg : Delimited g) :
    Delimited fun p : α × γ => f p.1 ++ g p.2 := by
  constructor
  intro a b r r' h
  simp only [List.append_assoc] at h
  obtain ⟨h₁, h⟩ := hf.read h
  obtain ⟨h₂, h⟩ := hg.read h
  exact ⟨Prod.ext h₁ h₂, h⟩

theorem sized {c : κ → List β} (hc : Delimited c) {size : α → κ} {body : α → List β}
    (hl : ∀ a b, size a = size b → (body a).length = (body b).length)
    (hi : ∀ a b, size a = size b → body a = body b → a = b) :
    Delimited fun a => c (size a) ++ body a := by
  constructor
  intro a b r r' h
  simp only [List.append_assoc] at h
  obtain ⟨hs, h⟩ := hc.read h
  obtain ⟨hb, h⟩ := List.append_inj h (hl a b hs)
  exact ⟨hi a b hs hb, h⟩

theorem flatMap_inj {f : α → List β} (hf : Delimited f) {l l' : List α}
    (hl : l.length = l'.length) (h : l.flatMap f ++ r = l'.flatMap f ++ r') : l = l' ∧ r = r' := by
  induction l generalizing l' with
  | nil =>
    cases l' with
    | nil => exact ⟨rfl, h⟩
    | cons b l' => cases hl
  | cons a l ih =>
    cases l' with
    | nil => cases hl
    | cons b l' =>
      simp only [List.flatMap_cons, List.append_assoc] at h
      obtain ⟨ha, ht⟩ := hf.read h
      obtain ⟨hl, hr⟩ := ih (Nat.succ.inj hl) ht
      exact ⟨by rw [ha, hl], hr⟩

theorem list {c : Nat → List β} {f : α → List β} (hc : Delimited c) (hf : Delimited f) :
    Delimited fun l : List α => c l.length ++ l.flatMap f := by
  constructor
  intro l l' r r' h
  simp only [List.append_assoc] at h
  obtain ⟨hl, h⟩ := hc.read h
  exact hf.flatMap_inj hl h

theorem comp {f : α → List β} (hf : Delimited f) {g : γ → α} (hg : Function.Injective g) :
    Delimited (f ∘ g) := by
  constructor
  intro a b r r' h
  obtain ⟨he, h⟩ := hf.read h
  exact ⟨hg he, h⟩

end Delimited

/-- A text that is empty or starts with the mark. -/
def Starts (x : β) (r : List β) : Prop := ∀ y ∈ r.head?, y = x

theorem starts_nil (x : β) : Starts x [] := nofun

theorem append_starts_inj {l l' r r' : List β} (hl : x ∉ l) (hl' : x ∉ l') (hr : Starts x r)
    (hr' : Starts x r') (h : l ++ r = l' ++ r') : l = l' ∧ r = r' := by
  induction l generalizing l' with
  | nil =>
    cases l' with
    | nil => exact ⟨rfl, h⟩
    | cons y l' =>
      rw [List.nil_append] at h
      have hy := hr y (by rw [h]; rfl)
      exact absurd (hy ▸ List.mem_cons_self) hl'
  | cons y l ih =>
    cases l' with
    | nil =>
      rw [List.nil_append] at h
      have hy := hr' y (by rw [← h]; rfl)
      exact absurd (hy ▸ List.mem_cons_self) hl
    | cons z l' =>
      obtain ⟨rfl, ht⟩ := List.cons.inj h
      obtain ⟨rfl, hr⟩ := ih (fun hm => hl (List.mem_cons_of_mem _ hm))
        (fun hm => hl' (List.mem_cons_of_mem _ hm)) ht
      exact ⟨rfl, hr⟩

/-- Texts without a mark can be told apart from what follows the mark. -/
theorem append_mark_inj {x : β} (hl : x ∉ l) (hl' : x ∉ l') (h : l ++ x :: r = l' ++ x :: r') :
    l = l' ∧ r = r' := by
  have hs (r : List β) : Starts x (x :: r) := fun y hy => (Option.some.inj hy).symm
  obtain ⟨he, ht⟩ := append_starts_inj hl hl' (hs r) (hs r') h
  exact ⟨he, (List.cons.inj ht).2⟩

/-- The low bytes of a number, most significant first. -/
def bigEndian : Nat → Nat → List UInt8
  | 0, _ => []
  | k + 1, n => bigEndian k (n / 256) ++ [UInt8.ofNat n]

theorem bigEndian_length (k n : Nat) : (bigEndian k n).length = k := by
  induction k generalizing n with
  | zero => rfl
  | succ k ih => rw [bigEndian, List.length_append, ih, List.length_singleton]

theorem bigEndian_inj (hn : n < 256 ^ k) (hm : m < 256 ^ k) (h : bigEndian k n = bigEndian k m) :
    n = m := by
  induction k generalizing n m with
  | zero => omega
  | succ k ih =>
    obtain ⟨hh, hl⟩ := List.append_inj' h rfl
    have hd := ih (Nat.div_lt_of_lt_mul (by rwa [Nat.pow_succ'] at hn))
      (Nat.div_lt_of_lt_mul (by rwa [Nat.pow_succ'] at hm)) hh
    have hr := congrArg UInt8.toNat (List.cons.inj hl).1
    rw [UInt8.toNat_ofNat', UInt8.toNat_ofNat'] at hr
    omega

/-- Bytes compare as the numbers they stand for, whatever follows them. -/
theorem bigEndian_lt (hnm : n < m) (hm : m < 256 ^ k) (r r' : List UInt8) :
    bigEndian k n ++ r < bigEndian k m ++ r' := by
  induction k generalizing n m r r' with
  | zero => omega
  | succ k ih =>
    have hd : m / 256 < 256 ^ k := Nat.div_lt_of_lt_mul (by rwa [Nat.pow_succ'] at hm)
    rw [bigEndian, bigEndian, List.append_assoc, List.append_assoc]
    rcases Nat.lt_or_eq_of_le (Nat.div_le_div_right hnm.le) with hlt | heq
    · exact ih hlt hd _ _
    · rw [heq]
      apply List.append_left_lt
      refine List.cons_lt_cons_iff.mpr (.inl ?_)
      rw [UInt8.lt_iff_toNat_lt, UInt8.toNat_ofNat', UInt8.toNat_ofNat']
      omega

end Lib
