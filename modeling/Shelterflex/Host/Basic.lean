import Mathlib.Tactic.Ring
import Mathlib.Tactic.Linarith

namespace Shelterflex
set_option autoImplicit true

/-- An account or a contract. -/
structure Address where
  id : Nat
deriving DecidableEq, Repr

abbrev Bytes := List UInt8

abbrev BytesN (n : Nat) := Vector UInt8 n

/-- The ways in which the host aborts a call. -/
inductive Trap where
  | overflow
  | divisionByZero
  | unauthorized
  | missingValue
  | tokenFailed
  | panicked (message : String)
deriving DecidableEq, Repr

/-- A call fails with an error of its contract, or is aborted by the host. -/
inductive Fault (ε : Type) where
  | err (e : ε)
  | trap (t : Trap)
deriving DecidableEq, Repr

abbrev Outcome (ε α : Type) := Except (Fault ε) α

theorem bind_ok {x : Outcome ε α} {f : α → Outcome ε β} :
    (x >>= f) = .ok b ↔ ∃ a, x = .ok a ∧ f a = .ok b := by
  cases x with
  | error e => exact ⟨nofun, fun ⟨_, h, _⟩ => nomatch h⟩
  | ok a =>
    constructor
    · exact fun h => ⟨a, rfl, h⟩
    · rintro ⟨_, h, h'⟩
      cases h
      exact h'

theorem bind_of_ok {x : Outcome ε α} (h : x = .ok a) (f : α → Outcome ε β) :
    (x >>= f) = f a := by
  rw [h]
  rfl

theorem ok_bind (a : α) (f : α → Outcome ε β) : (Except.ok a >>= f) = f a := rfl

theorem pure_ok {a b : α} : (pure a : Outcome ε α) = .ok b ↔ a = b :=
  Except.ok.injEq a b ▸ Iff.rfl

def require (p : Prop) [Decidable p] (e : ε) : Outcome ε Unit :=
  if p then .ok () else .error (.err e)

theorem require_ok {p : Prop} [Decidable p] {e : ε} : require p e = .ok u ↔ p := by
  unfold require
  split <;> simp_all

theorem require_bind_of {p : Prop} [Decidable p] {e : ε} (h : p) (f : Unit → Outcome ε β) :
    (require p e >>= f) = f () := by
  rw [require, if_pos h]
  rfl

theorem require_bind_of_not {p : Prop} [Decidable p] {e : ε} (h : ¬ p)
    (f : Unit → Outcome ε β) : (require p e >>= f) = .error (.err e) := by
  rw [require, if_neg h]
  rfl

def demand (p : Prop) [Decidable p] (message : String) : Outcome ε Unit :=
  if p then .ok () else .error (.trap (.panicked message))

theorem demand_ok {p : Prop} [Decidable p] {m : String} :
    (demand p m : Outcome ε Unit) = .ok u ↔ p := by
  unfold demand
  split <;> simp_all

def okOr (x : Option α) (e : ε) : Outcome ε α :=
  match x with
  | some a => .ok a
  | none => .error (.err e)

theorem okOr_ok {x : Option α} {e : ε} : okOr x e = .ok a ↔ x = some a := by
  cases x <;> simp [okOr]

/-- Unwrap a stored value, aborting when there is none. -/
def expect (x : Option α) : Outcome ε α :=
  match x with
  | some a => .ok a
  | none => .error (.trap .missingValue)

theorem expect_ok {x : Option α} : (expect x : Outcome ε α) = .ok a ↔ x = some a := by
  cases x <;> simp [expect]

def mapErr (f : ε → ε') : Outcome ε α → Outcome ε' α
  | .ok a => .ok a
  | .error (.err e) => .error (.err (f e))
  | .error (.trap t) => .error (.trap t)

theorem mapErr_ok {f : ε → ε'} {x : Outcome ε α} : mapErr f x = .ok a ↔ x = .ok a := by
  rcases x with (e | t) | b <;> simp [mapErr]

/-- Abort the call on an error. -/
def orPanic (message : String) : Outcome ε α → Outcome ε' α
  | .ok a => .ok a
  | .error (.err _) => .error (.trap (.panicked message))
  | .error (.trap t) => .error (.trap t)

theorem orPanic_ok {x : Outcome ε α} :
    (orPanic message x : Outcome ε' α) = .ok a ↔ x = .ok a := by
  rcases x with (e | t) | b <;> simp [orPanic]

/-- The outcome is not the given fault. -/
def Avoids (f : Fault ε) (x : Outcome ε α) : Prop := x ≠ .error f

theorem Avoids.bind {x : Outcome ε α} {g : α → Outcome ε β} (hx : Avoids f x)
    (hg : ∀ a, x = .ok a → Avoids f (g a)) : Avoids f (x >>= g) := by
  cases x with
  | error e => exact fun h => hx (by cases h; rfl)
  | ok a => exact hg a rfl

theorem avoids_pure {f : Fault ε} {a : α} : Avoids f (pure a : Outcome ε α) := nofun

theorem require_avoids {p : Prop} [Decidable p] {e : ε} : Avoids (.trap t) (require p e) := by
  unfold require
  split <;> nofun

theorem require_avoids_err {p : Prop} [Decidable p] (hne : e ≠ e') :
    Avoids (.err e') (require p e) := by
  unfold require
  split
  · nofun
  · exact fun h => hne (Fault.err.inj (Except.error.inj h))

theorem okOr_avoids_err {x : Option α} (hne : e ≠ e') : Avoids (.err e') (okOr x e) := by
  cases x with
  | none => exact fun h => hne (Fault.err.inj (Except.error.inj h))
  | some a => nofun

theorem demand_avoids {p : Prop} [Decidable p] :
    Avoids (.trap .tokenFailed) (demand p m : Outcome ε Unit) := by
  unfold demand
  split <;> nofun

theorem expect_avoids {x : Option α} :
    Avoids (.trap .tokenFailed) (expect x : Outcome ε α) := by
  cases x <;> nofun

theorem expect_no_err {x : Option α} : Avoids (.err e) (expect x) := by
  cases x <;> nofun

theorem orPanic_avoids {x : Outcome ε α} (h : Avoids (.trap .tokenFailed) x) :
    Avoids (.trap .tokenFailed) (orPanic m x : Outcome ε' α) := by
  rcases x with (e | t) | b
  · nofun
  · rintro ⟨⟩
    exact h rfl
  · nofun

/-- What every turn of a loop preserves. -/
theorem foldlM_invariant {f : β → α → Outcome ε β} (P : β → Prop)
    (hf : ∀ {b a b'}, P b → f b a = .ok b' → P b') {l : List α} (hb : P b)
    (h : l.foldlM f b = .ok b') : P b' := by
  induction l generalizing b with
  | nil => exact pure_ok.mp h ▸ hb
  | cons a l ih =>
    rw [List.foldlM_cons, bind_ok] at h
    obtain ⟨c, hc, h⟩ := h
    exact ih (hf hb hc) h

/-- What no turn of a loop changes. -/
theorem foldlM_keeps {f : β → α → Outcome ε β} (g : β → γ)
    (hf : ∀ {b a b'}, f b a = .ok b' → g b' = g b) {l : List α} (h : l.foldlM f b = .ok b') :
    g b' = g b :=
  foldlM_invariant (fun c => g c = g b) (fun hc hs => (hf hs).trans hc) rfl h

/-- What a loop adds up. -/
theorem foldlM_sum {f : Int → α → Outcome ε Int} {g : α → Int}
    (hf : ∀ {n a m}, f n a = .ok m → m = n + g a) {l : List α} (h : l.foldlM f n = .ok m) :
    m = n + (l.map g).sum := by
  induction l generalizing n with
  | nil => exact (pure_ok.mp h).symm.trans (add_zero n).symm
  | cons a l ih =>
    rw [List.foldlM_cons, bind_ok] at h
    obtain ⟨k, hk, h⟩ := h
    rw [ih h, hf hk, List.map_cons, List.sum_cons, add_assoc]

/-- The last turn of a loop over `0, …, k`. -/
theorem foldlM_range_succ {f : β → Nat → Outcome ε β} :
    (List.range (k + 1)).foldlM f b = .ok c ↔
      ∃ d, (List.range k).foldlM f b = .ok d ∧ f d k = .ok c := by
  rw [List.range_succ, List.foldlM_append, bind_ok]
  simp only [List.foldlM_cons, List.foldlM_nil, bind_pure]

/-- A loop of checks passes when each of them does. -/
theorem forM_ok {f : α → Outcome ε Unit} {l : List α} :
    l.forM f = .ok u ↔ ∀ a ∈ l, f a = .ok () := by
  induction l with
  | nil => exact iff_of_true rfl (List.forall_mem_nil _)
  | cons a l ih =>
    rw [List.forall_mem_cons, ← ih]
    change (f a >>= fun _ => l.forM f) = .ok u ↔ _
    rw [bind_ok]
    exact ⟨fun ⟨_, ha, h⟩ => ⟨ha, h⟩, fun ⟨ha, h⟩ => ⟨(), ha, h⟩⟩

/-- The commit of a call, if it does not fail. -/
def commit (x : Outcome ε α) (f : α → β) : Option β := x.toOption.map f

theorem commit_some {x : Outcome ε α} {f : α → β} :
    commit x f = some b ↔ ∃ a, x = .ok a ∧ f a = b := by
  cases x <;> simp [commit, Except.toOption]

/-! Arithmetic of the release profile: an overflow aborts the call. -/

def InI128 (x : Int) : Prop := -2 ^ 127 ≤ x ∧ x < 2 ^ 127

instance : Decidable (InI128 x) := inferInstanceAs (Decidable (_ ∧ _))

/-- An `i128` as the host decodes it. -/
abbrev I128 := { x : Int // InI128 x }

theorem inI128_zero : InI128 0 := by decide

theorem InI128.of_nonneg (h : InI128 x) (h₀ : 0 ≤ y) (hle : y ≤ x) : InI128 y :=
  ⟨le_trans (by decide) h₀, hle.trans_lt h.2⟩

def checkI128 (x : Int) : Outcome ε Int :=
  if InI128 x then .ok x else .error (.trap .overflow)

theorem checkI128_ok : (checkI128 x : Outcome ε Int) = .ok y ↔ InI128 x ∧ x = y := by
  unfold checkI128
  split <;> simp_all

def i128Add (x y : Int) : Outcome ε Int := checkI128 (x + y)

def i128Sub (x y : Int) : Outcome ε Int := checkI128 (x - y)

def i128Mul (x y : Int) : Outcome ε Int := checkI128 (x * y)

/-- Division rounds toward zero. -/
def i128Div (x y : Int) : Outcome ε Int :=
  if y = 0 then .error (.trap .divisionByZero) else checkI128 (x.tdiv y)

theorem i128Add_ok : (i128Add x y : Outcome ε Int) = .ok z ↔ InI128 (x + y) ∧ x + y = z :=
  checkI128_ok

theorem i128Sub_ok : (i128Sub x y : Outcome ε Int) = .ok z ↔ InI128 (x - y) ∧ x - y = z :=
  checkI128_ok

theorem i128Mul_ok : (i128Mul x y : Outcome ε Int) = .ok z ↔ InI128 (x * y) ∧ x * y = z :=
  checkI128_ok

theorem i128Div_ok :
    (i128Div x y : Outcome ε Int) = .ok z ↔ y ≠ 0 ∧ InI128 (x.tdiv y) ∧ x.tdiv y = z := by
  unfold i128Div
  split
  · simp_all
  · simp_all [checkI128_ok]

theorem checkI128_avoids : Avoids (.trap .tokenFailed) (checkI128 x : Outcome ε Int) := by
  unfold checkI128
  split <;> nofun

theorem i128Div_avoids : Avoids (.trap .tokenFailed) (i128Div x y : Outcome ε Int) := by
  unfold i128Div
  split
  · nofun
  · exact checkI128_avoids

theorem checkI128_no_err : Avoids (.err e) (checkI128 x) := by
  unfold checkI128
  split <;> nofun

theorem i128Div_no_err : Avoids (.err e) (i128Div x y) := by
  unfold i128Div
  split
  · nofun
  · exact checkI128_no_err

/-- Subtraction that stops at the bounds of an `i128`. -/
def i128SaturatingSub (x y : Int) : Int := max (-2 ^ 127) (min (2 ^ 127 - 1) (x - y))

theorem i128SaturatingSub_eq (h : InI128 (x - y)) : i128SaturatingSub x y = x - y := by
  obtain ⟨hl, hu⟩ := h
  rw [i128SaturatingSub, min_eq_right (Int.le_sub_one_of_lt hu), max_eq_right hl]

theorem le_sub_of_saturating (ha : 0 < a) (h : a ≤ i128SaturatingSub x y) : a ≤ x - y := by
  rcases le_max_iff.mp h with h | h
  · have hn : (-2 ^ 127 : Int) ≤ 0 := by decide
    omega
  · exact (le_min_iff.mp h).2

def u64Add (x y : Nat) : Outcome ε Nat :=
  if x + y < 2 ^ 64 then .ok (x + y) else .error (.trap .overflow)

theorem u64Add_ok : (u64Add x y : Outcome ε Nat) = .ok z ↔ x + y < 2 ^ 64 ∧ x + y = z := by
  unfold u64Add
  split
  · simp_all
  · exact ⟨nofun, fun h => absurd h.1 ‹_›⟩

def u64Mul (x y : Nat) : Outcome ε Nat :=
  if x * y < 2 ^ 64 then .ok (x * y) else .error (.trap .overflow)

theorem u64Mul_ok : (u64Mul x y : Outcome ε Nat) = .ok z ↔ x * y < 2 ^ 64 ∧ x * y = z := by
  unfold u64Mul
  split
  · simp_all
  · exact ⟨nofun, fun h => absurd h.1 ‹_›⟩

def u32Add (x y : Nat) : Outcome ε Nat :=
  if x + y < 2 ^ 32 then .ok (x + y) else .error (.trap .overflow)

theorem u32Add_ok : (u32Add x y : Outcome ε Nat) = .ok z ↔ x + y < 2 ^ 32 ∧ x + y = z := by
  unfold u32Add
  split
  · simp_all
  · exact ⟨nofun, fun h => absurd h.1 ‹_›⟩

def u32Mul (x y : Nat) : Outcome ε Nat :=
  if x * y < 2 ^ 32 then .ok (x * y) else .error (.trap .overflow)

theorem u32Mul_ok : (u32Mul x y : Outcome ε Nat) = .ok z ↔ x * y < 2 ^ 32 ∧ x * y = z := by
  unfold u32Mul
  split
  · simp_all
  · exact ⟨nofun, fun h => absurd h.1 ‹_›⟩

theorem u32Add_no_err : Avoids (.err e) (u32Add x y) := by
  unfold u32Add
  split <;> nofun

theorem u32Mul_no_err : Avoids (.err e) (u32Mul x y) := by
  unfold u32Mul
  split <;> nofun

def u32Sub (x y : Nat) : Outcome ε Nat :=
  if y ≤ x then .ok (x - y) else .error (.trap .overflow)

theorem u32Sub_ok : (u32Sub x y : Outcome ε Nat) = .ok z ↔ y ≤ x ∧ x - y = z := by
  unfold u32Sub
  split <;> simp_all

/-! Arithmetic on `u32` that stops at the bounds of the type, or cuts a number down to it. -/

def u32Max : UInt32 := 4294967295

def u32SaturatingSub (x y : UInt32) : UInt32 := if y ≤ x then x - y else 0

def u32SaturatingMul (x y : UInt32) : UInt32 :=
  if x.toNat * y.toNat < 2 ^ 32 then x * y else u32Max

theorem toNat_u32SaturatingSub (x y : UInt32) :
    (u32SaturatingSub x y).toNat = x.toNat - y.toNat := by
  unfold u32SaturatingSub
  split
  · exact UInt32.toNat_sub_of_le x y ‹_›
  · rename_i h
    rw [UInt32.le_iff_toNat_le] at h
    exact (Nat.sub_eq_zero_of_le (Nat.le_of_not_le h)).symm

theorem toNat_u32SaturatingMul (x y : UInt32) :
    (u32SaturatingMul x y).toNat = min (x.toNat * y.toNat) (2 ^ 32 - 1) := by
  unfold u32SaturatingMul
  split
  · rename_i h
    rw [UInt32.toNat_mul, Nat.mod_eq_of_lt h]
    exact (Nat.min_eq_left (Nat.le_sub_one_of_lt h)).symm
  · rename_i h
    have hmax : u32Max.toNat = 2 ^ 32 - 1 := rfl
    rw [hmax]
    omega

theorem toNat_max (x y : UInt32) : (max x y).toNat = max x.toNat y.toNat := by
  change (if x ≤ y then y else x).toNat = _
  split
  · rename_i h
    exact (Nat.max_eq_right (UInt32.le_iff_toNat_le.mp h)).symm
  · rename_i h
    rw [UInt32.le_iff_toNat_le] at h
    exact (Nat.max_eq_left (Nat.le_of_not_le h)).symm

theorem toNat_min (x y : UInt32) : (min x y).toNat = min x.toNat y.toNat := by
  change (if x ≤ y then x else y).toNat = _
  split
  · rename_i h
    exact (Nat.min_eq_left (UInt32.le_iff_toNat_le.mp h)).symm
  · rename_i h
    rw [UInt32.le_iff_toNat_le] at h
    exact (Nat.min_eq_right (Nat.le_of_not_le h)).symm

/-- A product that saturates takes away all that an exact one does. -/
theorem sub_saturated (c k r : UInt32) :
    (u32SaturatingSub c (u32SaturatingMul k r)).toNat = c.toNat - k.toNat * r.toNat := by
  have hc := c.toNat_lt
  rw [toNat_u32SaturatingSub, toNat_u32SaturatingMul]
  omega

/-- What a call sees of the ledger. A contract never authorizes a call to itself: the host
forbids re-entry, and none of the contracts implements an account. -/
structure Env (own : Address) where
  timestamp : Nat
  authorized : Address → Bool
  own_unauthorized : authorized own = false

def Env.requireAuth (env : Env own) (a : Address) : Outcome ε Unit :=
  if env.authorized a then .ok () else .error (.trap .unauthorized)

theorem requireAuth_ok {env : Env own} :
    (env.requireAuth a : Outcome ε Unit) = .ok u ↔ env.authorized a = true := by
  unfold Env.requireAuth
  split <;> simp_all

theorem requireAuth_avoids {env : Env own} :
    Avoids (.trap .tokenFailed) (env.requireAuth a : Outcome ε Unit) := by
  unfold Env.requireAuth
  split <;> nofun

theorem requireAuth_no_err {env : Env own} : Avoids (.err e) (env.requireAuth a) := by
  unfold Env.requireAuth
  split <;> nofun

theorem Env.ne_own {env : Env own} (h : env.authorized a = true) : a ≠ own := by
  rintro rfl
  rw [env.own_unauthorized] at h
  cases h

/-- Everyone but the contract authorizes the call. -/
def Env.signed (own : Address) (timestamp : Nat) : Env own :=
  ⟨timestamp, fun a => !decide (a = own), by simp⟩

theorem Env.signed_authorized (h : a ≠ own) (timestamp : Nat) :
    (Env.signed own timestamp).authorized a = true := by
  simp [Env.signed, h]

end Shelterflex
