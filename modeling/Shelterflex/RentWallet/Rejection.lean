import Shelterflex.RentWallet.Model

/-! The debit as it writes to storage, without the host's rollback. -/

namespace Shelterflex.RentWallet
open Lib
set_option autoImplicit true

/-- A computation that keeps what it has written when it fails. -/
abbrev InPlace := ExceptT (Fault ContractError) (StateM State)

def InPlace.exec (x : InPlace α) (s : State) : Outcome ContractError α × State :=
  StateT.run (ExceptT.run x) s

def check (x : Outcome ContractError α) : InPlace α := ExceptT.mk (pure x)

def recordMonthlySpentInPlace (user : Address) (key : Nat) (additional : Int) : InPlace Unit := do
  let s ← get
  let spent ← check (i128Add (getMonthlySpent s user key) additional)
  set { s with monthlySpent := s.monthlySpent.set (user, key) spent }

def checkAndRecordDebitInPlace (timestamp : Nat) (user : Address) (amount : Int) :
    InPlace Unit := do
  let s ← get
  if effectiveCap s user = 0 then
    return ()
  else do
    let key := currentMonthKey timestamp
    let spent ← check (i128Add (getMonthlySpent s user key) amount)
    check (require (spent ≤ effectiveCap s user) .monthlyCapExceeded)
    recordMonthlySpentInPlace user key amount

def debitInPlace (env : Env own) (admin user : Address) (amount : Int) : InPlace Unit := do
  let s ← get
  check (requireAdmin env admin s)
  check (requireNotPaused s)
  check (validateAmount amount)
  let cur := getBalance s user
  check (require (amount ≤ cur) .insufficientBalance)
  checkAndRecordDebitInPlace env.timestamp user amount
  let newBalance ← check (i128Sub cur amount)
  modify (putBalance user newBalance)

theorem InPlace.exec_bind (x : InPlace α) (f : α → InPlace β) (s : State) :
    (x >>= f).exec s = match x.exec s with
      | (.ok a, s₁) => (f a).exec s₁
      | (.error e, s₁) => (.error e, s₁) := by
  unfold InPlace.exec StateT.run ExceptT.run
  simp only [bind, ExceptT.bind, ExceptT.mk, StateT.bind]
  cases x s with
  | mk r s₁ => cases r <;> rfl

/-- A computation ends as an outcome says, and leaves the state alone if that is a failure. -/
def Mirrors (x : InPlace Unit) (y : Outcome ContractError State) (s : State) : Prop :=
  match y with
  | .ok s' => x.exec s = (.ok (), s')
  | .error f => x.exec s = (.error f, s)

theorem Mirrors.get {f : State → InPlace Unit} (h : Mirrors (f s) y s) :
    Mirrors (get >>= f) y s := h

theorem Mirrors.check {o : Outcome ContractError α} {f : α → InPlace Unit}
    {g : α → Outcome ContractError State} (h : ∀ a, o = .ok a → Mirrors (f a) (g a) s) :
    Mirrors (check o >>= f) (o >>= g) s := by
  cases o with
  | error e => rfl
  | ok a => exact h a rfl

/-- What follows a write must not fail. -/
theorem Mirrors.write {x : InPlace Unit} {f : Unit → InPlace Unit}
    {g : State → Outcome ContractError State} (h : Mirrors x y s)
    (hf : ∀ s₁, y = .ok s₁ → ∃ s₂, (f ()).exec s₁ = (.ok (), s₂) ∧ g s₁ = .ok s₂) :
    Mirrors (x >>= f) (y >>= g) s := by
  cases y with
  | error e =>
    change (x >>= f).exec s = (.error e, s)
    rw [InPlace.exec_bind, show x.exec s = (.error e, s) from h]
  | ok s₁ =>
    obtain ⟨s₂, hx, hg⟩ := hf s₁ rfl
    rw [bind_of_ok rfl, hg]
    change (x >>= f).exec s = (.ok (), s₂)
    rw [InPlace.exec_bind, show x.exec s = (.ok (), s₁) from h]
    exact hx

theorem checkAndRecordDebit_mirrors (timestamp : Nat) (user : Address) (amount : Int) (s : State) :
    Mirrors (checkAndRecordDebitInPlace timestamp user amount)
      (checkAndRecordDebit timestamp user amount s) s := by
  apply Mirrors.get
  unfold checkAndRecordDebit
  split
  · rfl
  · exact Mirrors.check fun _ _ => Mirrors.check fun _ _ => Mirrors.get
      (Mirrors.check fun _ _ => rfl)

theorem validateAmount_ok (h : validateAmount amount = .ok u) : 1 ≤ amount := by
  simp only [validateAmount, bind_ok, require_ok] at h
  obtain ⟨_, hmin, _⟩ := h
  exact hmin

/-- A debit writes only when nothing can fail any more. -/
theorem debit_mirrors (env : Env own) (admin user : Address) (amount : Int)
    (hb : InI128 (getBalance s user)) :
    Mirrors (debitInPlace env admin user amount) (debit env admin user amount s) s := by
  refine Mirrors.get (Mirrors.check fun _ _ => Mirrors.check fun _ _ =>
    Mirrors.check fun _ hamount => Mirrors.check fun _ hle => ?_)
  refine (checkAndRecordDebit_mirrors env.timestamp user amount s).write fun s₁ _ => ?_
  have hpos := validateAmount_ok hamount
  have hfits : InI128 (getBalance s user - amount) :=
    hb.of_nonneg (sub_nonneg.mpr (require_ok.mp hle)) (by omega)
  have hsub : (i128Sub (getBalance s user) amount : Outcome ContractError Int) =
      .ok (getBalance s user - amount) := i128Sub_ok.mpr ⟨hfits, rfl⟩
  rw [hsub]
  exact ⟨_, rfl, rfl⟩

theorem debitInPlace_rejected (hb : InI128 (getBalance s user))
    (h : (debitInPlace env admin user amount).exec s = (.error f, s')) : s' = s := by
  have hm := debit_mirrors env admin user amount hb
  unfold Mirrors at hm
  split at hm
  · cases hm.symm.trans h
  · cases hm.symm.trans h
    rfl

end Shelterflex.RentWallet
