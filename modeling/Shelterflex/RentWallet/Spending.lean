import Shelterflex.RentWallet.Rejection

/-! Balances and monthly spending over runs. -/

namespace Shelterflex.RentWallet
open Lib
set_option autoImplicit true

abbrev Step (own : Address) := Event State (Env own × Call) Output

abbrev History (own : Address) := List (Step own)

/-- The user that a call is about. -/
def Call.user : Call → Option Address
  | .credit _ user _ => user
  | .debit _ user _ => user
  | .setUserMonthlyCap _ user _ => user
  | _ => none

def Call.pays : Call → Bool
  | .credit _ _ _ => true
  | .debit _ _ _ => true
  | _ => false

inductive Changes (env : Env own) (s s' : State) : Call → Prop where
  | credit (hpos : 1 ≤ amount) (hi : InI128 (getBalance s user + amount))
      (hs : s' = putBalance user (getBalance s user + amount) s) :
      Changes env s s' (.credit admin user amount)
  | debit (hpos : 1 ≤ amount) (hle : amount ≤ getBalance s user)
      (hr : checkAndRecordDebit env.timestamp user amount s = .ok s₁)
      (hs : s' = putBalance user (getBalance s user - amount) s₁) :
      Changes env s s' (.debit admin user amount)
  | other (hc : c.pays = false) (hb : s'.balance = s.balance)
      (hm : s'.monthlySpent = s.monthlySpent) : Changes env s s' c

theorem credit_changes (h : credit env admin user amount s = .ok s') :
    Changes env s s' (.credit admin user amount) := by
  simp only [credit, bind_ok, require_ok, pure_ok] at h
  obtain ⟨_, _, _, _, _, hv, _, hi, rfl⟩ := h
  exact .credit (validateAmount_ok hv) hi rfl

theorem debit_changes (h : debit env admin user amount s = .ok s') :
    Changes env s s' (.debit admin user amount) := by
  simp only [debit, bind_ok, require_ok, i128Sub_ok, pure_ok] at h
  obtain ⟨_, _, _, _, _, hv, _, hle, s₁, hr, _, ⟨_, rfl⟩, rfl⟩ := h
  exact .debit (validateAmount_ok hv) hle hr rfl

theorem invoke_changes (h : invoke env s c = some (s', o)) : Changes env s s' c := by
  cases c with
  | credit admin user amount =>
    obtain ⟨_, hs, he⟩ := commit_some.mp h
    cases he
    exact credit_changes hs
  | debit admin user amount =>
    obtain ⟨_, hs, he⟩ := commit_some.mp h
    cases he
    exact debit_changes hs
  | setAdmin admin newAdmin | pause admin | unpause admin | setGuardian admin guardian
  | setUpgradeDelay admin delay | cancelUpgrade admin =>
    obtain ⟨_, hs, he⟩ := commit_some.mp h
    cases he
    simp only [setAdmin, pause, unpause, setGuardian, setUpgradeDelay, cancelUpgrade, bind_ok,
      pure_ok] at hs
    obtain ⟨_, _, rfl⟩ := hs
    exact .other rfl rfl rfl
  | proposeUpgrade admin hash version | setDefaultMonthlyCap admin cap
  | setUserMonthlyCap admin user cap =>
    obtain ⟨_, hs, he⟩ := commit_some.mp h
    cases he
    simp only [proposeUpgrade, setDefaultMonthlyCap, setUserMonthlyCap, bind_ok, pure_ok] at hs
    obtain ⟨_, _, _, _, rfl⟩ := hs
    exact .other rfl rfl rfl
  | executeUpgrade admin hash =>
    obtain ⟨_, hs, he⟩ := commit_some.mp h
    cases he
    simp only [executeUpgrade, bind_ok, pure_ok] at hs
    obtain ⟨_, _, rfl⟩ := hs
    exact .other rfl rfl rfl
  | emergencyUpgrade admin hash version =>
    obtain ⟨_, hs, he⟩ := commit_some.mp h
    cases he
    simp only [emergencyUpgrade, bind_ok, pure_ok] at hs
    obtain ⟨_, _, _, _, rfl⟩ := hs
    exact .other rfl rfl rfl

/-- The state once a debit is recorded under its month. -/
def recorded (user : Address) (key : Nat) (amount : Int) (s : State) : State :=
  { s with
    monthlySpent := s.monthlySpent.set (user, key) (getMonthlySpent s user key + amount) }

theorem checkAndRecordDebit_ok (h : checkAndRecordDebit timestamp user amount s = .ok s₁) :
    effectiveCap s user = 0 ∧ s₁ = s ∨
      effectiveCap s user ≠ 0 ∧
        getMonthlySpent s user (currentMonthKey timestamp) + amount ≤ effectiveCap s user ∧
        s₁ = recorded user (currentMonthKey timestamp) amount s := by
  unfold checkAndRecordDebit at h
  split at h
  · exact .inl ⟨‹_›, (pure_ok.mp h).symm⟩
  · simp only [recordMonthlySpent, bind_ok, require_ok, i128Add_ok, pure_ok] at h
    obtain ⟨_, ⟨_, rfl⟩, _, hle, _, ⟨_, rfl⟩, rfl⟩ := h
    exact .inr ⟨‹_›, hle, rfl⟩

theorem checkAndRecordDebit_balance (h : checkAndRecordDebit timestamp user amount s = .ok s₁) :
    s₁.balance = s.balance := by
  rcases checkAndRecordDebit_ok h with ⟨_, rfl⟩ | ⟨_, _, rfl⟩ <;> rfl

def credited (user : Address) (e : Step own) : Int :=
  match e.input.2 with
  | .credit _ u amount => if user = u then amount else 0
  | _ => 0

def debited (user : Address) (e : Step own) : Int :=
  match e.input.2 with
  | .debit _ u amount => if user = u then amount else 0
  | _ => 0

/-- The period of thirty days in which a call is made. -/
def bucket (e : Step own) : Nat := e.input.1.timestamp / secondsPerMonth

def debitedIn (user : Address) (k : Nat) (e : Step own) : Int :=
  if bucket e = k then debited user e else 0

def total (f : Step own → Int) (t : History own) : Int := (t.map f).sum

theorem total_cons (f : Step own → Int) (e : Step own) (t : History own) :
    total f (e :: t) = f e + total f t := rfl

def DebitsIn (user : Address) (k : Nat) (e : Step own) : Prop :=
  match e.input.2 with
  | .debit _ u _ => user = u ∧ bucket e = k
  | _ => False

structure SpendingLaw (t : History own) (s : State) : Prop where
  balance : ∀ user, getBalance s user = total (credited user) t - total (debited user) t
  nonneg : ∀ user, 0 ≤ getBalance s user
  capped : ∀ user k c, 0 < c → (∀ e ∈ t, DebitsIn user k e → effectiveCap e.pre user = c) →
    total (debitedIn user k) t ≤ c
  rejected : ∀ (env : Env own) admin user amount f s',
    (debitInPlace env admin user amount).exec s = (.error f, s') → s' = s
  frame : ∀ e ∈ t, ∀ user, e.input.2.user ≠ some user →
    getBalance e.post user = getBalance e.pre user ∧
      ∀ key, getMonthlySpent e.post user key = getMonthlySpent e.pre user key

theorem getBalance_put (s : State) (user u : Address) (n : Int) :
    getBalance (putBalance user n s) u = if u = user then n else getBalance s u :=
  Store.getD_set _ _ _ _ _

theorem getBalance_congr (h : s'.balance = s.balance) (u : Address) :
    getBalance s' u = getBalance s u := by
  rw [getBalance, h, getBalance]

theorem Changes.balance {e : Step own} (h : Changes e.input.1 e.pre e.post e.input.2)
    (u : Address) : getBalance e.post u = getBalance e.pre u + credited u e - debited u e := by
  obtain ⟨pre, ⟨env, c⟩, o, post⟩ := e
  change Changes env pre post c at h
  cases h with
  | credit _ _ hs =>
    rw [hs, getBalance_put]
    simp only [credited, debited, sub_zero]
    split
    · rw [‹u = _›]
    · exact (add_zero _).symm
  | debit _ _ hr hs =>
    rw [hs, getBalance_put, getBalance_congr (checkAndRecordDebit_balance hr)]
    simp only [credited, debited, add_zero]
    split
    · rw [‹u = _›]
    · exact (sub_zero _).symm
  | other hc hb =>
    rw [getBalance_congr hb]
    cases c with
    | credit _ _ _ | debit _ _ _ => cases hc
    | _ => simp only [credited, debited, add_zero, sub_zero]

theorem Changes.nonneg {e : Step own} (h : Changes e.input.1 e.pre e.post e.input.2)
    (hn : ∀ u, 0 ≤ getBalance e.pre u ∧ InI128 (getBalance e.pre u)) (u : Address) :
    0 ≤ getBalance e.post u ∧ InI128 (getBalance e.post u) := by
  obtain ⟨pre, ⟨env, c⟩, o, post⟩ := e
  change Changes env pre post c at h
  cases h with
  | credit hpos hi hs =>
    rw [hs, getBalance_put]
    split
    · exact ⟨add_nonneg (hn _).1 (by omega), hi⟩
    · exact hn u
  | @debit amount user _ _ hpos hle hr hs =>
    rw [hs, getBalance_put, getBalance_congr (checkAndRecordDebit_balance hr)]
    split
    · have hleft : 0 ≤ getBalance pre user - amount := sub_nonneg.mpr hle
      exact ⟨hleft, (hn user).2.of_nonneg hleft (sub_le_self _ (by omega))⟩
    · exact hn u
  | other _ hb =>
    rw [getBalance_congr hb]
    exact hn u

theorem getMonthlySpent_recorded (s : State) (user u : Address) (key k : Nat) (n : Int) :
    getMonthlySpent (recorded user key n s) u k =
      if (u, k) = (user, key) then getMonthlySpent s user key + n else getMonthlySpent s u k :=
  Store.getD_set _ _ _ _ _

theorem Changes.frame {e : Step own} (h : Changes e.input.1 e.pre e.post e.input.2)
    (hu : e.input.2.user ≠ some u) : getBalance e.post u = getBalance e.pre u ∧
      ∀ key, getMonthlySpent e.post u key = getMonthlySpent e.pre u key := by
  obtain ⟨pre, ⟨env, c⟩, o, post⟩ := e
  change Changes env pre post c at h
  cases h with
  | credit _ _ hs =>
    have hne : u ≠ _ := fun he => hu (congrArg some he.symm)
    rw [hs, getBalance_put, if_neg hne]
    exact ⟨rfl, fun _ => rfl⟩
  | debit _ _ hr hs =>
    have hne : u ≠ _ := fun he => hu (congrArg some he.symm)
    rw [hs, getBalance_put, if_neg hne, getBalance_congr (checkAndRecordDebit_balance hr)]
    refine ⟨rfl, fun key => ?_⟩
    rcases checkAndRecordDebit_ok hr with ⟨_, rfl⟩ | ⟨_, _, rfl⟩
    · rfl
    · exact (getMonthlySpent_recorded _ _ _ _ _ _).trans
        (if_neg fun he => hne (Prod.mk.inj he).1)
  | other _ hb hm =>
    refine ⟨getBalance_congr hb u, fun key => ?_⟩
    rw [getMonthlySpent, hm, getMonthlySpent]

/-- Before the key wraps around, it is the number of the period. -/
theorem currentMonthKey_eq (h : timestamp < 2 ^ 32 * secondsPerMonth) :
    currentMonthKey timestamp = timestamp / secondsPerMonth :=
  Nat.mod_eq_of_lt (Nat.div_lt_of_lt_mul (mul_comm (2 ^ 32) secondsPerMonth ▸ h))

/-- The months agree with the periods, and the debits of a user in one of them find one cap. -/
structure Steady (user : Address) (k : Nat) (c : Int) (e : Step own) : Prop where
  time : e.input.1.timestamp < 2 ^ 32 * secondsPerMonth
  cap : DebitsIn user k e → effectiveCap e.pre user = c

/-- What is recorded for a month is what was debited in it, within the cap. -/
structure Capped (user : Address) (k : Nat) (c : Int) (t : History own) (s : State) : Prop where
  recorded : getMonthlySpent s user k = total (debitedIn user k) t
  within : total (debitedIn user k) t ≤ c

theorem Capped.skip {e : Step own} (h : Capped user k c t e.pre)
    (hs : getMonthlySpent e.post user k = getMonthlySpent e.pre user k)
    (hz : debitedIn user k e = 0) : Capped user k c (e :: t) e.post := by
  constructor
  · rw [hs, h.recorded, total_cons, hz, zero_add]
  · rw [total_cons, hz, zero_add]
    exact h.within

theorem debitedIn_eq_zero {e : Step own} (h : ¬ DebitsIn user k e) : debitedIn user k e = 0 := by
  obtain ⟨pre, ⟨env, c⟩, o, post⟩ := e
  unfold debitedIn debited
  split
  · cases c with
    | debit admin u amount => exact if_neg fun hu => h ⟨hu, ‹_›⟩
    | _ => rfl
  · rfl

theorem Changes.spent_other {e : Step own} (h : Changes e.input.1 e.pre e.post e.input.2)
    (ht : e.input.1.timestamp < 2 ^ 32 * secondsPerMonth) (hd : ¬ DebitsIn user k e) :
    getMonthlySpent e.post user k = getMonthlySpent e.pre user k := by
  obtain ⟨pre, ⟨env, c⟩, o, post⟩ := e
  change Changes env pre post c at h
  cases h with
  | credit _ _ hs =>
    rw [hs]
    rfl
  | debit _ _ hr hs =>
    rw [hs]
    rcases checkAndRecordDebit_ok hr with ⟨_, rfl⟩ | ⟨_, _, rfl⟩
    · rfl
    · refine (getMonthlySpent_recorded _ _ _ _ _ _).trans (if_neg fun he => hd ?_)
      obtain ⟨hu, hk⟩ := Prod.mk.inj he
      exact ⟨hu, (hk.trans (currentMonthKey_eq ht)).symm⟩
  | other _ _ hm => rw [getMonthlySpent, hm, getMonthlySpent]

/-- A debit under a cap is recorded for its period, and stays within the cap. -/
theorem Changes.spent_debit {e : Step own} (h : Changes e.input.1 e.pre e.post e.input.2)
    (ht : e.input.1.timestamp < 2 ^ 32 * secondsPerMonth) (hd : DebitsIn user k e)
    (hc : effectiveCap e.pre user ≠ 0) :
    getMonthlySpent e.post user k = getMonthlySpent e.pre user k + debitedIn user k e ∧
      getMonthlySpent e.pre user k + debitedIn user k e ≤ effectiveCap e.pre user := by
  obtain ⟨pre, ⟨env, c⟩, o, post⟩ := e
  change Changes env pre post c at h
  cases h with
  | @debit amount u _ _ _ _ hr hs =>
    obtain ⟨rfl, hk⟩ := hd
    have hkey : currentMonthKey env.timestamp = k := (currentMonthKey_eq ht).trans hk
    have hamount (a : Address) :
        debitedIn user k ⟨pre, (env, .debit a user amount), o, post⟩ = amount :=
      (if_pos hk).trans (if_pos rfl)
    rcases checkAndRecordDebit_ok hr with ⟨hz, _⟩ | ⟨_, hle, rfl⟩
    · exact absurd hz hc
    · rw [hkey] at hle hs
      rw [hamount, hs]
      exact ⟨(getMonthlySpent_recorded _ _ _ _ _ _).trans (if_pos rfl), hle⟩
  | other hp =>
    cases c with
    | debit _ _ _ => cases hp
    | _ => cases hd
  | credit => cases hd

theorem Capped.step {e : Step own} (h : Capped user k c t e.pre) (hc : c ≠ 0)
    (hch : Changes e.input.1 e.pre e.post e.input.2) (hst : Steady user k c e) :
    Capped user k c (e :: t) e.post := by
  by_cases hd : DebitsIn user k e
  · have hcap := hst.cap hd
    obtain ⟨hrecorded, hle⟩ := hch.spent_debit hst.time hd (hcap ▸ hc)
    rw [h.recorded] at hrecorded hle
    rw [hcap] at hle
    constructor
    · rw [hrecorded, total_cons, add_comm]
    · rw [total_cons, add_comm]
      exact hle
  · exact h.skip (hch.spent_other hst.time hd) (debitedIn_eq_zero hd)

section
variable {own : Address}

theorem run_balance (h : (machine own).Run (initialized admin) t s) (u : Address) :
    getBalance s u = total (credited u) t - total (debited u) t := by
  apply h.invariant (P := fun t s => getBalance s u = total (credited u) t - total (debited u) t)
  · rfl
  · intro t s i s' o hb he
    have hstep := (invoke_changes he).balance (e := ⟨s, i, o, s'⟩) u
    simp only [total_cons] at *
    omega

theorem run_nonneg (h : (machine own).Run (initialized admin) t s) :
    ∀ u, 0 ≤ getBalance s u ∧ InI128 (getBalance s u) := by
  apply h.invariant (P := fun _ s => ∀ u, 0 ≤ getBalance s u ∧ InI128 (getBalance s u))
  · exact fun u => ⟨le_rfl, inI128_zero⟩
  · intro t s i s' o hn he
    exact (invoke_changes he).nonneg (e := ⟨s, i, o, s'⟩) hn

theorem run_capped (h : (machine own).Run (initialized admin) t s) (hc : 0 < c)
    (hs : ∀ e ∈ t, Steady user k c e) : Capped user k c t s := by
  apply h.invariant_of (P := Capped user k c) hs
  · exact ⟨rfl, hc.le⟩
  · exact fun hp he hst => hp.step (e := ⟨_, _, _, _⟩) hc.ne' (invoke_changes he) hst

/-- The spending law of every run in which the months have not wrapped around. -/
theorem spending_law (h : (machine own).Run (initialized admin) t s)
    (ht : ∀ e ∈ t, e.input.1.timestamp < 2 ^ 32 * secondsPerMonth) : SpendingLaw t s where
  balance := run_balance h
  nonneg u := (run_nonneg h u).1
  capped _ _ _ hc hcap := (run_capped h hc fun e he => ⟨ht e he, hcap e he⟩).within
  rejected _ _ _ _ _ _ hr := debitInPlace_rejected (run_nonneg h _).2 hr
  frame _ he _ hu := (invoke_changes (h.committed he).2).frame hu

end

/-- A user with a cap of fifty spends it in two debits of one month. -/
def cappedCalls : List (Env ⟨0⟩ × Call) :=
  [(.signed ⟨0⟩ 0, .credit ⟨1⟩ ⟨2⟩ 100), (.signed ⟨0⟩ 1, .setUserMonthlyCap ⟨1⟩ ⟨2⟩ 50),
    (.signed ⟨0⟩ 2, .debit ⟨1⟩ ⟨2⟩ 20), (.signed ⟨0⟩ 3, .debit ⟨1⟩ ⟨2⟩ 30)]

theorem spending_law_capped :
    SpendingLaw ((machine ⟨0⟩).replay (initialized ⟨1⟩) cappedCalls).1
      ((machine ⟨0⟩).replay (initialized ⟨1⟩) cappedCalls).2 :=
  spending_law ((machine ⟨0⟩).run_replay (initialized ⟨1⟩) cappedCalls) (by decide)

end Shelterflex.RentWallet
