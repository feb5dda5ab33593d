import Shelterflex.StakingPool.Lock

/-! Which amounts `unstake` accepts, and which deposits it takes them from. -/

namespace Shelterflex.StakingPool
open Lib
set_option autoImplicit true

/-- The unlock time of a deposit is a `u64`. -/
def Deposit.Timely (lockPeriod : Nat) (d : Deposit) : Prop :=
  lockPeriod = 0 ∨ d.timestamp + lockPeriod < 2 ^ 64

def Timely (lockPeriod : Nat) (s : State) (user : Address) : Prop :=
  ∀ i < getDepositCount s user, ∀ d, getDeposit s user i = some d → d.Timely lockPeriod

def unlockedDeposit (lockPeriod currentTime : Nat) (s : State) (user : Address) (i : Nat) :
    Option Deposit :=
  (getDeposit s user i).filter fun d => d.Unlocked lockPeriod currentTime

def lockedDeposit (lockPeriod currentTime : Nat) (s : State) (user : Address) (i : Nat) :
    Option Deposit :=
  (getDeposit s user i).filter fun d => ¬ d.Unlocked lockPeriod currentTime

/-- The unlocked deposits of a user, in the order of their indices. -/
def unlockedDeposits (lockPeriod currentTime : Nat) (s : State) (user : Address) : List Deposit :=
  (List.range (getDepositCount s user)).filterMap (unlockedDeposit lockPeriod currentTime s user)

def totalOf (ds : List Deposit) : Int := (ds.map Deposit.amount).sum

/-- What is left of a sequence of deposits when an amount is removed from its front. -/
def removeFront (amount : Int) : List Deposit → List Deposit
  | [] => []
  | d :: ds =>
    if d.amount ≤ amount then removeFront (amount - d.amount) ds
    else { d with amount := d.amount - amount } :: ds

theorem removeFront_zero {ds : List Deposit} (h : ∀ d ∈ ds, 0 < d.amount) :
    removeFront 0 ds = ds := by
  cases ds with
  | nil => rfl
  | cons d ds =>
    rw [removeFront, if_neg (not_le.mpr (h d List.mem_cons_self)), sub_zero]

theorem totalOf_removeFront (ds : List Deposit) (hn : 0 ≤ n) (hle : n ≤ totalOf ds) :
    totalOf (removeFront n ds) = totalOf ds - n := by
  have hcons (d : Deposit) (ds : List Deposit) : totalOf (d :: ds) = d.amount + totalOf ds := rfl
  induction ds generalizing n with
  | nil =>
    have hz : n = 0 := le_antisymm hle hn
    rw [hz, sub_zero]
    rfl
  | cons d ds ih =>
    rw [hcons] at hle
    rw [removeFront, hcons]
    split
    · rw [ih (by omega) (by omega)]
      omega
    · change d.amount - n + totalOf ds = d.amount + totalOf ds - n
      omega

theorem totalOf_unlocked (lockPeriod currentTime : Nat) (s : State) (user : Address) :
    totalOf (unlockedDeposits lockPeriod currentTime s user) =
      unlockedSum lockPeriod currentTime s user := by
  have hone (i : Nat) : totalOf (unlockedDeposit lockPeriod currentTime s user i).toList =
      unlockedAt lockPeriod currentTime s user i := by
    rw [unlockedDeposit, unlockedAt]
    cases getDeposit s user i with
    | none => rfl
    | some d =>
      by_cases hu : d.Unlocked lockPeriod currentTime
      · simp [Option.filter, hu, totalOf]
      · simp [Option.filter, hu, totalOf]
  rw [unlockedDeposits, unlockedSum]
  induction List.range (getDepositCount s user) with
  | nil => rfl
  | cons i is ih =>
    rw [List.map_cons, List.sum_cons, ← hone, ← ih]
    cases hd : unlockedDeposit lockPeriod currentTime s user i with
    | none =>
      rw [List.filterMap_cons_none hd]
      exact (zero_add _).symm
    | some d =>
      rw [List.filterMap_cons_some hd]
      exact congrArg (· + _) (add_zero d.amount).symm

/-! The two loops -/

theorem isUnlocked_iff : isUnlocked lockPeriod currentTime d = .ok b ↔
    d.Timely lockPeriod ∧ decide (d.Unlocked lockPeriod currentTime) = b := by
  unfold isUnlocked Deposit.Timely Deposit.Unlocked
  split
  · rename_i hl
    simp only [pure_ok, hl, true_or, decide_true, true_and]
  · rename_i hl
    simp only [bind_ok, u64Add_ok, pure_ok, hl, false_or]
    constructor
    · rintro ⟨_, ⟨hfit, rfl⟩, rfl⟩
      exact ⟨hfit, rfl⟩
    · rintro ⟨hfit, rfl⟩
      exact ⟨_, ⟨hfit, rfl⟩, rfl⟩

theorem addUnlocked_iff : addUnlocked lockPeriod currentTime user s n i = .ok m ↔
    (∀ d, getDeposit s user i = some d → d.Timely lockPeriod) ∧
      (unlockedDeposit lockPeriod currentTime s user i ≠ none →
        InI128 (n + unlockedAt lockPeriod currentTime s user i)) ∧
      n + unlockedAt lockPeriod currentTime s user i = m := by
  unfold addUnlocked unlockedDeposit unlockedAt
  cases getDeposit s user i with
  | none => simp [pure_ok]
  | some d =>
    by_cases hu : d.Unlocked lockPeriod currentTime
    · simp [Option.filter, hu, bind_ok, isUnlocked_iff, i128Add_ok]
    · simp [Option.filter, hu, bind_ok, isUnlocked_iff, pure_ok]

/-- The first loop succeeds when every unlock time is a `u64`, since its sums stay in range. -/
theorem addUnlocked_fold_iff (hp : Positive s) {is : List Nat} (hn : 0 ≤ n)
    (hfit : InI128 (n + (is.map (unlockedAt lockPeriod currentTime s user)).sum)) :
    is.foldlM (addUnlocked lockPeriod currentTime user s) n = .ok m ↔
      (∀ i ∈ is, ∀ d, getDeposit s user i = some d → d.Timely lockPeriod) ∧
        n + (is.map (unlockedAt lockPeriod currentTime s user)).sum = m := by
  induction is generalizing n with
  | nil => simp [pure_ok]
  | cons i is ih =>
    have hu := unlockedAt_nonneg hp lockPeriod currentTime user i
    have hrest : 0 ≤ (is.map (unlockedAt lockPeriod currentTime s user)).sum := by
      apply List.sum_nonneg
      intro x hx
      obtain ⟨j, _, rfl⟩ := List.mem_map.mp hx
      exact unlockedAt_nonneg hp lockPeriod currentTime user j
    rw [List.map_cons, List.sum_cons, ← add_assoc] at hfit ⊢
    have hstep := hfit.of_nonneg (add_nonneg hn hu) (le_add_of_nonneg_right hrest)
    have ih := ih (add_nonneg hn hu) hfit
    simp only [List.foldlM_cons, bind_ok, addUnlocked_iff, List.forall_mem_cons]
    constructor
    · rintro ⟨_, ⟨ht, _, rfl⟩, h⟩
      obtain ⟨hall, rfl⟩ := ih.mp h
      exact ⟨⟨ht, hall⟩, rfl⟩
    · rintro ⟨⟨ht, hall⟩, rfl⟩
      exact ⟨_, ⟨ht, fun _ => hstep, rfl⟩, ih.mpr ⟨hall, rfl⟩⟩

theorem unlockedDeposit_of_some (h : getDeposit s user i = some d) :
    unlockedDeposit lockPeriod currentTime s user i =
      if d.Unlocked lockPeriod currentTime then some d else none := by
  simp only [unlockedDeposit, h, Option.filter_some, decide_eq_true_eq]

theorem unlockedDeposit_of_not
    (h : ∀ d, getDeposit s user i = some d → ¬ d.Unlocked lockPeriod currentTime) :
    unlockedDeposit lockPeriod currentTime s user i = none := by
  cases hd : getDeposit s user i with
  | none => rw [unlockedDeposit, hd, Option.filter_none]
  | some d => rw [unlockedDeposit_of_some hd, if_neg (h d hd)]

theorem consumeDeposit_front {r r' : Int × State} {ds : List Deposit}
    (h : consumeDeposit lockPeriod currentTime user r i = .ok r') (hp : Positive r.2)
    (hds : ∀ d ∈ ds, 0 < d.amount) :
    (unlockedDeposit lockPeriod currentTime r'.2 user i).toList ++ removeFront r'.1 ds =
      removeFront r.1 ((unlockedDeposit lockPeriod currentTime r.2 user i).toList ++ ds) := by
  rcases consumeDeposit_cases h with ⟨rfl, hz | hl⟩ | ⟨d, hd, hu, ht⟩
  · have hall : ∀ d ∈ (unlockedDeposit lockPeriod currentTime r'.2 user i).toList ++ ds,
        0 < d.amount := by
      intro d hd
      rcases List.mem_append.mp hd with hd | hd
      · exact hp user i d (Option.mem_filter_iff.mp (Option.mem_toList.mp hd)).1
      · exact hds d hd
    rw [hz, removeFront_zero hds, removeFront_zero hall]
  · rw [unlockedDeposit_of_not hl]
    rfl
  · rw [unlockedDeposit_of_some hd, if_pos hu]
    change _ = removeFront r.1 (d :: ds)
    unfold takeFrom at ht
    rw [removeFront]
    split at ht
    · rename_i hle
      simp only [bind_ok, i128Sub_ok, pure_ok] at ht
      obtain ⟨_, ⟨_, rfl⟩, rfl⟩ := ht
      rw [if_pos hle, unlockedDeposit, getDeposit, Store.get_remove_self]
      rfl
    · rename_i hle
      simp only [bind_ok, i128Sub_ok, pure_ok] at ht
      obtain ⟨_, ⟨_, rfl⟩, rfl⟩ := ht
      have hleft : getDeposit { r.2 with
          deposit := r.2.deposit.set (user, i) { d with amount := d.amount - r.1 } } user i =
            some { d with amount := d.amount - r.1 } := Store.get_set_self _ _ _
      have hu' : Deposit.Unlocked lockPeriod currentTime { d with amount := d.amount - r.1 } := hu
      rw [if_neg hle, unlockedDeposit_of_some hleft, if_pos hu', removeFront_zero hds]
      rfl

/-- The second loop removes the demand from the front of the unlocked deposits. -/
theorem consumeDeposit_fold_front {r r' : Int × State} {is : List Nat}
    (h : is.foldlM (consumeDeposit lockPeriod currentTime user) r = .ok r') (his : is.Nodup)
    (hp : Positive r.2) (hr : 0 ≤ r.1) :
    is.filterMap (unlockedDeposit lockPeriod currentTime r'.2 user) =
      removeFront r.1 (is.filterMap (unlockedDeposit lockPeriod currentTime r.2 user)) := by
  have hcons (s : State) (i : Nat) (is : List Nat) :
      (i :: is).filterMap (unlockedDeposit lockPeriod currentTime s user) =
        (unlockedDeposit lockPeriod currentTime s user i).toList ++
          is.filterMap (unlockedDeposit lockPeriod currentTime s user) := by
    cases hd : unlockedDeposit lockPeriod currentTime s user i with
    | none => exact List.filterMap_cons_none hd
    | some d => exact List.filterMap_cons_some hd
  induction is generalizing r with
  | nil => rfl
  | cons i is ih =>
    obtain ⟨hi, his⟩ := List.nodup_cons.mp his
    simp only [List.foldlM_cons, bind_ok] at h
    obtain ⟨r₁, h₁, h⟩ := h
    obtain ⟨hm, ht⟩ := consumeDeposit_ok h₁ hp hr
    have hr₁ : 0 ≤ r₁.1 := by omega
    have hlast : unlockedDeposit lockPeriod currentTime r'.2 user i =
        unlockedDeposit lockPeriod currentTime r₁.2 user i := by
      have hother := (consumeDeposit_fold h his ht.positive hr₁).2.2.2.1 user i (.inr hi)
      rw [unlockedDeposit, unlockedDeposit, hother]
    have hsame : is.filterMap (unlockedDeposit lockPeriod currentTime r₁.2 user) =
        is.filterMap (unlockedDeposit lockPeriod currentTime r.2 user) := by
      refine List.filterMap_congr fun j hj => ?_
      rw [unlockedDeposit, unlockedDeposit, ht.same hi hj]
    have hpos : ∀ d ∈ is.filterMap (unlockedDeposit lockPeriod currentTime r.2 user),
        0 < d.amount := by
      intro d hd
      obtain ⟨j, _, hj⟩ := List.mem_filterMap.mp hd
      exact hp user j d (Option.filter_eq_some_iff.mp hj).1
    rw [hcons, hcons, hlast, ih h his ht.positive hr₁, hsame]
    exact consumeDeposit_front h₁ hp hpos

theorem consumeDeposit_locked {r r' : Int × State}
    (h : consumeDeposit lockPeriod currentTime user r i = .ok r') :
    lockedDeposit lockPeriod currentTime r'.2 user j =
      lockedDeposit lockPeriod currentTime r.2 user j := by
  rcases consumeDeposit_cases h with ⟨rfl, _⟩ | ⟨d, hd, hu, ht⟩
  · rfl
  · have hdrop : lockedDeposit lockPeriod currentTime r.2 user i = none := by
      simp only [lockedDeposit, hd, Option.filter_some, hu, not_true, decide_false,
        Bool.false_eq_true, if_false]
    unfold takeFrom at ht
    split at ht
    · simp only [bind_ok, i128Sub_ok, pure_ok] at ht
      obtain ⟨_, ⟨_, rfl⟩, rfl⟩ := ht
      by_cases hj : j = i
      · subst hj
        rw [hdrop, lockedDeposit, getDeposit, Store.get_remove_self, Option.filter_none]
      · have hne : (user, j) ≠ (user, i) := fun he => hj (Prod.mk.inj he).2
        rw [lockedDeposit, getDeposit, Store.get_remove_of_ne _ hne]
        rfl
    · simp only [bind_ok, i128Sub_ok, pure_ok] at ht
      obtain ⟨_, ⟨_, rfl⟩, rfl⟩ := ht
      by_cases hj : j = i
      · subst hj
        have hu' : Deposit.Unlocked lockPeriod currentTime { d with amount := d.amount - r.1 } := hu
        rw [hdrop, lockedDeposit, getDeposit, Store.get_set_self, Option.filter_some]
        exact if_neg (by simpa using hu')
      · have hne : (user, j) ≠ (user, i) := fun he => hj (Prod.mk.inj he).2
        rw [lockedDeposit, getDeposit, Store.get_set_of_ne _ _ hne]
        rfl

/-- The second loop does not fail on what the first one let pass. -/
theorem consumeDeposit_enabled {r : Int × State} (hp : Positive r.2)
    (ht : ∀ d, getDeposit r.2 user i = some d → d.Timely lockPeriod) (hr : 0 ≤ r.1)
    (hfit : InI128 r.1) (hu : InI128 (unlockedAt lockPeriod currentTime r.2 user i)) :
    ∃ r', consumeDeposit lockPeriod currentTime user r i = .ok r' := by
  unfold consumeDeposit
  split
  · exact ⟨r, rfl⟩
  · cases hd : getDeposit r.2 user i with
    | none => exact ⟨r, rfl⟩
    | some d =>
      have hpos := hp user i d hd
      simp only [bind_ok, isUnlocked_iff]
      by_cases hx : d.Unlocked lockPeriod currentTime
      · rw [unlockedAt_of_some hd hx] at hu
        have htake : ∃ r', takeFrom user i d r.1 r.2 = .ok r' := by
          unfold takeFrom
          split
          · rename_i hle
            have hrest := hfit.of_nonneg (sub_nonneg.mpr hle) (sub_le_self _ hpos.le)
            exact ⟨_, bind_of_ok (i128Sub_ok.mpr ⟨hrest, rfl⟩) _⟩
          · rename_i hlt
            have hle := (not_le.mp hlt).le
            have hrest := hu.of_nonneg (sub_nonneg.mpr hle) (sub_le_self _ hr)
            exact ⟨_, bind_of_ok (i128Sub_ok.mpr ⟨hrest, rfl⟩) _⟩
        obtain ⟨r', htake⟩ := htake
        exact ⟨r', _, ⟨ht d hd, decide_eq_true hx⟩, htake⟩
      · exact ⟨r, _, ⟨ht d hd, decide_eq_false hx⟩, rfl⟩

theorem consumeDeposit_fold_enabled {r : Int × State} {is : List Nat} (his : is.Nodup)
    (hp : Positive r.2)
    (ht : ∀ i ∈ is, ∀ d, getDeposit r.2 user i = some d → d.Timely lockPeriod) (hr : 0 ≤ r.1)
    (hfit : InI128 r.1)
    (hu : ∀ i ∈ is, InI128 (unlockedAt lockPeriod currentTime r.2 user i)) :
    ∃ r', is.foldlM (consumeDeposit lockPeriod currentTime user) r = .ok r' := by
  induction is generalizing r with
  | nil => exact ⟨r, rfl⟩
  | cons i is ih =>
    obtain ⟨hi, his⟩ := List.nodup_cons.mp his
    rw [List.forall_mem_cons] at ht hu
    obtain ⟨r₁, h₁⟩ := consumeDeposit_enabled hp ht.1 hr hfit hu.1
    obtain ⟨hm, htakes⟩ := consumeDeposit_ok h₁ hp hr
    have hn := unlockedAt_nonneg hp lockPeriod currentTime user i
    have hr₁ : 0 ≤ r₁.1 := by omega
    have hfit₁ := hfit.of_nonneg hr₁ (by omega)
    have htail : ∃ r', is.foldlM (consumeDeposit lockPeriod currentTime user) r₁ = .ok r' := by
      refine ih his htakes.positive ?_ hr₁ hfit₁ ?_
      · intro j hj d hd
        rw [htakes.same hi hj] at hd
        exact ht.2 j hj d hd
      · intro j hj
        rw [unlockedAt_congr (htakes.same hi hj)]
        exact hu.2 j hj
    obtain ⟨r', h⟩ := htail
    exact ⟨r', (List.foldlM_cons).trans ((bind_of_ok h₁ _).trans h)⟩

/-! The pool in every reachable state -/

/-- The pool can pay, and its records are in range. -/
structure Ready (s : State) : Prop where
  token : s.token ≠ none
  reentrancy : s.reentrancy.getD false = false
  staked : ∀ user, InI128 (getStakedBalance s user)
  total : InI128 (getTotalStaked s)

theorem amountAt_nonneg (hp : Positive s) (user : Address) (i : Nat) : 0 ≤ amountAt s user i := by
  unfold amountAt
  cases hd : getDeposit s user i with
  | none => exact le_rfl
  | some d => exact (hp user i d hd).le

theorem depositSum_nonneg (hp : Positive s) (user : Address) : 0 ≤ depositSum s user := by
  apply List.sum_nonneg
  intro x hx
  obtain ⟨i, _, rfl⟩ := List.mem_map.mp hx
  exact amountAt_nonneg hp user i

theorem unlockedAt_le (hp : Positive s) (lockPeriod currentTime : Nat) (user : Address) (i : Nat) :
    unlockedAt lockPeriod currentTime s user i ≤ amountAt s user i := by
  unfold unlockedAt amountAt
  cases hd : getDeposit s user i with
  | none => exact le_rfl
  | some d =>
    simp only [Option.map_some, Option.getD_some]
    split
    · exact le_rfl
    · exact (hp user i d hd).le

theorem unlockedSum_le (hp : Positive s) (lockPeriod currentTime : Nat) (user : Address) :
    unlockedSum lockPeriod currentTime s user ≤ depositSum s user :=
  List.sum_le_sum fun i _ => unlockedAt_le hp lockPeriod currentTime user i

section
variable {own : Address} {tok : Token T} {env : Env own} {w w' : World T}

theorem Books.staked_bounds (hb : Books s) (user : Address) :
    0 ≤ getStakedBalance s user ∧ getStakedBalance s user ≤ getTotalStaked s := by
  have hn (u) : 0 ≤ getStakedBalance s u := hb.staked u ▸ depositSum_nonneg hb.positive u
  have hf : (getStakedBalance s).support.Finite :=
    s.stakedBalance.support_finite fun u hu => by rw [getStakedBalance, Store.getD, hu]; rfl
  exact ⟨hn user, hb.total ▸ le_finsum hf hn user⟩

theorem stake_ready (hr : Ready w.pool) (h : stake tok env source amount w = .ok w') :
    Ready w'.pool := by
  have hw := (stake_writes h).2.2
  simp only [stake, bind_ok, enterNonreentrant, enter_ok, i128Add_ok] at h
  obtain ⟨_, _, _, _, _, _, _, ⟨_, ⟨_, rfl⟩, hs⟩, _, _, _, ⟨hbal, _⟩, _, ⟨htot, _⟩, _⟩ := h
  cases hs
  refine ⟨hw ▸ hr.token, hw ▸ rfl, fun user => ?_, hw ▸ htot⟩
  have hset : getStakedBalance w'.pool user =
      if user = source then getStakedBalance w.pool source + amount
      else getStakedBalance w.pool user := by
    rw [hw]
    exact Store.getD_set ..
  rw [hset]
  split
  · exact hbal
  · exact hr.staked user

theorem unstake_ready (hb : Books w.pool) (hr : Ready w.pool)
    (h : unstake tok env target amount w = .ok w') : Ready w'.pool := by
  obtain ⟨ha, _, hle, r, hfold, hw⟩ := unstake_writes h
  obtain ⟨D, hD⟩ := (consumeDeposit_fold hfold List.nodup_range hb.positive ha.le).2.1
  have hsh := (unstake_ok hb h).2.2
  have hb' := hsh.books hb
  refine ⟨?_, hw ▸ rfl, fun user => ?_, ?_⟩
  · rw [hw, hD]
    exact hr.token
  · refine (hr.staked user).of_nonneg (hb'.staked_bounds user).1 ?_
    rw [hsh.staked]
    split <;> omega
  · have hn := hb'.staked_bounds target
    refine hr.total.of_nonneg (hn.1.trans hn.2) ?_
    rw [hsh.total]
    omega

theorem act_ready {a : Action own T} (hb : Books w.pool) (hr : Ready w.pool)
    (h : act tok w a = some (w', o)) : Ready w'.pool := by
  cases a with
  | traffic t =>
    simp only [act, Option.ite_none_right_eq_some, Option.some.injEq, Prod.mk.injEq] at h
    obtain ⟨_, rfl, _⟩ := h
    exact hr
  | call env c =>
    change invoke tok env w c = some (w', o) at h
    cases c with
    | stake source amount =>
      obtain ⟨_, hs, he⟩ := commit_some.mp h
      cases he
      exact stake_ready hr hs
    | unstake target amount =>
      obtain ⟨_, hs, he⟩ := commit_some.mp h
      cases he
      exact unstake_ready hb hr hs
    | _ =>
      obtain ⟨_, _, _, _, rfl, _⟩ := invoke_frame h rfl
      exact ⟨hr.token, hr.reentrancy, hr.staked, hr.total⟩

theorem initialized_ready (admin token : Address) : Ready (initialized admin token) where
  token := nofun
  reentrancy := rfl
  staked _ := inI128_zero
  total := inI128_zero

theorem reachable_ready
    (h : (machine tok own).Reachable ⟨initialized admin token, t₀⟩ w) :
    Books w.pool ∧ Ready w.pool := by
  refine h.invariant (P := fun w => Books w.pool ∧ Ready w.pool) ?_ fun hP hs => ?_
  · exact ⟨initialized_books _ _, initialized_ready _ _⟩
  · obtain ⟨_, _, hsh, _⟩ := act_shifts hP.1 hs
    exact ⟨hsh.books hP.1, act_ready hP.1 hP.2 hs⟩

/-! Unstaking -/

/-- Nothing but the token can still turn the withdrawal down. -/
def PassesChecks (env : Env own) (user : Address) (amount : Int) (w : World T) : Prop :=
  ∃ (tok : Token T) (w' : World T), unstake tok env user amount w = .ok w'

theorem unstake_timely (hb : Books w.pool) (hr : Ready w.pool)
    (h : unstake tok env user amount w = .ok w') :
    Timely (getLockPeriod w.pool) w.pool user := by
  simp only [unstake, bind_ok] at h
  obtain ⟨_, _, _, _, _, _, _, _, n, hn, _⟩ := h
  have hsum := unlockedSum_nonneg hb.positive (getLockPeriod w.pool) env.timestamp user
  have hle := unlockedSum_le hb.positive (getLockPeriod w.pool) env.timestamp user
  rw [← hb.staked] at hle
  have hfit : InI128 (0 + unlockedSum (getLockPeriod w.pool) env.timestamp w.pool user) := by
    rw [zero_add]
    exact (hr.staked user).of_nonneg hsum hle
  intro i hi
  exact ((addUnlocked_fold_iff hb.positive le_rfl hfit).mp hn).1 i (List.mem_range.mpr hi)

theorem unstake_enabled (hb : Books w.pool) (hr : Ready w.pool)
    (hn : w.pool.paused.getD false = false)
    (ha : requireUserOrOperator env user user w.pool = .ok spender) (hpos : 0 < amount)
    (ht : Timely (getLockPeriod w.pool) w.pool user)
    (hle : amount ≤ unlockedSum (getLockPeriod w.pool) env.timestamp w.pool user)
    (htok : (tok.call env w.token own user amount : Outcome ContractError T) = .ok t) :
    ∃ w', unstake tok env user amount w = .ok w' := by
  have hsum := unlockedSum_nonneg hb.positive (getLockPeriod w.pool) env.timestamp user
  have hsle := unlockedSum_le hb.positive (getLockPeriod w.pool) env.timestamp user
  rw [← hb.staked] at hsle
  have hcur := hle.trans hsle
  have hstaked := hr.staked user
  obtain ⟨hs₀, hst⟩ := hb.staked_bounds user
  have hfit : InI128 (0 + unlockedSum (getLockPeriod w.pool) env.timestamp w.pool user) := by
    rw [zero_add]
    exact hstaked.of_nonneg hsum hsle
  have hadd : (List.range (getDepositCount w.pool user)).foldlM
      (addUnlocked (getLockPeriod w.pool) env.timestamp user w.pool) 0 =
        .ok (0 + unlockedSum (getLockPeriod w.pool) env.timestamp w.pool user) :=
    (addUnlocked_fold_iff hb.positive le_rfl hfit).mpr
      ⟨fun i hi => ht i (List.mem_range.mp hi), rfl⟩
  have hone (i) (hi : i ∈ List.range (getDepositCount w.pool user)) :
      InI128 (unlockedAt (getLockPeriod w.pool) env.timestamp w.pool user i) := by
    have hnn := unlockedAt_nonneg hb.positive (getLockPeriod w.pool) env.timestamp user i
    have hall : ∀ x ∈ (List.range (getDepositCount w.pool user)).map
        (unlockedAt (getLockPeriod w.pool) env.timestamp w.pool user), 0 ≤ x := by
      intro x hx
      obtain ⟨j, _, rfl⟩ := List.mem_map.mp hx
      exact unlockedAt_nonneg hb.positive _ _ user j
    have hpart := List.single_le_sum hall _ (List.mem_map_of_mem hi)
    exact hstaked.of_nonneg hnn (hpart.trans hsle)
  obtain ⟨⟨m, s⟩, hfold⟩ := consumeDeposit_fold_enabled (r := (amount, w.pool)) List.nodup_range
    hb.positive (fun i hi => ht i (List.mem_range.mp hi)) hpos.le (hstaked.of_nonneg hpos.le hcur)
    hone
  obtain ⟨D, hD⟩ := (consumeDeposit_fold hfold List.nodup_range hb.positive hpos.le).2.1
  obtain rfl : s = { w.pool with deposit := D } := hD
  obtain ⟨a, htoken⟩ := Option.ne_none_iff_exists'.mp hr.token
  have hbal := hstaked.of_nonneg (sub_nonneg.mpr hcur) (sub_le_self _ hpos.le)
  have htot := hr.total.of_nonneg (sub_nonneg.mpr (hcur.trans hst)) (sub_le_self _ hpos.le)
  have hunlocked : amount ≤
      0 + unlockedSum (getLockPeriod w.pool) env.timestamp w.pool user := by rwa [zero_add]
  simp only [unstake, requireNotPaused, requireValidAmount, enterNonreentrant, transfer, bind_ok,
    require_ok, i128Sub_ok, enter_ok, expect_ok, pure_ok]
  exact ⟨_, (), hn, spender, ha, (), hpos, (), hcur, _, hadd, (), hunlocked, _, hfold, _,
    ⟨hbal, rfl⟩, _, ⟨htot, rfl⟩, _, ⟨_, ⟨hr.reentrancy, rfl⟩, rfl⟩, t, ⟨a, htoken, htok⟩, rfl⟩

/-- What an unstaking of an amount does to the deposits. -/
structure Unstakes (lockPeriod currentTime : Nat) (user : Address) (amount : Int) (s s' : State) :
    Prop where
  loop : ∃ s₁, (List.range (getDepositCount s user)).foldlM
      (consumeDeposit lockPeriod currentTime user) (amount, s) = .ok (0, s₁) ∧
    s'.deposit = s₁.deposit
  locked : ∀ i d, getDeposit s user i = some d → ¬ d.Unlocked lockPeriod currentTime →
    getDeposit s' user i = some d
  unlocked : unlockedDeposits lockPeriod currentTime s' user =
    removeFront amount (unlockedDeposits lockPeriod currentTime s user)
  total : totalOf (unlockedDeposits lockPeriod currentTime s' user) =
    totalOf (unlockedDeposits lockPeriod currentTime s user) - amount
  others : ∀ u i, u ≠ user → getDeposit s' u i = getDeposit s u i

theorem unstake_unstakes (hb : Books w.pool) (h : unstake tok env user amount w = .ok w') :
    Unstakes (getLockPeriod w.pool) env.timestamp user amount w.pool w'.pool := by
  obtain ⟨ha, _, hle, ⟨m, s⟩, hfold, hw⟩ := unstake_writes h
  obtain ⟨hm, ⟨D, hD⟩, _, hother, _⟩ :=
    consumeDeposit_fold hfold List.nodup_range hb.positive ha.le
  have hz : m = 0 := hm.trans (by rw [min_eq_left hle, sub_self])
  have hdep (u i) : getDeposit w'.pool u i = getDeposit s u i := by rw [hw]; rfl
  have hcount : getDepositCount w'.pool user = getDepositCount w.pool user := by rw [hw, hD]; rfl
  have hun (i) : unlockedDeposit (getLockPeriod w.pool) env.timestamp w'.pool user i =
      unlockedDeposit (getLockPeriod w.pool) env.timestamp s user i := by
    rw [unlockedDeposit, unlockedDeposit, hdep]
  have hfront : unlockedDeposits (getLockPeriod w.pool) env.timestamp w'.pool user =
      removeFront amount (unlockedDeposits (getLockPeriod w.pool) env.timestamp w.pool user) := by
    rw [unlockedDeposits, hcount, funext hun]
    exact consumeDeposit_fold_front hfold List.nodup_range hb.positive ha.le
  subst hz
  refine ⟨⟨s, hfold, by rw [hw]⟩, fun i d hd hl => ?_, hfront, ?_, fun u i hu => ?_⟩
  · have hkeep := foldlM_keeps
      (fun r : Int × State => lockedDeposit (getLockPeriod w.pool) env.timestamp r.2 user i)
      consumeDeposit_locked hfold
    have hbefore : lockedDeposit (getLockPeriod w.pool) env.timestamp w.pool user i = some d :=
      Option.filter_eq_some_iff.mpr ⟨hd, decide_eq_true hl⟩
    rw [hdep]
    exact (Option.filter_eq_some_iff.mp (hkeep.trans hbefore)).1
  · rw [hfront]
    exact totalOf_removeFront _ ha.le ((totalOf_unlocked ..).symm ▸ hle)
  · rw [hdep]
    exact hother u i (.inl hu)

/-- `unstake` accepts an amount when it is covered by the unlocked deposits and every unlock time
is a `u64`, and then takes exactly the amount from the front of the unlocked deposits. -/
theorem unstake_exact (h : (machine tok own).Reachable ⟨initialized admin token, t₀⟩ w)
    (hn : w.pool.paused.getD false = false)
    (ha : requireUserOrOperator env user user w.pool = .ok spender) (hpos : 0 < amount) :
    (PassesChecks env user amount w ↔
      Timely (getLockPeriod w.pool) w.pool user ∧
        amount ≤ totalOf (unlockedDeposits (getLockPeriod w.pool) env.timestamp w.pool user)) ∧
      ∀ w', unstake tok env user amount w = .ok w' →
        Unstakes (getLockPeriod w.pool) env.timestamp user amount w.pool w'.pool := by
  obtain ⟨hb, hr⟩ := reachable_ready h
  rw [totalOf_unlocked]
  refine ⟨⟨?_, ?_⟩, fun w' => unstake_unstakes hb⟩
  · rintro ⟨tok', w', h'⟩
    exact ⟨unstake_timely hb hr h', (unstake_writes h').2.2.1⟩
  · rintro ⟨ht, hle⟩
    let free : Token T := ⟨fun _ _ => 0, fun t _ _ _ _ => some t⟩
    exact ⟨free, unstake_enabled hb hr hn ha hpos ht hle (Token.call_ok.mpr rfl)⟩

end

theorem unstake_exact_locked :
    let w := ((machine plainToken ⟨0⟩).replay sampleStart (lockedDeposits.take 4)).2
    (PassesChecks (.signed ⟨0⟩ 120) ⟨2⟩ 25 w ↔
      Timely (getLockPeriod w.pool) w.pool ⟨2⟩ ∧
        25 ≤ totalOf (unlockedDeposits (getLockPeriod w.pool) 120 w.pool ⟨2⟩)) ∧
      ∀ w', unstake plainToken (.signed ⟨0⟩ 120) ⟨2⟩ 25 w = .ok w' →
        Unstakes (getLockPeriod w.pool) 120 ⟨2⟩ 25 w.pool w'.pool :=
  unstake_exact
    ⟨_, (machine plainToken ⟨0⟩).run_replay sampleStart (lockedDeposits.take 4)⟩ (by decide)
    rfl (by decide)

/-- A second deposit at the last timestamp there is. -/
def latestDeposit : List (Action ⟨0⟩ (Address → Int)) :=
  lockedDeposits.take 2 ++ [.call (.signed ⟨0⟩ (2 ^ 64 - 1)) (.stake ⟨2⟩ 40)]

/-- A deposit whose unlock time is no `u64` blocks the other deposits of its user. -/
theorem unstake_overflows :
    ¬ ∀ w, (machine plainToken ⟨0⟩).Reachable sampleStart w → w.pool.paused.getD false = false →
      ∀ (env : Env ⟨0⟩) user spender amount,
        requireUserOrOperator env user user w.pool = .ok spender → 0 < amount →
        (PassesChecks env user amount w ↔ amount ≤
          totalOf (unlockedDeposits (getLockPeriod w.pool) env.timestamp w.pool user)) := by
  intro hall
  have hr := (machine plainToken ⟨0⟩).run_replay sampleStart latestDeposit
  obtain ⟨hb, hready⟩ := reachable_ready ⟨_, hr⟩
  have hiff := hall _ ⟨_, hr⟩ (by decide) (.signed ⟨0⟩ (2 ^ 64 - 1)) ⟨2⟩ ⟨2⟩ 60 rfl (by decide)
  obtain ⟨tok, w', h⟩ := hiff.mpr (by decide)
  have ht := unstake_timely hb hready h 1 (by decide) ⟨40, 2 ^ 64 - 1⟩ (by decide)
  exact absurd ht (by unfold Deposit.Timely; decide)

end Shelterflex.StakingPool
