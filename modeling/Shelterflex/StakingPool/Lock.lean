import Shelterflex.StakingPool.Agreement

namespace Shelterflex.StakingPool
open Lib
set_option autoImplicit true

/-- A committed step of the pool. -/
abbrev Step (own : Address) (T : Type) := Event (World T) (Action own T) Output

def Action.timestamp : Action own T → Option Nat
  | .call env _ => some env.timestamp
  | .traffic _ => none

/-- The times of the calls of a run, latest first. -/
def times (t : List (Step own T)) : List Nat := t.filterMap fun e => e.input.timestamp

def Chronological (t : List (Step own T)) : Prop := (times t).Pairwise (· ≥ ·)

instance : Decidable (Chronological (t : List (Step own T))) :=
  inferInstanceAs (Decidable (List.Pairwise _ _))

/-- A step that does not unstake under another lock period. -/
def locksFor (lockPeriod : Nat) (e : Step own T) : Bool :=
  match e.input with
  | .call _ (.unstake _ _) => getLockPeriod e.pre.pool = lockPeriod
  | _ => true

/-- What a step stakes for a user, if its lock has run out by some time. -/
def stakedFor (lockPeriod : Nat) (user : Address) (time : Nat) (e : Step own T) : Int :=
  match e.input with
  | .call env (.stake source amount) =>
    if source = user ∧ env.timestamp + lockPeriod ≤ time then amount else 0
  | _ => 0

/-- What a step unstakes for a user by some time. -/
def unstakedBy (user : Address) (time : Nat) (e : Step own T) : Int :=
  match e.input with
  | .call env (.unstake target amount) =>
    if target = user ∧ env.timestamp ≤ time then amount else 0
  | _ => 0

def totalStakedFor (lockPeriod : Nat) (user : Address) (time : Nat) (t : List (Step own T)) : Int :=
  (t.map (stakedFor lockPeriod user time)).sum

def totalUnstakedBy (user : Address) (time : Nat) (t : List (Step own T)) : Int :=
  (t.map (unstakedBy user time)).sum

/-- The deposits of a user that are unlocked at some time. -/
def unlockedSum (lockPeriod time : Nat) (s : State) (user : Address) : Int :=
  ((List.range (getDepositCount s user)).map (unlockedAt lockPeriod time s user)).sum

theorem Deposit.Unlocked.later {d : Deposit} (h : d.Unlocked lockPeriod currentTime)
    (hle : currentTime ≤ time) : d.Unlocked lockPeriod time :=
  h.imp_right fun h => h.trans hle

theorem unlockedSum_nonneg (hp : Positive s) (lockPeriod time : Nat) (user : Address) :
    0 ≤ unlockedSum lockPeriod time s user := by
  apply List.sum_nonneg
  intro x hx
  obtain ⟨i, _, rfl⟩ := List.mem_map.mp hx
  exact unlockedAt_nonneg hp lockPeriod time user i

theorem unlockedAt_congr (h : getDeposit s' user i = getDeposit s user i)
    (lockPeriod time : Nat) :
    unlockedAt lockPeriod time s' user i = unlockedAt lockPeriod time s user i := by
  rw [unlockedAt, unlockedAt, h]

theorem takeFrom_unlocked (h : takeFrom user i d n s = .ok (m, s'))
    (hd : getDeposit s user i = some d) (hu : d.Unlocked lockPeriod time) :
    unlockedAt lockPeriod time s' user i = unlockedAt lockPeriod time s user i - (n - m) := by
  rw [unlockedAt_of_some hd hu]
  unfold takeFrom at h
  split at h
  · simp only [bind_ok, i128Sub_ok, pure_ok, Prod.mk.injEq] at h
    obtain ⟨_, ⟨_, rfl⟩, rfl, rfl⟩ := h
    simp only [unlockedAt, getDeposit, Store.get_remove_self, Option.map_none, Option.getD_none]
    omega
  · simp only [bind_ok, i128Sub_ok, pure_ok, Prod.mk.injEq] at h
    obtain ⟨_, ⟨_, rfl⟩, rfl, rfl⟩ := h
    simp only [unlockedAt, getDeposit, Store.get_set_self, Option.map_some, Option.getD_some,
      sub_zero]
    exact if_pos hu

theorem consumeDeposit_unlocked {r r' : Int × State}
    (h : consumeDeposit lockPeriod currentTime user r i = .ok r') (hle : currentTime ≤ time) :
    unlockedAt lockPeriod time r'.2 user i =
      unlockedAt lockPeriod time r.2 user i - (r.1 - r'.1) := by
  rcases consumeDeposit_cases h with ⟨rfl, _⟩ | ⟨d, hd, hu, ht⟩
  · rw [sub_self, sub_zero]
  · exact takeFrom_unlocked ht hd (hu.later hle)

/-- What the loop takes was unlocked, so it leaves the unlocked deposits of every later time. -/
theorem consumeDeposit_fold_unlocked {r r' : Int × State} {is : List Nat}
    (h : is.foldlM (consumeDeposit lockPeriod currentTime user) r = .ok r') (his : is.Nodup)
    (hp : Positive r.2) (hr : 0 ≤ r.1) (hle : currentTime ≤ time) :
    (is.map (unlockedAt lockPeriod time r'.2 user)).sum =
      (is.map (unlockedAt lockPeriod time r.2 user)).sum - (r.1 - r'.1) := by
  induction is generalizing r with
  | nil =>
    cases h
    simp
  | cons i is ih =>
    obtain ⟨hi, his⟩ := List.nodup_cons.mp his
    simp only [List.foldlM_cons, bind_ok] at h
    obtain ⟨r₁, h₁, h⟩ := h
    obtain ⟨hm, ht⟩ := consumeDeposit_ok h₁ hp hr
    have hu := unlockedAt_nonneg hp lockPeriod currentTime user i
    have hr₁ : 0 ≤ r₁.1 := by omega
    have hhead := consumeDeposit_unlocked h₁ hle
    have hlast : unlockedAt lockPeriod time r'.2 user i = unlockedAt lockPeriod time r₁.2 user i :=
      unlockedAt_congr ((consumeDeposit_fold h his ht.positive hr₁).2.2.2.1 user i (.inr hi)) _ _
    have hsame : is.map (unlockedAt lockPeriod time r₁.2 user) =
        is.map (unlockedAt lockPeriod time r.2 user) := by
      apply List.map_congr_left
      intro j hj
      apply unlockedAt_congr
      exact ht.same hi hj
    have htail := ih h his ht.positive hr₁
    rw [hsame] at htail
    simp only [List.map_cons, List.sum_cons]
    omega

section
variable {own : Address} {tok : Token T} {env : Env own} {w w' : World T}

theorem unlockedSum_congr (hd : s'.deposit = s.deposit) (hc : s'.depositCount = s.depositCount)
    (lockPeriod time : Nat) (user : Address) :
    unlockedSum lockPeriod time s' user = unlockedSum lockPeriod time s user := by
  have hu : unlockedAt lockPeriod time s' user = unlockedAt lockPeriod time s user := by
    funext i
    exact unlockedAt_congr (by rw [getDeposit, getDeposit, hd]) lockPeriod time
  rw [unlockedSum, unlockedSum, getDepositCount, getDepositCount, hu, hc]

theorem stake_unlocked (h : stake tok env source amount w = .ok w') :
    unlockedSum lockPeriod time w'.pool user = unlockedSum lockPeriod time w.pool user +
      if user = source then
        if Deposit.Unlocked lockPeriod time ⟨amount, env.timestamp⟩ then amount else 0
      else 0 := by
  obtain ⟨_, _, hw⟩ := stake_writes h
  rw [hw]
  exact addDeposit_sum (fun d => (d.map fun d => if d.Unlocked lockPeriod time then d.amount
    else 0).getD 0) { w.pool with reentrancy := exit } source user

theorem unstake_unlocked (hb : Books w.pool) (h : unstake tok env target amount w = .ok w')
    (hle : env.timestamp ≤ time) :
    unlockedSum (getLockPeriod w.pool) time w'.pool user =
      unlockedSum (getLockPeriod w.pool) time w.pool user -
        if user = target then amount else 0 := by
  obtain ⟨ha, _, hge, r, hr, hw⟩ := unstake_writes h
  obtain ⟨hm, ⟨D, hD⟩, _, hother, _⟩ := consumeDeposit_fold hr List.nodup_range hb.positive ha.le
  have hs := consumeDeposit_fold_unlocked hr List.nodup_range hb.positive ha.le hle
  have hz : r.1 = 0 := by rw [hm, min_eq_left hge, sub_self]
  have hcount : r.2.depositCount = w.pool.depositCount := by rw [hD]
  rw [unlockedSum_congr (s := r.2) (by rw [hw]) (by rw [hw])]
  by_cases he : user = target
  · subst user
    rw [if_pos rfl, unlockedSum, getDepositCount, hcount]
    rw [hz, sub_zero] at hs
    exact hs
  · have hu : unlockedAt (getLockPeriod w.pool) time r.2 user =
        unlockedAt (getLockPeriod w.pool) time w.pool user := by
      funext i
      exact unlockedAt_congr (hother user i (.inl he)) _ _
    rw [if_neg he, sub_zero, unlockedSum, getDepositCount, hcount, hu]
    rfl

/-- A user has not unstaked more than what was unlocked. Until some time, the deposits that are
unlocked by then are what was staked and not unstaked. -/
structure Matured (lockPeriod : Nat) (user : Address) (time : Nat) (t : List (Step own T))
    (s : State) : Prop where
  bounded : totalUnstakedBy user time t ≤ totalStakedFor lockPeriod user time t
  balanced : (∀ n ∈ times t, n ≤ time) →
    unlockedSum lockPeriod time s user + totalUnstakedBy user time t =
      totalStakedFor lockPeriod user time t

theorem times_call {e : Step own T} (hi : e.input = .call env c) (t : List (Step own T)) :
    times (e :: t) = env.timestamp :: times t :=
  List.filterMap_cons_some (by rw [hi]; rfl)

theorem totalStakedFor_cons (e : Step own T) (t : List (Step own T)) :
    totalStakedFor lockPeriod user time (e :: t) =
      stakedFor lockPeriod user time e + totalStakedFor lockPeriod user time t := rfl

theorem totalUnstakedBy_cons (e : Step own T) (t : List (Step own T)) :
    totalUnstakedBy user time (e :: t) = unstakedBy user time e + totalUnstakedBy user time t := rfl

theorem Matured.call {e : Step own T} (hm : Matured lockPeriod user time t s)
    (hc : Chronological (e :: t)) (hi : e.input = .call env c)
    (hn : 0 ≤ unlockedSum lockPeriod time s' user) (hs : 0 ≤ stakedFor lockPeriod user time e)
    (hlate : time < env.timestamp → unstakedBy user time e = 0)
    (hstep : env.timestamp ≤ time → unlockedSum lockPeriod time s' user + unstakedBy user time e =
      unlockedSum lockPeriod time s user + stakedFor lockPeriod user time e) :
    Matured lockPeriod user time (e :: t) s' := by
  rw [Chronological, times_call hi, List.pairwise_cons] at hc
  have hb := hm.bounded
  constructor
  · rw [totalStakedFor_cons, totalUnstakedBy_cons]
    rcases le_or_gt env.timestamp time with hle | hlt
    · have he := hm.balanced fun n hn => (hc.1 n hn).trans hle
      have hstep := hstep hle
      omega
    · have hz := hlate hlt
      omega
  · rw [times_call hi, totalStakedFor_cons, totalUnstakedBy_cons]
    intro hall
    have hle := hall _ List.mem_cons_self
    have he := hm.balanced fun n hn => (hc.1 n hn).trans hle
    have hstep := hstep hle
    omega

theorem act_matured {a : Action own T} (hb : Books w.pool) (hb' : Books w'.pool)
    (hm : Matured lockPeriod user time t w.pool) (h : act tok w a = some (w', o))
    (hc : Chronological (⟨w, a, o, w'⟩ :: t)) (hl : locksFor lockPeriod ⟨w, a, o, w'⟩ = true) :
    Matured lockPeriod user time (⟨w, a, o, w'⟩ :: t) w'.pool := by
  have hn := unlockedSum_nonneg hb'.positive lockPeriod time user
  cases a with
  | traffic t' =>
    simp only [act, Option.ite_none_right_eq_some, Option.some.injEq, Prod.mk.injEq] at h
    obtain ⟨_, rfl, rfl⟩ := h
    refine ⟨?_, ?_⟩
    · rw [totalStakedFor_cons, totalUnstakedBy_cons]
      exact add_le_add_right hm.bounded 0
    · intro hall
      have he := hm.balanced hall
      rw [totalStakedFor_cons, totalUnstakedBy_cons]
      exact (congrArg _ (zero_add _)).trans (he.trans (zero_add _).symm)
  | call env c =>
    change invoke tok env w c = some (w', o) at h
    cases c with
    | stake source amount =>
      obtain ⟨_, hs, he⟩ := commit_some.mp h
      cases he
      have ha := (stake_writes hs).1
      refine hm.call hc rfl hn ?_ (fun _ => rfl) fun hle => ?_
      · simp only [stakedFor]
        split
        · exact ha.le
        · exact le_rfl
      · rw [stake_unlocked hs, add_assoc]
        congr 1
        have hu : Deposit.Unlocked lockPeriod time ⟨amount, env.timestamp⟩ ↔
            env.timestamp + lockPeriod ≤ time := by
          change lockPeriod = 0 ∨ env.timestamp + lockPeriod ≤ time ↔ _
          omega
        simp only [hu, stakedFor, unstakedBy, add_zero, ← ite_and, eq_comm]
    | unstake target amount =>
      obtain ⟨_, hs, he⟩ := commit_some.mp h
      cases he
      obtain rfl : getLockPeriod w.pool = lockPeriod := of_decide_eq_true hl
      refine hm.call hc rfl hn le_rfl (fun hlt => ?_) fun hle => ?_
      · exact if_neg fun h => absurd h.2 (not_le.mpr hlt)
      · rw [unstake_unlocked hb hs hle]
        simp only [stakedFor, unstakedBy, hle, and_true, eq_comm (a := target), sub_add_cancel,
          add_zero]
    | _ =>
      have hk := invoke_keeps h rfl
      refine hm.call hc rfl hn le_rfl (fun _ => rfl) fun _ => ?_
      rw [unlockedSum_congr hk.deposit hk.depositCount]
      rfl

theorem Chronological.tail {e : Step own T} (h : Chronological (e :: t)) : Chronological t := by
  rw [Chronological, times, List.filterMap_cons] at h
  split at h
  · exact h
  · exact (List.pairwise_cons.mp h).2

/-- No deposit is released early: at every time, a user has unstaked at most what the user had
staked a lock period before. -/
theorem never_released_early
    (h : (machine tok own).Run ⟨initialized admin token, t₀⟩ t w) (hc : Chronological t)
    (hl : ∀ e ∈ t, locksFor lockPeriod e = true) (user : Address) (time : Nat) :
    totalUnstakedBy user time t ≤ totalStakedFor lockPeriod user time t := by
  have hP := h.invariant (P := fun t w => Books w.pool ∧ (Chronological t →
    (∀ e ∈ t, locksFor lockPeriod e = true) → Matured lockPeriod user time t w.pool)) ⟨?_, ?_⟩ ?_
  · exact (hP.2 hc hl).bounded
  · exact initialized_books _ _
  · exact fun _ _ => ⟨le_rfl, fun _ => rfl⟩
  · rintro t w a w' o ⟨hb, hm⟩ hs
    obtain ⟨_, _, hsh, _⟩ := act_shifts hb hs
    refine ⟨hsh.books hb, fun hc hl => ?_⟩
    have hm := hm hc.tail fun e he => hl e (List.mem_cons_of_mem _ he)
    exact act_matured hb (hsh.books hb) hm hs hc (hl _ List.mem_cons_self)

end

theorem never_released_early_locked :
    totalUnstakedBy ⟨2⟩ 130 ((machine plainToken ⟨0⟩).replay sampleStart lockedDeposits).1 = 60 ∧
      totalUnstakedBy ⟨2⟩ 130 ((machine plainToken ⟨0⟩).replay sampleStart lockedDeposits).1 ≤
        totalStakedFor 100 ⟨2⟩ 130
          ((machine plainToken ⟨0⟩).replay sampleStart lockedDeposits).1 :=
  ⟨by decide, never_released_early ((machine plainToken ⟨0⟩).run_replay sampleStart lockedDeposits)
    (by decide) (by decide) ⟨2⟩ 130⟩

end Shelterflex.StakingPool
