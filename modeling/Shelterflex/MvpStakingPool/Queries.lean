import Shelterflex.MvpStakingPool.Accuracy

namespace Shelterflex.MvpStakingPool
open Lib
set_option autoImplicit true

/-- A history in which some of the calls are marked as extra. -/
abbrev Marked (own : Address) (T : Type) :=
  List (Event (World T) (Action own T) Output × Bool)

/-- The calls of a history, and extra queries of what one user can claim. -/
inductive Inserts (user : Address) : History own T → Marked own T → Prop where
  | nil : Inserts user [] []
  | same : Inserts user t l → e'.input = e.input → Inserts user (e :: t) ((e', false) :: l)
  | query : Inserts user t l → e.input = .call env (.claimable user) →
    Inserts user t ((e, true) :: l)

/-- The fractions that the extra queries discarded since another call accrued the user's rewards. -/
def carried (user : Address) : Marked own T → Int
  | [] => 0
  | (e, extra) :: l =>
    if e.input.settles = some user then
      if extra then carried user l + (ledger e.pre.pool).residue rewardIndexScale user else 0
    else carried user l

/-- For each of the other calls that accrued the user's rewards, all that was discarded since the
one before. -/
def discarded (user : Address) : Marked own T → List Int
  | [] => []
  | (e, extra) :: l =>
    if e.input.settles = some user ∧ extra = false then
      (carried user l + (ledger e.pre.pool).residue rewardIndexScale user) :: discarded user l
    else discarded user l

/-- What was discarded between any two accruals, up to a last one in the state given. -/
def stretches (user : Address) (l : Marked own T) (s : State) : List Int :=
  (carried user l + (ledger s).residue rewardIndexScale user) :: discarded user l

def wholeUnits (xs : List Int) : Int := (xs.map (· / rewardIndexScale)).sum

/-- The pool beside the one with the extra queries. Some of what the user earned was accrued early,
and what was discarded then is missing. -/
structure Tracks (user : Address) (t : History own T) (l : Marked own T) (s s' : State) :
    Prop where
  share : getStakedBalance s' user = getStakedBalance s user
  total : getTotalStaked s' = getTotalStaked s
  index : getGlobalRewardIndex s' = getGlobalRewardIndex s
  earned : ∃ early,
    getStakedBalance s user * (getUserRewardIndex s' user - getUserRewardIndex s user) =
      early * rewardIndexScale + carried user l ∧
    claimed user t + getClaimableReward s user + early =
      claimed user (l.map Prod.fst) + getClaimableReward s' user + wholeUnits (discarded user l)

theorem Tracks.claimable_eq (h : Tracks user t l s s') :
    claimed user t + (ledger s).claimable rewardIndexScale user =
      claimed user (l.map Prod.fst) + (ledger s').claimable rewardIndexScale user +
        wholeUnits (stretches user l s') := by
  obtain ⟨early, hsplit, htotal⟩ := h.earned
  have hx : unaccrued s user =
      unaccrued s' user + (early * rewardIndexScale + carried user l) := by
    rw [← hsplit, unaccrued, unaccrued, h.share, h.index]
    ring
  have hs : wholeUnits (stretches user l s') =
      (unaccrued s' user % rewardIndexScale + carried user l) / rewardIndexScale +
        wholeUnits (discarded user l) := by
    rw [stretches, residue_ledger, add_comm (carried user l)]
    exact List.sum_cons
  rw [claimable_ledger, claimable_ledger, hs, hx, add_ediv_of_parts rewardIndexScale_pos.ne']
  linarith

section
variable {own : Address} {t : History own T} {l : Marked own T} {a : Action own T}

/-- An accrual brings the snapshot up to the index, and banks or pays what can be claimed. -/
theorem Posts.accrued (h : Posts user w.pool w'.pool a o) (hs : a.settles = some user) :
    getUserRewardIndex w'.pool user = getGlobalRewardIndex w'.pool ∧
      claimed user (⟨w, a, o, w'⟩ :: t) + getClaimableReward w'.pool user =
        claimed user t + (ledger w.pool).claimable rewardIndexScale user := by
  obtain ⟨hsnap, hbank⟩ := h.settled hs
  have hi := h.index
  rw [Action.raised_of_settles hs, add_zero] at hi
  refine ⟨hsnap.trans hi.symm, ?_⟩
  rw [claimed_cons, ← hbank]
  ring

theorem Tracks.query {env : Env own} (h : Tracks user t l s w.pool)
    (hp : Posts user w.pool w'.pool (.call env (.claimable user) : Action own T) o) :
    Tracks user t ((⟨w, .call env (.claimable user), o, w'⟩, true) :: l) s w'.pool := by
  obtain ⟨early, hsplit, htotal⟩ := h.earned
  obtain ⟨hcur, hclaim⟩ := hp.accrued (t := l.map Prod.fst) rfl
  have hindex : getGlobalRewardIndex w'.pool = getGlobalRewardIndex w.pool :=
    hp.index.trans (add_zero _)
  have hshare : getStakedBalance w'.pool user = getStakedBalance w.pool user :=
    hp.share.trans (by rw [Action.addedTo_of_added rfl, add_zero])
  have htot : getTotalStaked w'.pool = getTotalStaked w.pool := hp.total.trans (add_zero _)
  refine ⟨hshare.trans h.share, htot.trans h.total, hindex.trans h.index,
    early + unaccrued w.pool user / rewardIndexScale, ?_, ?_⟩
  · have hc : carried user ((⟨w, .call env (.claimable user), o, w'⟩, true) :: l) =
        carried user l + unaccrued w.pool user % rewardIndexScale := by
      rw [carried]
      exact if_pos rfl
    have he : getStakedBalance s user *
        (getUserRewardIndex w'.pool user - getUserRewardIndex s user) =
        getStakedBalance s user * (getUserRewardIndex w.pool user - getUserRewardIndex s user) +
          unaccrued w.pool user := by
      rw [hcur, hindex, unaccrued, h.share]
      ring
    have hd := Int.ediv_mul_add_emod (unaccrued w.pool user) rewardIndexScale
    rw [hc, he, hsplit]
    linarith
  · have hk : discarded user ((⟨w, .call env (.claimable user), o, w'⟩, true) :: l) =
        discarded user l := by
      rw [discarded, if_neg]
      exact fun h => Bool.noConfusion h.2
    rw [List.map_cons, hclaim, claimable_ledger, hk]
    linarith

theorem Tracks.settled {v v' : World T} (h : Tracks user t l v.pool w.pool)
    (hp : Posts user v.pool v'.pool a o) (hp' : Posts user w.pool w'.pool a o')
    (hs : a.settles = some user) :
    Tracks user (⟨v, a, o, v'⟩ :: t) ((⟨w, a, o', w'⟩, false) :: l) v'.pool w'.pool where
  share := by rw [hp.share, hp'.share, h.share]
  total := by rw [hp.total, hp'.total, h.total]
  index := by rw [hp.index, hp'.index, h.index, h.total]
  earned := by
    obtain ⟨hcur, hclaim⟩ := hp.accrued (t := t) hs
    obtain ⟨hcur', hclaim'⟩ := hp'.accrued (t := l.map Prod.fst) hs
    have hi : getGlobalRewardIndex w'.pool = getGlobalRewardIndex v'.pool := by
      rw [hp.index, hp'.index, h.index, h.total]
    have hc : carried user ((⟨w, a, o', w'⟩, false) :: l) = 0 := by
      rw [carried, if_pos hs]
      rfl
    have hd : discarded user ((⟨w, a, o', w'⟩, false) :: l) = stretches user l w.pool := by
      rw [discarded, if_pos ⟨hs, rfl⟩, stretches]
    refine ⟨0, ?_, ?_⟩
    · rw [hcur, hcur', hi, hc]
      ring
    · rw [List.map_cons, hclaim, hclaim', hd, add_zero]
      exact h.claimable_eq

theorem Tracks.kept {v v' : World T} (h : Tracks user t l v.pool w.pool)
    (hp : Posts user v.pool v'.pool a o) (hp' : Posts user w.pool w'.pool a o')
    (hs : a.settles ≠ some user) :
    Tracks user (⟨v, a, o, v'⟩ :: t) ((⟨w, a, o', w'⟩, false) :: l) v'.pool w'.pool where
  share := by rw [hp.share, hp'.share, h.share]
  total := by rw [hp.total, hp'.total, h.total]
  index := by rw [hp.index, hp'.index, h.index, h.total]
  earned := by
    obtain ⟨early, hsplit, htotal⟩ := h.earned
    obtain ⟨hsnap, hbank, hpaid⟩ := hp.kept hs
    obtain ⟨hsnap', hbank', hpaid'⟩ := hp'.kept hs
    have hc : carried user ((⟨w, a, o', w'⟩, false) :: l) = carried user l := by
      rw [carried, if_neg hs]
    have hd : discarded user ((⟨w, a, o', w'⟩, false) :: l) = discarded user l := by
      rw [discarded, if_neg fun h => hs h.1]
    refine ⟨early, ?_, ?_⟩
    · rw [hp.share, Action.addedTo_of_not_settles hs, add_zero, hsnap, hsnap', hc, hsplit]
    · rw [List.map_cons, claimed_cons, claimed_cons, hpaid, hpaid', hbank, hbank', hd, zero_add,
        zero_add, htotal]

variable {tok : Token T} {w₀ : World T}

theorem Inserts.tracks (hi : Inserts user t l) (h₀ : Books w₀.pool)
    (h : (machine tok own).Run w₀ t w) (h' : (machine tok own).Run w₀ (l.map Prod.fst) w') :
    Tracks user t l w.pool w'.pool := by
  have hbooks {t : History own T} {w} (h : (machine tok own).Run w₀ t w) : Books w.pool :=
    h.invariant (P := fun _ w => Books w.pool) h₀ act_books
  induction hi generalizing w w' with
  | nil =>
    rw [h.nil_eq, h'.nil_eq]
    refine ⟨rfl, rfl, rfl, 0, ?_, ?_⟩
    · rw [sub_self, mul_zero, zero_mul]
      rfl
    · rw [add_zero]
      exact (add_zero _).symm
  | @same t l e' e hi he ih =>
    rcases e with ⟨v, a, o, v'⟩
    rcases e' with ⟨w₁, _, o', w₂⟩
    cases he
    obtain ⟨hr, hs, rfl⟩ := h.uncons
    obtain ⟨hr', hs', rfl⟩ := Machine.Run.uncons h'
    have ht := ih hr hr'
    have hp := act_posts (hbooks hr) hs user
    have hp' := act_posts (hbooks hr') hs' user
    by_cases hu : a.settles = some user
    · exact ht.settled hp hp' hu
    · exact ht.kept hp hp' hu
  | @query t l e env hi he ih =>
    rcases e with ⟨w₁, _, o', w₂⟩
    cases he
    obtain ⟨hr', hs', rfl⟩ := Machine.Run.uncons h'
    change act tok w₁ (.call env (.claimable user)) = some (w', o') at hs'
    exact (ih h hr').query (act_posts (hbooks hr') hs' user)

/-! Whole units are only lost where the fractions of a stretch add up to one -/

theorem carried_nonneg (user : Address) (l : Marked own T) : 0 ≤ carried user l := by
  induction l with
  | nil => exact le_rfl
  | cons p l ih =>
    obtain ⟨e, extra⟩ := p
    rw [carried]
    split
    · split
      · exact add_nonneg ih (RewardIndex.residue_nonneg rewardIndexScale_pos _ _)
      · exact le_rfl
    · exact ih

theorem discarded_nonneg (user : Address) (l : Marked own T) : ∀ x ∈ discarded user l, 0 ≤ x := by
  induction l with
  | nil => exact List.forall_mem_nil _
  | cons p l ih =>
    obtain ⟨e, extra⟩ := p
    rw [discarded]
    split
    · exact List.forall_mem_cons.mpr ⟨add_nonneg (carried_nonneg user l)
        (RewardIndex.residue_nonneg rewardIndexScale_pos _ _), ih⟩
    · exact ih

theorem stretches_nonneg (user : Address) (l : Marked own T) (s : State) :
    ∀ x ∈ stretches user l s, 0 ≤ x :=
  List.forall_mem_cons.mpr ⟨add_nonneg (carried_nonneg user l)
    (RewardIndex.residue_nonneg rewardIndexScale_pos _ _), discarded_nonneg user l⟩

theorem wholeUnits_nonneg (h : ∀ x ∈ xs, 0 ≤ x) : 0 ≤ wholeUnits xs := by
  apply List.sum_nonneg
  simp only [List.mem_map]
  rintro _ ⟨x, hx, rfl⟩
  exact Int.ediv_nonneg (h x hx) rewardIndexScale_pos.le

theorem wholeUnits_eq_zero_iff (h : ∀ x ∈ xs, 0 ≤ x) :
    wholeUnits xs = 0 ↔ ∀ x ∈ xs, x < rewardIndexScale := by
  induction xs with
  | nil => exact ⟨fun _ => List.forall_mem_nil _, fun _ => rfl⟩
  | cons x xs ih =>
    obtain ⟨hx, hxs⟩ := List.forall_mem_cons.mp h
    have hn := Int.ediv_nonneg hx rewardIndexScale_pos.le
    have hw : wholeUnits (x :: xs) = x / rewardIndexScale + wholeUnits xs := List.sum_cons
    have hz : x / rewardIndexScale = 0 ↔ x < rewardIndexScale := by
      constructor
      · intro he
        have hlt := Int.lt_ediv_add_one_mul_self x rewardIndexScale_pos
        rwa [he, zero_add, one_mul] at hlt
      · exact Int.ediv_eq_zero_of_lt hx
    rw [hw, add_eq_zero_iff_of_nonneg hn (wholeUnits_nonneg hxs), ih hxs, List.forall_mem_cons, hz]

/-- Extra queries never raise what a user can have claimed. They lower it by the whole units that
the discarded fractions of a stretch add up to, and leave it alone where there is none. -/
theorem queries_cost (hi : Inserts user t l)
    (h : (machine tok own).Run ⟨initialized admin token, t₀⟩ t w)
    (h' : (machine tok own).Run ⟨initialized admin token, t₀⟩ (l.map Prod.fst) w')
    (hq : claimable user w.pool = .ok (s, n)) (hq' : claimable user w'.pool = .ok (s', n')) :
    claimed user t + n = claimed user (l.map Prod.fst) + n' +
      wholeUnits (stretches user l w'.pool) ∧
    claimed user (l.map Prod.fst) + n' ≤ claimed user t + n ∧
    (claimed user (l.map Prod.fst) + n' = claimed user t + n ↔
      ∀ x ∈ stretches user l w'.pool, x < rewardIndexScale) := by
  have ht := (hi.tracks (initialized_books admin token) h h').claimable_eq
  rw [← claimable_amount (run_books h) hq, ← claimable_amount (run_books h') hq'] at ht
  have hn := stretches_nonneg user l w'.pool
  refine ⟨ht, ht ▸ le_add_of_nonneg_right (wholeUnits_nonneg hn), ?_⟩
  rw [ht, ← wholeUnits_eq_zero_iff hn, left_eq_add]

end

/-- Two fundings that each earn the first staker half a unit. -/
def halves : List (Action ⟨0⟩ (Address → Int)) :=
  [.call (.signed ⟨0⟩ 0) (.stake ⟨2⟩ 1), .call (.signed ⟨0⟩ 0) (.stake ⟨3⟩ 1),
    .call (.signed ⟨0⟩ 0) (.fundRewards ⟨1⟩ 1), .call (.signed ⟨0⟩ 0) (.fundRewards ⟨1⟩ 1)]

/-- The same calls, with a query after the first funding. -/
def queriedHalves : List (Action ⟨0⟩ (Address → Int)) :=
  [.call (.signed ⟨0⟩ 0) (.stake ⟨2⟩ 1), .call (.signed ⟨0⟩ 0) (.stake ⟨3⟩ 1),
    .call (.signed ⟨0⟩ 0) (.fundRewards ⟨1⟩ 1), .call (.signed ⟨0⟩ 0) (.claimable ⟨2⟩),
    .call (.signed ⟨0⟩ 0) (.fundRewards ⟨1⟩ 1)]

def halvesRun : History ⟨0⟩ (Address → Int) × World (Address → Int) :=
  (machine plainToken ⟨0⟩).replay sampleStart halves

def queriedRun : History ⟨0⟩ (Address → Int) × World (Address → Int) :=
  (machine plainToken ⟨0⟩).replay sampleStart queriedHalves

def markedHalves : Marked ⟨0⟩ (Address → Int) :=
  queriedRun.1.zip [false, true, false, false, false]

theorem inserts_halves : Inserts ⟨2⟩ halvesRun.1 markedHalves :=
  .same (.query (.same (.same (.same .nil rfl) rfl) rfl) rfl) rfl

theorem run_halves : (machine plainToken ⟨0⟩).Run sampleStart halvesRun.1 halvesRun.2 :=
  Machine.run_replay _ _ _

theorem run_queriedHalves :
    (machine plainToken ⟨0⟩).Run sampleStart (markedHalves.map Prod.fst) queriedRun.2 :=
  (machine plainToken ⟨0⟩).run_replay sampleStart queriedHalves

theorem claimable_halves : ∃ s, claimable ⟨2⟩ halvesRun.2.pool = .ok (s, 1) := ⟨_, rfl⟩

theorem claimable_queriedHalves : ∃ s, claimable ⟨2⟩ queriedRun.2.pool = .ok (s, 0) := ⟨_, rfl⟩

theorem queries_cost_halves :
    claimed ⟨2⟩ halvesRun.1 + 1 = claimed ⟨2⟩ (markedHalves.map Prod.fst) + 0 +
      wholeUnits (stretches ⟨2⟩ markedHalves queriedRun.2.pool) := by
  obtain ⟨s, hq⟩ := claimable_halves
  obtain ⟨s', hq'⟩ := claimable_queriedHalves
  exact (queries_cost inserts_halves run_halves run_queriedHalves hq hq').1

theorem query_costs_unit :
    ¬ ∀ t w l w' user s n s' n', Inserts user t l →
      (machine plainToken ⟨0⟩).Run sampleStart t w →
      (machine plainToken ⟨0⟩).Run sampleStart (l.map Prod.fst) w' →
      claimable user w.pool = .ok (s, n) → claimable user w'.pool = .ok (s', n') →
      claimed user (l.map Prod.fst) + n' = claimed user t + n := by
  intro hall
  obtain ⟨s, hq⟩ := claimable_halves
  obtain ⟨s', hq'⟩ := claimable_queriedHalves
  have he := hall _ _ _ _ _ _ _ _ _ inserts_halves run_halves run_queriedHalves hq hq'
  have hc : claimed ⟨2⟩ halvesRun.1 = 0 := rfl
  have hc' : claimed ⟨2⟩ (markedHalves.map Prod.fst) = 0 := rfl
  rw [hc, hc'] at he
  exact absurd he (by decide)

end Shelterflex.MvpStakingPool
