import Shelterflex.InspectorBond.Accounting

/-! Which configurations are accounted for in every run. -/

namespace Shelterflex.InspectorBond
open Lib
set_option autoImplicit true

def Call.starts : Call → Bool
  | .init _ _ _ _ => true
  | _ => false

/-- Every `init` of a run is the given call. -/
def StartsWith (c : Call) (t : History own) : Prop :=
  ∀ e ∈ t, e.input.2.starts = true → e.input.2 = c

instance : Decidable (StartsWith c (t : History own)) :=
  inferInstanceAs (Decidable (∀ e ∈ t, _ → _))

/-- The settings that no call changes after `init`. -/
structure Configured (admin : Address) (bps : Int) (days : Nat) (s : State) : Prop where
  current : s.admin = some admin
  rate : s.slashPenaltyBps = some bps
  lock : s.unstakeLockDays = some days

theorem Configured.same (h : Configured admin bps days s) (hc : SameConfig s s') :
    Configured admin bps days s' :=
  ⟨hc.admin.trans h.current, hc.bps.trans h.rate, hc.days.trans h.lock⟩

/-- Before `init` the least bond has its default, and after it the settings are its arguments. -/
def Settled (admin : Address) (bps : Int) (days : Nat) (s : State) : Prop :=
  (s.admin = none ∧ s.minBondAmount = none) ∨ Configured admin bps days s

theorem Settled.configured (h : Settled admin bps days s) (ha : ByAdmin env s caller) :
    Configured admin bps days s := by
  rcases h with ⟨hn, _⟩ | hc
  · cases hn.symm.trans ha.current
  · exact hc

theorem Settled.keep (h : Settled admin bps days s) (hc : SameConfig s s')
    (hm : s'.minBondAmount = s.minBondAmount) : Settled admin bps days s' := by
  rcases h with ⟨hn, hd⟩ | h
  · exact .inl ⟨hc.admin.trans hn, hm.trans hd⟩
  · exact .inr (h.same hc)

theorem Changes.settled (h : Changes env s s' c o)
    (hc : c.starts = true → c = .init admin least bps days) (hs : Settled admin bps days s) :
    Settled admin bps days s' := by
  cases h with
  | init _ ha hb hd =>
    cases hc rfl
    exact .inr ⟨ha, hb, hd⟩
  | pause _ hsame ha | unpause _ hsame ha | setMinBond _ hsame ha | setWindow _ hsame ha =>
    exact .inr ((hs.configured ha).same hsame)
  | stake _ _ _ _ hpost | slash _ _ _ hpost | unstake _ _ _ _ hpost | propose _ _ _ _ _ hpost
  | finalize _ _ _ _ _ _ hpost | cancel _ _ _ hpost =>
    cases hpost
    exact hs.keep ⟨rfl, rfl, rfl⟩ rfl

/-- A rate at which penalties are computed. -/
def Effective (s : State) (rate : Int) : Prop :=
  ∃ severity, (tierPenaltyBps s severity : Outcome ContractError Int) = .ok rate

theorem Changes.fair {e : Step own} (h : Changes e.input.1 e.pre e.post e.input.2 e.output)
    (hf : ∀ caller i bond rate, ByAdmin e.input.1 e.pre caller → e.pre.bond.get i = some bond →
      Effective e.pre rate → InI128 (bond.amount * rate) → 0 ≤ slashBps e.pre) : Fair e := by
  obtain ⟨pre, ⟨env, c⟩, o, post⟩ := e
  change Changes env pre post c o at h
  cases h with
  | slash ha hb _ _ hp => exact hf _ _ _ _ ha hb ⟨.high, rfl⟩ hp
  | propose ha hb ht _ _ _ hp => exact hf _ _ _ _ ha hb ⟨_, ht⟩ hp
  | _ => trivial

/-- Every bond has the least amount that can be staked before `init`, and no slash is proposed. -/
structure Stuck (s : State) : Prop where
  large : ∀ i bond, s.bond.get i = some bond → 10000000000 ≤ bond.amount
  slashes : ∀ n, s.pendingInspectorSlash.get n = none

theorem Stuck.same (h : Stuck s) (hk : SameBonds s s') : Stuck s' :=
  ⟨hk.bond ▸ h.large, hk.slashes ▸ h.slashes⟩

theorem Stuck.amountAt_nonneg (h : Stuck s) (i : Address) : 0 ≤ amountAt s i := by
  rw [amountAt]
  split
  · rename_i hb
    exact (h.large i _ hb).trans' (by decide)
  · exact le_rfl

theorem tdiv_of_nonpos (h : a ≤ 0) (b : Int) : a.tdiv b = -(-a / b) := by
  rw [← Int.tdiv_eq_ediv_of_nonneg (neg_nonneg.mpr h), Int.neg_tdiv, neg_neg]

/-- Of a negative rate the low tier takes least. -/
theorem Effective.le_low (h : Effective s rate) (hneg : slashBps s ≤ 0) :
    rate ≤ (slashBps s * 25).tdiv 100 := by
  obtain ⟨severity, h⟩ := h
  cases severity with
  | low =>
    simp only [tierPenaltyBps, bind_ok, i128Mul_ok, i128Div_ok] at h
    obtain ⟨_, ⟨_, rfl⟩, _, _, rfl⟩ := h
    exact le_rfl
  | medium =>
    simp only [tierPenaltyBps, bind_ok, i128Mul_ok, i128Div_ok] at h
    obtain ⟨_, ⟨_, rfl⟩, _, _, rfl⟩ := h
    rw [tdiv_of_nonpos (by omega), tdiv_of_nonpos (by omega)]
    omega
  | high =>
    cases h
    rw [tdiv_of_nonpos (by omega)]
    omega

/-- Where a bond cannot be staked after `init`, a penalty is only computed if the least one that
could be staked before it allows for that. -/
structure Harmless (bps : Int) (days : Nat) : Prop where
  lock : 2 ^ 64 ≤ days * 86400
  overflows : ¬ InI128 (10000000000 * (bps * 25).tdiv 100)

theorem Stuck.no_penalty (h : Stuck s) (hc : Configured admin bps days s) (hneg : bps < 0)
    (hbar : Harmless bps days) (hb : s.bond.get i = some bond) (he : Effective s rate) :
    ¬ InI128 (bond.amount * rate) := by
  have hrate : slashBps s = bps := by rw [slashBps, hc.rate]; rfl
  have hle := he.le_low (hrate ▸ hneg.le)
  rw [hrate] at hle
  have hlow : (bps * 25).tdiv 100 ≤ 0 := by
    rw [tdiv_of_nonpos (by omega)]
    omega
  have hlarge := h.large i bond hb
  have hover := hbar.overflows
  have hmul : bond.amount * rate ≤ 10000000000 * (bps * 25).tdiv 100 :=
    calc bond.amount * rate ≤ 10000000000 * rate :=
          mul_le_mul_of_nonpos_right hlarge (hle.trans hlow)
      _ ≤ 10000000000 * (bps * 25).tdiv 100 := mul_le_mul_of_nonneg_left hle (by decide)
  simp only [InI128] at hover ⊢
  omega

theorem Changes.stuck (h : Changes env s s' c o) (hs : Settled admin bps days s) (hneg : bps < 0)
    (hbar : Harmless bps days) (hk : Stuck s) : Stuck s' := by
  cases h with
  | init _ _ _ _ hsame | pause hsame | unpause hsame | setMinBond hsame | setWindow hsame =>
    exact hk.same hsame
  | @stake i amount x _ _ hl hx hpost hmin =>
    rcases hs with ⟨_, hdefault⟩ | hc
    · have hleast : 10000000000 ≤ amount := by
        rw [minBond, hdefault] at hmin
        exact hmin
      have hn := hk.amountAt_nonneg i
      cases hpost
      refine ⟨fun j bond hb => ?_, hk.slashes⟩
      rw [putBond, Store.get_set] at hb
      split at hb
      · cases hb
        omega
      · exact hk.large j bond hb
    · rw [lockDays, hc.lock] at hl
      exact absurd hl (not_lt.mpr hbar.lock)
  | @unstake i bond _ _ _ _ hpost =>
    cases hpost
    refine ⟨fun j bond hb => ?_, hk.slashes⟩
    rw [Store.get_remove] at hb
    split at hb
    · cases hb
    · exact hk.large j bond hb
  | slash ha hb _ _ hp =>
    exact absurd hp (hk.no_penalty (hs.configured ha) hneg hbar hb ⟨.high, rfl⟩)
  | propose ha hb ht _ _ _ hp =>
    exact absurd hp (hk.no_penalty (hs.configured ha) hneg hbar hb ⟨_, ht⟩)
  | finalize _ hq | cancel _ hq => cases (hk.slashes _).symm.trans hq

section
variable {own admin : Address} {least bps : Int} {days : Nat} {s : State} {t : History own}
  (h : (machine own).Run .fresh t s) (hw : StartsWith (.init admin least bps days) t)
include h hw

theorem run_settled : Settled admin bps days s :=
  h.invariant_of (P := fun _ => Settled admin bps days) hw (.inl ⟨rfl, rfl⟩)
    fun hp he hc => (invoke_changes he).settled hc hp

theorem run_stuck (hneg : bps < 0) (hbar : Harmless bps days) : Stuck s := by
  have hboth : Settled admin bps days s ∧ Stuck s := by
    refine h.invariant_of (P := fun _ s => Settled admin bps days s ∧ Stuck s) hw
      ⟨.inl ⟨rfl, rfl⟩, nofun, fun _ => rfl⟩ ?_
    rintro t s i s' o ⟨hs, hk⟩ he hc
    have hch : Changes i.1 s s' i.2 o := invoke_changes he
    exact ⟨hch.settled hc hs, hch.stuck hs hneg hbar hk⟩
  exact hboth.2

end

theorem run_fair {t : History own} (h : (machine own).Run .fresh t s)
    (hw : StartsWith (.init admin least bps days) t)
    (hcase : 0 ≤ bps ∨ admin = own ∨ Harmless bps days) : ∀ e ∈ t, Fair e := by
  intro e he
  obtain ⟨later, earlier, rfl⟩ := List.append_of_mem he
  obtain ⟨hr, hs⟩ := h.upTo
  have hw' : StartsWith (.init admin least bps days) earlier := fun e' he' =>
    hw e' (List.mem_append_right _ (List.mem_cons_of_mem _ he'))
  apply (invoke_changes hs).fair
  intro caller i bond rate ha hb heff hp
  have hc := (run_settled hr hw').configured ha
  by_contra hneg
  have hrate : slashBps e.pre = bps := by rw [slashBps, hc.rate]; rfl
  rw [hrate] at hneg
  rcases hcase with hbps | rfl | hbar
  · exact hneg hbps
  · have hown := e.input.1.ne_own ha.signed
    cases ha.current.symm.trans hc.current
    exact hown rfl
  · exact (run_stuck hr hw' (not_le.mp hneg) hbar).no_penalty hc (not_le.mp hneg) hbar hb heff hp

/-- A bond of which a negative rate takes a negative share. -/
structure Negative (bps a : Int) : Prop where
  positive : 0 < a
  fits : InI128 a
  product : InI128 (a * bps)
  share : (a * bps).tdiv 10000 < 0
  shareFits : InI128 ((a * bps).tdiv 10000)
  left : InI128 (a - (a * bps).tdiv 10000)

theorem exists_negative (hb : InI128 bps) (hneg : bps < 0) : ∃ a, Negative bps a := by
  obtain ⟨hl, _⟩ := hb
  by_cases hlow : bps ≤ -10000
  · have hshare : bps.tdiv 10000 = -(-bps / 10000) := by
      rw [← neg_neg bps, Int.neg_tdiv, Int.tdiv_eq_ediv_of_nonneg (by omega), neg_neg]
    refine ⟨1, by decide, by decide, ?_, ?_, ?_, ?_⟩ <;>
      simp only [one_mul, hshare, InI128] <;> omega
  · have hshare : (10000 * bps).tdiv 10000 = bps := Int.mul_tdiv_cancel_left _ (by decide)
    refine ⟨10000, by decide, by decide, ?_, ?_, ?_, ?_⟩ <;>
      simp only [hshare, InI128] <;> omega

theorem stakeBond_of {env : Env own} (hp : isPaused s = false) (hi : env.authorized i = true)
    (hpos : 0 < a) (hmin : minBond s ≤ a) (hl : lockDays s * 86400 < 2 ^ 64)
    (ht : env.timestamp = 0) (hn : s.bond.get i = none) (hf : InI128 a) :
    stakeBond env i a s = .ok (putBond i ⟨i, a, lockDays s * 86400, 0⟩ s) := by
  simp only [stakeBond, requireNotPaused, getBond, hn, ht, bind_ok, require_ok, requireAuth_ok,
    u64Mul_ok, u64Add_ok, i128Add_ok, pure_ok, zero_add, Option.map_none, Option.getD_none]
  exact ⟨(), hp, (), hi, (), hpos, (), hmin, _, ⟨hl, rfl⟩, _, ⟨hl, rfl⟩, _, ⟨hf, rfl⟩, rfl⟩

theorem slashInspector_of {env : Env own} (ha : ByAdmin env s admin)
    (hb : s.bond.get i = some bond) (hbps : slashBps s = bps) (hneg : Negative bps bond.amount)
    (hc : bond.slashCount = 0) :
    slashInspector env admin i s =
      .ok (putBond i (bond.reduce ((bond.amount * bps).tdiv 10000)) s,
        (bond.amount * bps).tdiv 10000) := by
  have hle : ¬ bond.amount < (bond.amount * bps).tdiv 10000 :=
    not_lt.mpr (hneg.share.trans hneg.positive).le
  have hfits : bond.Fits ((bond.amount * bps).tdiv 10000) := ⟨hneg.left, by rw [hc]; decide⟩
  simp only [slashInspector, penaltyOf, getBond, hbps, bind_ok, requireAdmin_ok, okOr_ok,
    i128Mul_ok, i128Div_ok, reduceBond_ok, pure_ok]
  refine ⟨(), ha, bond, hb, _, ⟨_, ⟨hneg.product, rfl⟩, by decide, hneg.shareFits, rfl⟩, ?_⟩
  rw [if_neg hle]
  exact ⟨_, ⟨hfits, rfl⟩, rfl⟩

/-- The state that `init` leaves behind on a new contract. -/
def initialized (admin : Address) (least bps : Int) (days : Nat) : State :=
  { State.fresh with
    admin := some admin
    minBondAmount := some least
    slashPenaltyBps := some bps
    unstakeLockDays := some days }

theorem run_call (env : Env own) (c : Call) (h : (machine own).Run s₀ t s)
    (hi : invoke env s c = some (s', o)) :
    (machine own).Run s₀ (⟨s, (env, c), o, s'⟩ :: t) s' := .commit h hi

theorem exists_paid (least : Int) (hneg : Negative bps a) (hne : admin ≠ own)
    (hl : days * 86400 < 2 ^ 64) :
    ∃ (t : History own) (s : State), (machine own).Run .fresh t s ∧
      StartsWith (.init admin least bps days) t ∧
      ∃ e ∈ t, ∃ i, e.input.2.slashes = true ∧ subject e = some i ∧ slashed e < 0 := by
  have hsigned (b : Address) (hb : b ≠ own) : (Env.signed own 0).authorized b = true := by
    simpa [Env.signed] using hb
  let i : Address := ⟨own.id + 1⟩
  have hi : i ≠ own := fun he => absurd (congrArg Address.id he) (Nat.succ_ne_self _)
  have hinit : init admin least bps days .fresh = .ok (initialized admin least bps days) := rfl
  have hlow : setMinBond (.signed own 0) admin 1 (initialized admin least bps days) =
      .ok (initialized admin 1 bps days) := by
    rw [setMinBond, bind_of_ok ((requireAdmin_ok (u := ())).mpr ⟨rfl, hsigned admin hne⟩)]
    rfl
  have hstake : stakeBond (.signed own 0) i a (initialized admin 1 bps days) =
      .ok (putBond i ⟨i, a, days * 86400, 0⟩ (initialized admin 1 bps days)) :=
    stakeBond_of rfl (hsigned i hi) hneg.positive hneg.positive hl rfl rfl hneg.fits
  have hadmin : ByAdmin (.signed own 0)
      (putBond i ⟨i, a, days * 86400, 0⟩ (initialized admin 1 bps days)) admin :=
    ⟨rfl, hsigned admin hne⟩
  have hslash := slashInspector_of hadmin (Store.get_set_self _ _ _) rfl hneg rfl
  let env : Env own := .signed own 0
  have hrun := run_call env (.slashInspector admin i)
    (run_call env (.stakeBond i a)
      (run_call env (.setMinBond admin 1)
        (run_call env (.init admin least bps days) .start (commit_some.mpr ⟨_, hinit, rfl⟩))
        (commit_some.mpr ⟨_, hlow, rfl⟩))
      (commit_some.mpr ⟨_, hstake, rfl⟩))
    (commit_some.mpr ⟨_, hslash, rfl⟩)
  refine ⟨_, _, hrun, ?_, _, List.mem_cons_self, i, rfl, rfl, hneg.share⟩
  simp [StartsWith, Call.starts]

theorem Negative.of_large (hneg : rate < 0) (hp : InI128 (10000000000 * rate)) :
    Negative rate 10000000000 := by
  have hshare : (10000000000 * rate).tdiv 10000 = 1000000 * rate := by
    rw [show (10000000000 * rate : Int) = 10000 * (1000000 * rate) by ring]
    exact Int.mul_tdiv_cancel_left _ (by decide)
  refine ⟨by decide, by decide, hp, ?_, ?_, ?_⟩ <;> simp only [hshare, InI128] at hp ⊢ <;> omega

/-- Some tier computes a penalty on the least bond that can be staked before `init`. -/
theorem exists_effective (hneg : bps < 0) (hfit : InI128 (10000000000 * (bps * 25).tdiv 100)) :
    ∃ severity rate, Negative rate 10000000000 ∧ ∀ s, slashBps s = bps →
      (tierPenaltyBps s severity : Outcome ContractError Int) = .ok rate := by
  have hlow : (bps * 25).tdiv 100 = -(-(bps * 25) / 100) := tdiv_of_nonpos (by omega) 100
  rw [hlow, InI128] at hfit
  by_cases hz : (bps * 25).tdiv 100 = 0
  · refine ⟨.high, bps, .of_large hneg ?_, fun s hs => by rw [tierPenaltyBps, hs]; rfl⟩
    rw [hlow] at hz
    simp only [InI128]
    omega
  · refine ⟨.low, (bps * 25).tdiv 100, .of_large ?_ ?_, fun s hs => ?_⟩
    · omega
    · rwa [hlow, InI128]
    · simp only [tierPenaltyBps, bind_ok, i128Mul_ok, i128Div_ok, hs]
      refine ⟨_, ⟨?_, rfl⟩, by decide, ?_, rfl⟩
      · simp only [InI128]
        omega
      · rw [hlow, InI128]
        omega

theorem proposeInspectorSlash_of {env : Env own} (reportId : BytesN 32) (reason : Bytes)
    (ha : ByAdmin env s admin)
    (hb : s.bond.get i = some bond)
    (hr : (tierPenaltyBps s severity : Outcome ContractError Int) = .ok rate)
    (hneg : Negative rate bond.amount) (hn : s.nextSlashId = none)
    (hw : s.challengeWindow = none) (ht : env.timestamp = 0) :
    proposeInspectorSlash env admin i reportId reason severity s =
      .ok (putPendingInspectorSlash 1 ⟨1, i, severity, (bond.amount * rate).tdiv 10000, 604800,
        .pending, reportId, reason⟩ { s with nextSlashId := some 1 }, 1) := by
  have hmin : min ((bond.amount * rate).tdiv 10000) bond.amount = (bond.amount * rate).tdiv 10000 :=
    min_eq_left (hneg.share.trans hneg.positive).le
  have hwindow : env.timestamp + inspectorChallengeWindow { s with nextSlashId := some 1 } =
      604800 := by
    rw [inspectorChallengeWindow, ht, hw]
    rfl
  rw [proposeInspectorSlash, ← hmin]
  simp only [penaltyOf, getBond, nextSlashId, hn, bind_ok, requireAdmin_ok, okOr_ok, i128Mul_ok,
    i128Div_ok, u64Add_ok, pure_ok]
  exact ⟨(), ha, bond, hb, rate, hr, _, ⟨_, ⟨hneg.product, rfl⟩, by decide, hneg.shareFits, rfl⟩,
    _, ⟨1, ⟨by decide, rfl⟩, rfl⟩, 604800, ⟨hwindow ▸ by decide, hwindow⟩, rfl⟩

theorem exists_paid_early (least : Int) (days : Nat) (hneg : bps < 0) (hne : admin ≠ own)
    (hfit : InI128 (10000000000 * (bps * 25).tdiv 100)) :
    ∃ (t : History own) (s : State), (machine own).Run .fresh t s ∧
      StartsWith (.init admin least bps days) t ∧
      ∃ e ∈ t, ∃ i, e.input.2.slashes = true ∧ subject e = some i ∧ slashed e < 0 := by
  have hsigned (n : Nat) (b : Address) (hb : b ≠ own) :
      (Env.signed own n).authorized b = true := by
    simpa [Env.signed] using hb
  let i : Address := ⟨own.id + 1⟩
  have hi : i ≠ own := fun he => absurd (congrArg Address.id he) (Nat.succ_ne_self _)
  obtain ⟨severity, rate, hrate, htier⟩ := exists_effective hneg hfit
  have hstake : stakeBond (.signed own 0) i 10000000000 .fresh =
      .ok (putBond i ⟨i, 10000000000, 30 * 86400, 0⟩ .fresh) :=
    stakeBond_of rfl (hsigned 0 i hi) (by decide) le_rfl (by decide) rfl rfl (by decide)
  let s₁ : State := putBond i ⟨i, 10000000000, 30 * 86400, 0⟩ (initialized admin least bps days)
  have hinit : init admin least bps days (putBond i ⟨i, 10000000000, 30 * 86400, 0⟩ .fresh) =
      .ok s₁ := rfl
  have hbond : s₁.bond.get i = some ⟨i, 10000000000, 30 * 86400, 0⟩ := Store.get_set_self _ _ _
  have hadmin : ByAdmin (.signed own 0) s₁ admin := ⟨rfl, hsigned 0 admin hne⟩
  have hpropose := proposeInspectorSlash_of (.replicate 32 0) [] hadmin hbond (htier s₁ rfl) hrate
    rfl rfl rfl
  let q : PendingInspectorSlash := ⟨1, i, severity, (10000000000 * rate).tdiv 10000, 604800,
    .pending, .replicate 32 0, []⟩
  let s₂ : State := putPendingInspectorSlash 1 q { s₁ with nextSlashId := some 1 }
  have hq : s₂.pendingInspectorSlash.get 1 = some q := Store.get_set_self _ _ _
  have hmin : min q.penaltyAmount 10000000000 = q.penaltyAmount :=
    min_eq_left (hrate.share.trans hrate.positive).le
  have hfits : BondRecord.Fits (min q.penaltyAmount 10000000000)
      ⟨i, 10000000000, 30 * 86400, 0⟩ := by
    rw [hmin]
    exact ⟨hrate.left, (by decide : 0 + 1 < 2 ^ 32)⟩
  have hadmin' : ByAdmin (.signed own 604800) s₂ admin := ⟨rfl, hsigned 604800 admin hne⟩
  have hfinalize := finalizeInspectorSlash_ok.mpr
    ⟨hadmin', q, _, hq, rfl, le_rfl, hbond, hfits, rfl, rfl⟩
  let env : Env own := .signed own 0
  have hrun := run_call (.signed own 604800) (.finalizeInspectorSlash admin 1)
    (run_call env (.proposeInspectorSlash admin i (.replicate 32 0) [] severity)
      (run_call env (.init admin least bps days)
        (run_call env (.stakeBond i 10000000000) .start (commit_some.mpr ⟨_, hstake, rfl⟩))
        (commit_some.mpr ⟨_, hinit, rfl⟩))
      (commit_some.mpr ⟨_, hpropose, rfl⟩))
    (commit_some.mpr ⟨_, hfinalize, rfl⟩)
  refine ⟨_, _, hrun, ?_, _, List.mem_cons_self, i, rfl, rfl, hmin.trans_lt hrate.share⟩
  simp [StartsWith, Call.starts]

/-- The configuration is accounted for in every run exactly when its rate is not negative, or
nothing can be slashed in it. -/
theorem accounted_iff (own admin : Address) (least : Int) (days : Nat) (hb : InI128 bps) :
    (∀ (t : History own) s, (machine own).Run .fresh t s →
        StartsWith (.init admin least bps days) t → Accounted t s) ↔
      0 ≤ bps ∨ admin = own ∨ Harmless bps days := by
  constructor
  · intro hall
    by_contra hn
    obtain ⟨hneg, hne, hbar⟩ := (not_or.trans (and_congr Iff.rfl not_or)).mp hn
    have hpaid : ∃ (t : History own) (s : State), (machine own).Run .fresh t s ∧
        StartsWith (.init admin least bps days) t ∧
        ∃ e ∈ t, ∃ i, e.input.2.slashes = true ∧ subject e = some i ∧ slashed e < 0 := by
      by_cases hl : days * 86400 < 2 ^ 64
      · obtain ⟨a, ha⟩ := exists_negative hb (not_le.mp hneg)
        exact exists_paid least ha hne hl
      · refine exists_paid_early least days (not_le.mp hneg) hne ?_
        by_contra hover
        exact hbar ⟨not_lt.mp hl, hover⟩
    obtain ⟨t, s, hr, hw, e, he, i, hx, hsub, hlt⟩ := hpaid
    exact absurd ((hall t s hr hw).removes e he i hx hsub).nonneg (not_le.mpr hlt)
  · intro hcase t s hr hw
    exact run_accounted ⟨fun _ => rfl, fun _ => rfl⟩ hr (run_fair hr hw hcase)

theorem accounted_iff_tenth :
    (∀ (t : History ⟨0⟩) s, (machine ⟨0⟩).Run .fresh t s →
        StartsWith (.init ⟨1⟩ 1000 1000 0) t → Accounted t s) ↔
      (0 : Int) ≤ 1000 ∨ (⟨1⟩ : Address) = ⟨0⟩ ∨ Harmless 1000 0 :=
  accounted_iff ⟨0⟩ ⟨1⟩ 1000 0 (by decide)

/-- An inspector who is slashed at minus ten percent gains a tenth. -/
theorem negative_rate_pays :
    ¬ ∀ (admin : Address) (least bps : Int) (days : Nat), InI128 bps →
      ∀ (t : History ⟨0⟩) s, (machine ⟨0⟩).Run .fresh t s →
        StartsWith (.init admin least bps days) t → Accounted t s := by
  intro hall
  have hacc := hall ⟨1⟩ 1000 (-1000) 0 (by decide) _ _
    ((machine ⟨0⟩).run_replay .fresh [(.signed ⟨0⟩ 0, .init ⟨1⟩ 1000 (-1000) 0),
      (.signed ⟨0⟩ 0, .stakeBond ⟨2⟩ 1000), (.signed ⟨0⟩ 1, .slashInspector ⟨1⟩ ⟨2⟩)])
    (by decide)
  have hremoves := hacc.removes _ List.mem_cons_self ⟨2⟩ rfl rfl
  exact absurd hremoves.nonneg (by decide)

end Shelterflex.InspectorBond
