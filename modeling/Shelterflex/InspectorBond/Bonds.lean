import Shelterflex.InspectorBond.Model

/-! What each call does to the bonds and to the proposed slashes. -/

namespace Shelterflex.InspectorBond
open Lib
set_option autoImplicit true

abbrev Step (own : Address) := Event State (Env own × Call) Output

abbrev History (own : Address) := List (Step own)

structure ByAdmin (env : Env own) (s : State) (admin : Address) : Prop where
  current : s.admin = some admin
  signed : env.authorized admin = true

/-- What a slash makes of a bond. -/
def BondRecord.reduce (n : Int) (bond : BondRecord) : BondRecord :=
  { bond with amount := max (bond.amount - n) 0, slashCount := bond.slashCount + 1 }

/-- The arithmetic of a slash stays within its types. -/
structure BondRecord.Fits (n : Int) (bond : BondRecord) : Prop where
  amount : InI128 (bond.amount - n)
  count : bond.slashCount + 1 < 2 ^ 32

def amountAt (s : State) (i : Address) : Int :=
  match s.bond.get i with
  | some bond => bond.amount
  | none => 0

theorem amountAt_of (h : s.bond.get i = some bond) : amountAt s i = bond.amount := by
  rw [amountAt, h]

theorem amountAt_congr (h : s'.bond.get i = s.bond.get i) : amountAt s' i = amountAt s i := by
  rw [amountAt, amountAt, h]

theorem amountAt_put (s : State) (i j : Address) (x : BondRecord) :
    amountAt (putBond i x s) j = if i = j then x.amount else amountAt s j := by
  split
  · subst j
    exact amountAt_of (Store.get_set_self _ _ _)
  · exact amountAt_congr (Store.get_set_of_ne _ _ (Ne.symm ‹_›))

theorem amountAt_remove (h : s'.bond = s.bond.remove i) (j : Address) :
    amountAt s' j = if i = j then 0 else amountAt s j := by
  split
  · subst j
    rw [amountAt, h, Store.get_remove_self]
  · exact amountAt_congr (h ▸ Store.get_remove_of_ne _ (Ne.symm ‹_›))

/-- A slash of at most the bond leaves the rest. -/
theorem reduce_amount (bond : BondRecord) (n : Int) :
    (bond.reduce (min n bond.amount)).amount = bond.amount - min n bond.amount :=
  max_eq_left (sub_nonneg.mpr (min_le_right _ _))

/-- The settings that only `init` writes. -/
structure SameConfig (s s' : State) : Prop where
  admin : s'.admin = s.admin
  bps : s'.slashPenaltyBps = s.slashPenaltyBps
  days : s'.unstakeLockDays = s.unstakeLockDays

structure SameBonds (s s' : State) : Prop where
  bond : s'.bond = s.bond
  slashes : s'.pendingInspectorSlash = s.pendingInspectorSlash
  next : s'.nextSlashId = s.nextSlashId

inductive Changes (env : Env own) (s s' : State) : Call → Output → Prop where
  | init (hn : s.admin = none) (ha : s'.admin = some admin) (hb : s'.slashPenaltyBps = some bps)
      (hd : s'.unstakeLockDays = some days) (hk : SameBonds s s') :
      Changes env s s' (.init admin least bps days) .unit
  | stake (ha : env.authorized i = true) (hpos : 0 < amount)
      (hl : lockDays s * 86400 < 2 ^ 64) (hx : x.amount = amountAt s i + amount)
      (hs : s' = putBond i x s) (hmin : minBond s ≤ amount) :
      Changes env s s' (.stakeBond i amount) .unit
  | unstake (ha : env.authorized i = true) (hb : s.bond.get i = some bond)
      (hmin : minBond s ≤ bond.amount) (hl : bond.lockedUntil ≤ env.timestamp)
      (hs : s' = { s with bond := s.bond.remove i, reentrancy := some false }) :
      Changes env s s' (.unstakeBond i) (.amount bond.amount)
  | slash (ha : ByAdmin env s admin) (hb : s.bond.get i = some bond)
      (hn : n = min ((bond.amount * slashBps s).tdiv 10000) bond.amount)
      (hs : s' = putBond i (bond.reduce n) s) (hp : InI128 (bond.amount * slashBps s)) :
      Changes env s s' (.slashInspector admin i) (.amount n)
  | propose (ha : ByAdmin env s admin) (hb : s.bond.get i = some bond)
      (ht : (tierPenaltyBps s severity : Outcome ContractError Int) = .ok bps)
      (hq : q.inspector = i ∧ q.status = .pending ∧
        q.penaltyAmount = min ((bond.amount * bps).tdiv 10000) bond.amount)
      (hn : n = s.nextSlashId.getD 0 + 1)
      (hs : s' = putPendingInspectorSlash n q { s with nextSlashId := some n })
      (hp : InI128 (bond.amount * bps)) :
      Changes env s s' (.proposeInspectorSlash admin i reportId reason severity) (.slashId n)
  | finalize (ha : ByAdmin env s admin) (hq : s.pendingInspectorSlash.get n = some q)
      (hst : q.status = .pending) (hd : q.deadline ≤ env.timestamp)
      (hb : s.bond.get q.inspector = some bond)
      (hf : bond.Fits (min q.penaltyAmount bond.amount))
      (hs : s' = putPendingInspectorSlash n { q with status := .finalized }
        (putBond q.inspector (bond.reduce (min q.penaltyAmount bond.amount)) s)) :
      Changes env s s' (.finalizeInspectorSlash admin n)
        (.amount (min q.penaltyAmount bond.amount))
  | cancel (ha : ByAdmin env s admin) (hq : s.pendingInspectorSlash.get n = some q)
      (hst : q.status = .pending)
      (hs : s' = putPendingInspectorSlash n { q with status := .cancelled } s) :
      Changes env s s' (.cancelInspectorSlash admin n) .unit
  | pause (hk : SameBonds s s') (hc : SameConfig s s') (ha : ByAdmin env s admin) :
      Changes env s s' (.pause admin) .unit
  | unpause (hk : SameBonds s s') (hc : SameConfig s s') (ha : ByAdmin env s admin) :
      Changes env s s' (.unpause admin) .unit
  | setMinBond (hk : SameBonds s s') (hc : SameConfig s s') (ha : ByAdmin env s admin) :
      Changes env s s' (.setMinBond admin amount) .unit
  | setWindow (hk : SameBonds s s') (hc : SameConfig s s') (ha : ByAdmin env s admin) :
      Changes env s s' (.setInspectorChallengeWindow admin secs) .unit

theorem requireAdmin_ok : requireAdmin env admin s = .ok u ↔ ByAdmin env s admin := by
  simp only [requireAdmin, requireAdminPermission, bind_ok, expect_ok, requireAuth_ok, require_ok]
  constructor
  · rintro ⟨a, ha, _, hs, rfl⟩
    exact ⟨ha, hs⟩
  · rintro ⟨ha, hs⟩
    exact ⟨admin, ha, (), hs, rfl⟩

theorem reduceBond_ok : (reduceBond bond n : Outcome ε BondRecord) = .ok bond' ↔
    bond.Fits n ∧ bond.reduce n = bond' := by
  simp only [reduceBond, bind_ok, i128Sub_ok, u32Add_ok, pure_ok]
  constructor
  · rintro ⟨_, ⟨ha, rfl⟩, _, ⟨hc, rfl⟩, rfl⟩
    exact ⟨⟨ha, hc⟩, rfl⟩
  · rintro ⟨hf, rfl⟩
    exact ⟨_, ⟨hf.amount, rfl⟩, _, ⟨hf.count, rfl⟩, rfl⟩

theorem penaltyOf_ok (h : (penaltyOf amount bps : Outcome ε Int) = .ok n) :
    InI128 (amount * bps) ∧ n = (amount * bps).tdiv 10000 := by
  simp only [penaltyOf, bind_ok, i128Mul_ok, i128Div_ok] at h
  obtain ⟨_, ⟨hp, rfl⟩, _, _, rfl⟩ := h
  exact ⟨hp, rfl⟩

theorem reentrancyScope_ok (h : reentrancyScope s = .ok s') :
    s' = { s with reentrancy := some false } := by
  simp only [reentrancyScope, bind_ok, pure_ok] at h
  obtain ⟨_, _, rfl⟩ := h
  rfl

theorem amountAt_eq (s : State) (i : Address) :
    amountAt s i = ((getBond s i).map (·.amount)).getD 0 := by
  rw [amountAt, getBond]
  cases s.bond.get i <;> rfl

theorem stakeBond_changes (h : stakeBond env i amount s = .ok s') :
    Changes env s s' (.stakeBond i amount) .unit := by
  simp only [stakeBond, bind_ok, requireAuth_ok, require_ok, u64Mul_ok, u64Add_ok, i128Add_ok,
    pure_ok] at h
  obtain ⟨_, _, _, ha, _, hpos, _, hmin, _, ⟨hl, rfl⟩, _, _, _, ⟨_, rfl⟩, rfl⟩ := h
  rw [← amountAt_eq] at *
  exact .stake ha hpos hl rfl rfl hmin

theorem unstakeBond_changes (h : unstakeBond env i s = .ok (s', n)) :
    Changes env s s' (.unstakeBond i) (.amount n) := by
  simp only [unstakeBond, getBond, bind_ok, requireAuth_ok, okOr_ok, require_ok, pure_ok,
    Prod.mk.injEq] at h
  obtain ⟨_, ha, bond, hb, _, hmin, _, hl, _, hr, rfl, rfl⟩ := h
  exact .unstake ha hb hmin hl (reentrancyScope_ok hr)

theorem slashInspector_changes (h : slashInspector env admin i s = .ok (s', n)) :
    Changes env s s' (.slashInspector admin i) (.amount n) := by
  simp only [slashInspector, getBond, bind_ok, requireAdmin_ok, okOr_ok, reduceBond_ok, pure_ok,
    Prod.mk.injEq] at h
  obtain ⟨_, ha, bond, hb, penalty, hp, _, ⟨_, rfl⟩, rfl, hn⟩ := h
  have hmin : n = min penalty bond.amount := by
    rw [← hn]
    split
    · exact (min_eq_right (le_of_lt ‹_›)).symm
    · exact (min_eq_left (not_lt.mp ‹_›)).symm
  obtain ⟨hp, hpenalty⟩ := penaltyOf_ok hp
  rw [hn, hmin, hpenalty]
  exact .slash ha hb rfl rfl hp

theorem proposeInspectorSlash_changes
    (h : proposeInspectorSlash env admin i reportId reason severity s = .ok (s', n)) :
    Changes env s s' (.proposeInspectorSlash admin i reportId reason severity) (.slashId n) := by
  simp only [proposeInspectorSlash, nextSlashId, getBond, bind_ok, requireAdmin_ok, okOr_ok,
    u64Add_ok, pure_ok, Prod.mk.injEq] at h
  obtain ⟨_, ha, bond, hb, bps, ht, penalty, hp, ⟨s₁, n₁⟩, ⟨_, ⟨_, rfl⟩, hs₁⟩, _, ⟨_, rfl⟩, rfl,
    rfl⟩ := h
  cases hs₁
  obtain ⟨hp, hpenalty⟩ := penaltyOf_ok hp
  rw [hpenalty]
  exact .propose ha hb ht ⟨rfl, rfl, rfl⟩ rfl rfl hp

theorem finalizeInspectorSlash_ok : finalizeInspectorSlash env admin n s = .ok (s', a) ↔
    ByAdmin env s admin ∧ ∃ q bond, s.pendingInspectorSlash.get n = some q ∧
      q.status = .pending ∧ q.deadline ≤ env.timestamp ∧ s.bond.get q.inspector = some bond ∧
      bond.Fits (min q.penaltyAmount bond.amount) ∧ a = min q.penaltyAmount bond.amount ∧
      s' = putPendingInspectorSlash n { q with status := .finalized }
        (putBond q.inspector (bond.reduce (min q.penaltyAmount bond.amount)) s) := by
  simp only [finalizeInspectorSlash, getPendingInspectorSlash, getBond, bind_ok, requireAdmin_ok,
    okOr_ok, require_ok, reduceBond_ok, pure_ok, Prod.mk.injEq]
  constructor
  · rintro ⟨_, ha, q, hq, _, hst, _, hd, bond, hb, _, ⟨hf, rfl⟩, rfl, rfl⟩
    exact ⟨ha, q, bond, hq, hst, hd, hb, hf, rfl, rfl⟩
  · rintro ⟨ha, q, bond, hq, hst, hd, hb, hf, rfl, rfl⟩
    exact ⟨(), ha, q, hq, (), hst, (), hd, bond, hb, _, ⟨hf, rfl⟩, rfl, rfl⟩

theorem cancelInspectorSlash_changes (h : cancelInspectorSlash env admin n s = .ok s') :
    Changes env s s' (.cancelInspectorSlash admin n) .unit := by
  simp only [cancelInspectorSlash, getPendingInspectorSlash, bind_ok, requireAdmin_ok, okOr_ok,
    require_ok, pure_ok] at h
  obtain ⟨_, ha, q, hq, _, hst, rfl⟩ := h
  exact .cancel ha hq hst rfl

theorem invoke_changes (h : invoke env s c = some (s', o)) : Changes env s s' c o := by
  cases c with
  | init admin least bps days =>
    obtain ⟨_, hs, he⟩ := commit_some.mp h
    cases he
    simp only [init, bind_ok, require_ok, pure_ok] at hs
    obtain ⟨_, hn, rfl⟩ := hs
    exact .init hn rfl rfl rfl ⟨rfl, rfl, rfl⟩
  | stakeBond i amount =>
    obtain ⟨_, hs, he⟩ := commit_some.mp h
    cases he
    exact stakeBond_changes hs
  | unstakeBond i =>
    obtain ⟨_, hs, he⟩ := commit_some.mp h
    cases he
    exact unstakeBond_changes hs
  | slashInspector admin i =>
    obtain ⟨_, hs, he⟩ := commit_some.mp h
    cases he
    exact slashInspector_changes hs
  | proposeInspectorSlash admin i reportId reason severity =>
    obtain ⟨_, hs, he⟩ := commit_some.mp h
    cases he
    exact proposeInspectorSlash_changes hs
  | finalizeInspectorSlash admin n =>
    obtain ⟨⟨_, a⟩, hok, he⟩ := commit_some.mp h
    cases he
    obtain ⟨ha, q, bond, hq, hst, hd, hb, hf, rfl, hs⟩ := finalizeInspectorSlash_ok.mp hok
    exact .finalize ha hq hst hd hb hf hs
  | cancelInspectorSlash admin n =>
    obtain ⟨_, hs, he⟩ := commit_some.mp h
    cases he
    exact cancelInspectorSlash_changes hs
  | pause admin =>
    obtain ⟨_, hs, he⟩ := commit_some.mp h
    cases he
    simp only [pause, bind_ok, requireAdmin_ok, pure_ok] at hs
    obtain ⟨_, ha, rfl⟩ := hs
    exact .pause ⟨rfl, rfl, rfl⟩ ⟨rfl, rfl, rfl⟩ ha
  | unpause admin =>
    obtain ⟨_, hs, he⟩ := commit_some.mp h
    cases he
    simp only [unpause, bind_ok, requireAdmin_ok, pure_ok] at hs
    obtain ⟨_, ha, rfl⟩ := hs
    exact .unpause ⟨rfl, rfl, rfl⟩ ⟨rfl, rfl, rfl⟩ ha
  | setMinBond admin amount =>
    obtain ⟨_, hs, he⟩ := commit_some.mp h
    cases he
    simp only [setMinBond, bind_ok, requireAdmin_ok, pure_ok] at hs
    obtain ⟨_, ha, rfl⟩ := hs
    exact .setMinBond ⟨rfl, rfl, rfl⟩ ⟨rfl, rfl, rfl⟩ ha
  | setInspectorChallengeWindow admin secs =>
    obtain ⟨_, hs, he⟩ := commit_some.mp h
    cases he
    simp only [setInspectorChallengeWindow, bind_ok, requireAdmin_ok, pure_ok] at hs
    obtain ⟨_, ha, rfl⟩ := hs
    exact .setWindow ⟨rfl, rfl, rfl⟩ ⟨rfl, rfl, rfl⟩ ha

end Shelterflex.InspectorBond
