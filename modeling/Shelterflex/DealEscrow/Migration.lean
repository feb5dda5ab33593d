import Shelterflex.DealEscrow.PendingRelease

/-! The migration to the latest schema, while releases are pending. -/

namespace Shelterflex.DealEscrow
open Lib
set_option autoImplicit true

/-- An amount of a deal that the second schema alone recorded. -/
def legacyAmount (fromVersion : Nat) (m : Store Bytes Int) (dealId : Bytes) : Int :=
  if fromVersion = storageSchemaV2 then m.getD dealId 0 else 0

/-- What the migration makes of a deal. -/
def legacyState (fromVersion : Nat) (s : State) (dealId : Bytes) : DealState :=
  ⟨getDealBalance s dealId, legacyAmount fromVersion s.legacyLockedAmountV2 dealId,
    legacyAmount fromVersion s.legacyPendingPayoutV2 dealId⟩

def Migratable (d : DealState) : Prop := assertDealInvariants d = .ok ()

/-- A pending release is locked in full. -/
def PendingLocked (s : State) (dealId : Bytes) : Prop :=
  ∀ p, s.pendingRentRelease.get dealId = some p →
    (getDealState s dealId).lockedAmount = p.amount ∧
      (getDealState s dealId).pendingPayout = p.amount ∧
      p.amount ≤ (getDealState s dealId).totalBalance

theorem migrateDeal_ok :
    migrateDeal fromVersion s dealId = .ok s' ↔
      Migratable (legacyState fromVersion s dealId) ∧
        s' = putDealState dealId (legacyState fromVersion s dealId) s := by
  change (assertDealInvariants (legacyState fromVersion s dealId) >>= fun _ => _) = _ ↔ _
  rw [bind_ok]
  constructor
  · rintro ⟨_, hm, h⟩
    exact ⟨hm, (pure_ok.mp h).symm⟩
  · rintro ⟨hm, rfl⟩
    exact ⟨(), hm, rfl⟩

/-- The loop of the migration: the order of the ids and repetitions do not matter. -/
theorem migrateDeal_fold {dealIds : List Bytes} :
    dealIds.foldlM (migrateDeal fromVersion) s = .ok s' ↔
      (∀ dealId ∈ dealIds, Migratable (legacyState fromVersion s dealId)) ∧
        s' = { s with
          dealState := s.dealState.setAll (legacyState fromVersion s) dealIds } := by
  induction dealIds generalizing s with
  | nil => exact ⟨fun h => ⟨nofun, (pure_ok.mp h).symm⟩, fun ⟨_, h⟩ => congrArg Except.ok h.symm⟩
  | cons dealId dealIds ih =>
    rw [List.foldlM_cons, bind_ok, List.forall_mem_cons]
    constructor
    · rintro ⟨s₁, h₁, h⟩
      obtain ⟨hm, rfl⟩ := migrateDeal_ok.mp h₁
      obtain ⟨hall, rfl⟩ := ih.mp h
      exact ⟨⟨hm, hall⟩, rfl⟩
    · rintro ⟨⟨hm, hall⟩, rfl⟩
      exact ⟨_, migrateDeal_ok.mpr ⟨hm, rfl⟩, ih.mpr ⟨hall, rfl⟩⟩

section
variable {env : Env own} {s s' : State}

/-- The migration that the call asks for is not made. -/
def Rejected (env : Env own) (admin : Address) (fromVersion : Nat) (dealIds : List Bytes)
    (s : State) : Prop :=
  ¬ (env.authorized admin = true ∧ s.gov.admin = some admin) ∨
    getStorageSchemaVersion s ≠ fromVersion ∨
    ∃ dealId ∈ dealIds, ¬ Migratable (legacyState fromVersion s dealId)

theorem migrateStorageSchema_ok
    (hv : getStorageSchemaVersion s = storageSchemaV1 ∨
      getStorageSchemaVersion s = storageSchemaV2) :
    migrateStorageSchema env admin fromVersion dealIds s = .ok s' ↔
      ¬ Rejected env admin fromVersion dealIds s ∧
        s' = { s with
          dealState := s.dealState.setAll (legacyState fromVersion s) dealIds
          gov := { s.gov with storageSchemaVersion := some storageSchemaV3 } } := by
  have hold : getStorageSchemaVersion s ≠ storageSchemaV3 := by
    rcases hv with h | h <;> rw [h] <;> decide
  have hnot : ¬ Rejected env admin fromVersion dealIds s ↔
      (env.authorized admin = true ∧ s.gov.admin = some admin) ∧
        getStorageSchemaVersion s = fromVersion ∧
        ∀ dealId ∈ dealIds, Migratable (legacyState fromVersion s dealId) := by
    simp only [Rejected, not_or, not_not, ne_eq, not_exists]
    simp only [not_and, not_not]
  rw [hnot]
  simp only [migrateStorageSchema, requireAdmin, requireAdminPermission, if_neg hold, bind_ok,
    expect_ok, requireAuth_ok, require_ok, migrateDeal_fold, pure_ok]
  constructor
  · rintro ⟨_, ⟨a, ha, _, hauth, rfl⟩, _, hcur, _, _, _, ⟨hall, rfl⟩, rfl⟩
    exact ⟨⟨⟨hauth, ha⟩, hcur, hall⟩, rfl⟩
  · rintro ⟨⟨⟨hauth, ha⟩, rfl, hall⟩, rfl⟩
    exact ⟨(), ⟨admin, ha, (), hauth, rfl⟩, (), rfl, (), hv, _, ⟨hall, rfl⟩, rfl⟩

theorem getDealState_migrated (dealId : Bytes) :
    getDealState { s with
        dealState := s.dealState.setAll (legacyState fromVersion s) dealIds
        gov := g } dealId =
      if dealId ∈ dealIds then legacyState fromVersion s dealId else getDealState s dealId := by
  simp only [getDealState, Store.getD, Store.get_setAll]
  split <;> rfl

/-- What a migration of the listed deals promises. -/
structure Migrates (own : Address) (dealIds : List Bytes) (s s' : State) : Prop where
  schema : getStorageSchemaVersion s' = storageSchemaV3
  total : ∀ dealId ∈ dealIds, (getDealState s' dealId).totalBalance = getDealBalance s' dealId ∧
    getDealBalance s' dealId = getDealBalance s dealId
  pending : ∀ dealId, PendingLocked s' dealId
  unlisted : ∀ dealId, dealId ∉ dealIds → s'.dealState.get dealId = s.dealState.get dealId ∧
    deal s' dealId = deal s dealId
  again : ∀ (env : Env own) admin fromVersion dealIds s'',
    migrateStorageSchema env admin fromVersion dealIds s' = .ok s'' → s'' = s'

/-- A pending release stays locked when the older schema recorded its lock, or when its deal is not
listed. -/
theorem pendingLocked_migrated
    (hm : ∀ dealId ∈ dealIds, Migratable (legacyState fromVersion s dealId)) :
    PendingLocked { s with
        dealState := s.dealState.setAll (legacyState fromVersion s) dealIds
        gov := g } dealId ↔
      if dealId ∈ dealIds then
        ∀ p, s.pendingRentRelease.get dealId = some p →
          legacyAmount fromVersion s.legacyLockedAmountV2 dealId = p.amount
      else PendingLocked s dealId := by
  simp only [PendingLocked, getDealState_migrated]
  split
  · rename_i hmem
    obtain ⟨_, hpair, hle⟩ := assertDealInvariants_ok.mp (hm dealId hmem)
    refine forall₂_congr fun p hp => ⟨And.left, fun h => ⟨h, hpair.symm.trans h, ?_⟩⟩
    exact h ▸ hle
  · rfl

theorem migrates_iff (hl : ∀ dealId, PendingLocked s dealId)
    (hm : ∀ dealId ∈ dealIds, Migratable (legacyState fromVersion s dealId)) :
    Migrates own dealIds s { s with
        dealState := s.dealState.setAll (legacyState fromVersion s) dealIds
        gov := { s.gov with storageSchemaVersion := some storageSchemaV3 } } ↔
      ∀ dealId ∈ dealIds, ∀ p, s.pendingRentRelease.get dealId = some p →
        legacyAmount fromVersion s.legacyLockedAmountV2 dealId = p.amount := by
  constructor
  · intro h dealId hmem
    have hp := (pendingLocked_migrated hm).mp (h.pending dealId)
    rwa [if_pos hmem] at hp
  · intro h
    refine ⟨rfl, fun dealId hmem => ⟨?_, rfl⟩, fun dealId => ?_, fun dealId hmem => ?_, ?_⟩
    · rw [getDealState_migrated, if_pos hmem]
      rfl
    · refine (pendingLocked_migrated hm).mpr ?_
      split
      · exact h dealId ‹_›
      · exact hl dealId
    · refine ⟨(Store.get_setAll ..).trans (if_neg hmem), ?_⟩
      simp only [deal, getDealState_migrated, if_neg hmem]
      rfl
    · intro env admin version ids s'' h
      exact migrateStorageSchema_noop rfl h

/-- The migration fails and changes nothing, or it keeps its promise. -/
def MigratesSafely (tok : Token T) (env : Env own) (admin : Address) (fromVersion : Nat)
    (dealIds : List Bytes) (w : World T) : Prop :=
  let r := (machine tok own).apply ([], w)
    (.call env (.migrateStorageSchema admin fromVersion dealIds))
  r = ([], w) ∨ Migrates own dealIds w.escrow r.2.escrow

/-- A migration that is made keeps its promise exactly if each pending release of a listed deal is
recorded as the amount that the older schema locked. The first schema recorded none. -/
theorem migration_safe_iff {tok : Token T} {w : World T}
    (hv : getStorageSchemaVersion w.escrow = storageSchemaV1 ∨
      getStorageSchemaVersion w.escrow = storageSchemaV2)
    (hl : ∀ dealId, PendingLocked w.escrow dealId) (admin : Address) (fromVersion : Nat)
    (dealIds : List Bytes) :
    MigratesSafely tok env admin fromVersion dealIds w ↔
      Rejected env admin fromVersion dealIds w.escrow ∨
        ∀ dealId ∈ dealIds, ∀ p, w.escrow.pendingRentRelease.get dealId = some p →
          legacyAmount fromVersion w.escrow.legacyLockedAmountV2 dealId = p.amount := by
  by_cases hr : Rejected env admin fromVersion dealIds w.escrow
  · have hnone : (machine tok own).step w
        (.call env (.migrateStorageSchema admin fromVersion dealIds)) = none := by
      refine Option.eq_none_iff_forall_ne_some.mpr fun r h => ?_
      obtain ⟨s', hs, _⟩ := commit_some.mp h
      exact ((migrateStorageSchema_ok hv).mp hs).1 hr
    exact iff_of_true (.inl (Machine.apply_of_none [] hnone)) (.inl hr)
  · have hs := (migrateStorageSchema_ok hv).mpr ⟨hr, rfl⟩
    have hm : ∀ dealId ∈ dealIds, Migratable (legacyState fromVersion w.escrow dealId) := by
      intro dealId hmem
      by_contra h
      exact hr (.inr (.inr ⟨dealId, hmem, h⟩))
    have happly : (machine tok own).apply ([], w)
        (.call env (.migrateStorageSchema admin fromVersion dealIds)) = _ :=
      Machine.apply_of_some [] (commit_some.mpr ⟨_, hs, rfl⟩)
    rw [MigratesSafely, happly]
    simp only [reduceCtorEq, Prod.mk.injEq, false_and, false_or, or_iff_right hr]
    exact migrates_iff hl hm

end

/-- The first schema, with a release requested before the migration. -/
def olderRequested : World (Address → Int) :=
  let s := sampleStart.escrow
  ((machine plainToken ⟨0⟩).replay
    ⟨{ s with gov := { s.gov with storageSchemaVersion := some storageSchemaV1 } },
      sampleStart.token⟩ requested).2

theorem olderRequested_locked (dealId : Bytes) : PendingLocked olderRequested.escrow dealId := by
  intro p hp
  by_cases hd : dealId = [1]
  · subst hd
    obtain rfl : ⟨⟨4⟩, 60, ⟨2⟩, 0, 86400, [1], [1]⟩ = p := Option.some.inj hp
    decide
  · have hs : olderRequested.escrow.pendingRentRelease =
        Store.empty.set [1] ⟨⟨4⟩, 60, ⟨2⟩, 0, 86400, [1], [1]⟩ := rfl
    rw [hs, Store.get_set_of_ne _ _ hd] at hp
    cases hp

theorem migration_safe_iff_requested :
    MigratesSafely plainToken (.signed ⟨0⟩ 0) ⟨1⟩ storageSchemaV1 [[1]] olderRequested ↔
      Rejected (.signed ⟨0⟩ 0) ⟨1⟩ storageSchemaV1 [[1]] olderRequested.escrow ∨
        ∀ dealId ∈ [[1]], ∀ p, olderRequested.escrow.pendingRentRelease.get dealId = some p →
          legacyAmount storageSchemaV1 olderRequested.escrow.legacyLockedAmountV2 dealId =
            p.amount :=
  migration_safe_iff (.inl (by decide)) olderRequested_locked ⟨1⟩ storageSchemaV1 [[1]]

/-- The migration of a deal from the first schema unlocks its pending release. -/
theorem migration_unlocks :
    ¬ ∀ w : World (Address → Int),
      getStorageSchemaVersion w.escrow = storageSchemaV1 ∨
        getStorageSchemaVersion w.escrow = storageSchemaV2 →
      (∀ dealId, PendingLocked w.escrow dealId) →
      ∀ (env : Env ⟨0⟩) admin fromVersion dealIds,
        MigratesSafely plainToken env admin fromVersion dealIds w := by
  intro hall
  rcases hall olderRequested (.inl (by decide)) olderRequested_locked (.signed ⟨0⟩ 0) ⟨1⟩
    storageSchemaV1 [[1]] with h | h
  · exact absurd (congrArg (fun r => r.1.length) h) (by decide)
  · have hl := (h.pending [1] ⟨⟨4⟩, 60, ⟨2⟩, 0, 86400, [1], [1]⟩ (by decide)).1
    exact absurd hl (by decide)

end Shelterflex.DealEscrow
