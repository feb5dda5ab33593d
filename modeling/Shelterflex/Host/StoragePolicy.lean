import Shelterflex.Host.TtlStorage
import Shelterflex.Lib.Retention

/-! `soroban_storage_ttl` on both classes of entries, under mainnet's archival settings. -/

namespace Shelterflex
open Lib
set_option autoImplicit true

def persistentBumpThreshold : Nat := 90 * ledgersPerDay

def persistentBumpTo : Nat := 120 * ledgersPerDay

def mainnetMinPersistentTtl : Nat := 120 * ledgersPerDay

section
variable [DecidableEq κ]

/-- What touches an archived entry fails. -/
def touch (sequence : Nat) (k : κ) (m : Expiring κ ν) : Outcome ε Unit :=
  demand ((m.get k).all (sequence ≤ ·.liveUntil) = true) "archived entry"

def extendPersistentTtl (sequence : Nat) (k : κ) (m : Expiring κ ν) :
    Outcome ε (Expiring κ ν) := do
  touch sequence k m
  return m.extend sequence persistentBumpThreshold persistentBumpTo k

def setPersistent (sequence : Nat) (k : κ) (v : ν) (m : Expiring κ ν) :
    Outcome ε (Expiring κ ν) := do
  touch sequence k m
  return (m.write sequence (mainnetMinPersistentTtl - 1) k v).extend sequence
    persistentBumpThreshold persistentBumpTo k

def getPersistent (sequence : Nat) (k : κ) (m : Expiring κ ν) :
    Outcome ε (Option ν × Expiring κ ν) := do
  let m' ← extendPersistentTtl sequence k m
  return (m.read sequence k, m')

def hasPersistent (sequence : Nat) (k : κ) (m : Expiring κ ν) :
    Outcome ε (Bool × Expiring κ ν) := do
  let m' ← extendPersistentTtl sequence k m
  return ((m.read sequence k).isSome, m')

/-- Removal is not part of the policy, and fails on an archived entry like everything else. -/
def removePersistent (sequence : Nat) (k : κ) (m : Expiring κ ν) : Outcome ε (Expiring κ ν) := do
  touch sequence k m
  return m.remove k

inductive StorageClass where
  | persistent
  | temporary
deriving DecidableEq

def accessPersistent (sequence : Nat) (m : Expiring κ ν) :
    Access κ ν → Outcome Empty (Expiring κ ν × Answer ν)
  | .get k => (getPersistent sequence k m).map fun r => (r.2, .value r.1)
  | .has k => (hasPersistent sequence k m).map fun r => (r.2, .present r.1)
  | .extend k => (extendPersistentTtl sequence k m).map (·, .unit)
  | .set k v => (setPersistent sequence k v m).map (·, .unit)
  | .remove k => (removePersistent sequence k m).map (·, .unit)

def accessTemporary (sequence : Nat) (m : Expiring κ ν) : Access κ ν → Expiring κ ν × Answer ν
  | .get k => ((getTemporary sequence k m).2, .value (getTemporary sequence k m).1)
  | .has k => ((hasTemporary sequence k m).2, .present (hasTemporary sequence k m).1)
  | .extend k => (extendTemporaryTtl sequence k m, .unit)
  | .set k v => (setTemporary sequence k v m, .unit)
  | .remove k => (m.remove k, .unit)

/-- The entries of one class, accessed through the policy at the numbers of ledgers. -/
def StorageClass.machine (c : StorageClass) :
    Machine (Expiring κ ν) (Nat × Access κ ν) (Answer ν) where
  step m i :=
    match c with
    | .persistent => (accessPersistent i.1 m i.2).toOption
    | .temporary => some (accessTemporary i.1 m i.2)

/-- The policy of a class, with the least lifetime of its new entries. -/
def StorageClass.retention : StorageClass → Retention
  | .persistent => ⟨persistentBumpThreshold, persistentBumpTo, mainnetMinPersistentTtl - 1, true⟩
  | .temporary => ⟨temporaryBumpThreshold, temporaryBumpTo, mainnetMinTempTtl - 1, false⟩

theorem StorageClass.retention_sound (c : StorageClass) : c.retention.Sound := by
  cases c with
  | persistent => constructor <;> decide
  | temporary => constructor <;> decide

theorem accessPersistent_eq (sequence : Nat) (m : Expiring κ ν) (a : Access κ ν) :
    (accessPersistent sequence m a).toOption =
      StorageClass.persistent.retention.access sequence m a := by
  by_cases h : (m.get a.key).all (sequence ≤ ·.liveUntil) = true
  · have ht : (touch sequence a.key m : Outcome Empty Unit) = .ok () := if_pos h
    have hr : StorageClass.persistent.retention.Reaches sequence a.key m := fun _ => h
    rw [Retention.access, if_pos hr]
    cases a with
    | get k | has k | extend k | set k v | remove k =>
      simp only [Access.key] at ht
      simp only [accessPersistent, getPersistent, hasPersistent, extendPersistentTtl,
        setPersistent, removePersistent, ht, ok_bind]
      rfl
  · have ht : (touch sequence a.key m : Outcome Empty Unit) =
        .error (.trap (.panicked "archived entry")) := if_neg h
    have hr : ¬ StorageClass.persistent.retention.Reaches sequence a.key m := fun hr => h (hr rfl)
    rw [Retention.access, if_neg hr]
    cases a with
    | get k | has k | extend k | set k v | remove k =>
      simp only [Access.key] at ht
      simp only [accessPersistent, getPersistent, hasPersistent, extendPersistentTtl,
        setPersistent, removePersistent, ht]
      rfl

theorem accessTemporary_eq (sequence : Nat) (m : Expiring κ ν) (a : Access κ ν) :
    some (accessTemporary sequence m a) =
      StorageClass.temporary.retention.access sequence m a := by
  have hr : StorageClass.temporary.retention.Reaches sequence a.key m := by
    intro h
    cases h
  rw [Retention.access, if_pos hr]
  cases a with
  | get _ | has _ | extend _ | set _ _ | remove _ => rfl

theorem StorageClass.machine_eq (c : StorageClass) :
    (c.machine : Machine (Expiring κ ν) (Nat × Access κ ν) (Answer ν)) = c.retention.machine := by
  cases c with
  | persistent => exact congrArg Machine.mk (funext fun m => funext fun i => accessPersistent_eq ..)
  | temporary => exact congrArg Machine.mk (funext fun m => funext fun i => accessTemporary_eq ..)

theorem StorageClass.lasts_iff (c : StorageClass) {m : Expiring κ ν} :
    m.Lasts k v now ↔ ∃ m', c.machine.step m (now, .get k) = some (m', .value (some v)) := by
  rw [c.machine_eq]
  exact c.retention.lasts_iff_get

/-- However its uses are timed, an entry can be read back as it was written last, exactly as long
as each use comes at most one ledger more than the threshold after the one before. -/
theorem entries_kept_iff (c : StorageClass) (k : κ) (v : ν) (gap : Nat) :
    (∀ (t : Accesses κ ν) m now, c.machine.Run .empty t m → Kept gap k v now t →
      ∃ m', c.machine.step m (now, .get k) = some (m', .value (some v))) ↔
      gap ≤ c.retention.threshold + 1 := by
  have hwide : c.retention.start ≤ 2 * c.retention.threshold + 3 := by
    cases c with
    | persistent | temporary => decide
  rw [← c.retention.kept_iff c.retention_sound hwide k v]
  simp only [← c.lasts_iff]
  rw [c.machine_eq]

/-- Accesses that are a month of ledgers apart, or half a month for a temporary entry, let an entry
be unused for a whole life: for a persistent entry, four months less one ledger. -/
theorem entries_kept_monthly (c : StorageClass) {t : Accesses κ ν} {m : Expiring κ ν}
    (h : c.machine.Run .empty t m) (hs : c.retention.Spaced k t)
    (hk : Kept c.retention.start k v now t) :
    ∃ m', c.machine.step m (now, .get k) = some (m', .value (some v)) := by
  rw [c.machine_eq] at h
  exact c.lasts_iff.mp (c.retention.machine_kept_spaced c.retention_sound h hs hk)

end

/-- An entry is written, read after a month, and then left alone. -/
def monthlyReads : List (Nat × Access Nat Nat) :=
  [(0, .set 1 42), (30 * ledgersPerDay, .get 1)]

theorem entries_kept_monthly_read : ∃ m', StorageClass.persistent.machine.step
    (StorageClass.persistent.machine.replay .empty monthlyReads).2
      (150 * ledgersPerDay - 1, .get 1) = some (m', .value (some 42)) := by
  apply entries_kept_monthly .persistent (StorageClass.persistent.machine.run_replay _ monthlyReads)
  · decide
  · exact .use rfl (by decide) (.set rfl (by decide))

example : StorageClass.persistent.retention.start + 1 = 4 * (30 * ledgersPerDay) := by decide

end Shelterflex
