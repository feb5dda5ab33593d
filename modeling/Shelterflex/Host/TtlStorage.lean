import Shelterflex.Host.Basic
import Shelterflex.Lib.Expiring

namespace Shelterflex
open Lib
set_option autoImplicit true

/-- What a call sees of the ledger, the number of the ledger included. -/
structure LedgerEnv (own : Address) extends Env own where
  sequence : Nat

/-! `soroban_storage_ttl`, on the temporary entries of a contract -/

def ledgersPerDay : Nat := 17280

def temporaryBumpThreshold : Nat := 15 * ledgersPerDay

def temporaryBumpTo : Nat := 30 * ledgersPerDay

def secondsPerLedger : Nat := 5

def mainnetMinTempTtl : Nat := ledgersPerDay

section
variable [DecidableEq κ]

def extendTemporaryTtl (sequence : Nat) (k : κ) (m : Expiring κ ν) : Expiring κ ν :=
  m.extend sequence temporaryBumpThreshold temporaryBumpTo k

def setTemporary (sequence : Nat) (k : κ) (v : ν) (m : Expiring κ ν) : Expiring κ ν :=
  extendTemporaryTtl sequence k (m.write sequence (mainnetMinTempTtl - 1) k v)

def getTemporary (sequence : Nat) (k : κ) (m : Expiring κ ν) : Option ν × Expiring κ ν :=
  (m.read sequence k, extendTemporaryTtl sequence k m)

def hasTemporary (sequence : Nat) (k : κ) (m : Expiring κ ν) : Bool × Expiring κ ν :=
  ((m.read sequence k).isSome, extendTemporaryTtl sequence k m)

theorem extendTemporaryTtl_lasts {m : Expiring κ ν} (h : m.Lasts k v n) (sequence : Nat)
    (k' : κ) : (extendTemporaryTtl sequence k' m).Lasts k v n :=
  h.extend _ _ _ _

theorem setTemporary_lasts {m : Expiring κ ν} {sequence : Nat} (h : m.Lasts k v n) (hk : k ≠ k')
    (v' : ν) : (setTemporary sequence k' v' m).Lasts k v n := by
  apply extendTemporaryTtl_lasts
  apply h.of_get
  rw [Expiring.write, Store.get_set_of_ne _ _ hk]

/-- An entry that was not there lasts for thirty days of ledgers. -/
theorem setTemporary_new {m : Expiring κ ν} {sequence : Nat} (h : m.read sequence k = none)
    (v : ν) : (setTemporary sequence k v (extendTemporaryTtl sequence k m)).Lasts k v
      (sequence + temporaryBumpTo) := by
  rw [extendTemporaryTtl, Expiring.extend_of_absent h]
  exact Expiring.lasts_new h (by decide) v _

theorem extendTemporaryTtl_stored {m : Expiring κ ν} {sequence : Nat} :
    (extendTemporaryTtl sequence k m).get k' ≠ none ↔ m.get k' ≠ none :=
  Expiring.extend_stored

theorem setTemporary_stored {m : Expiring κ ν} {sequence : Nat} (hk : k' ≠ k) :
    (setTemporary sequence k v m).get k' ≠ none ↔ m.get k' ≠ none := by
  rw [setTemporary, extendTemporaryTtl_stored, Expiring.write, Store.get_set_of_ne _ _ hk]

end

end Shelterflex
