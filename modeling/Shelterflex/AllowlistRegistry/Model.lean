import Shelterflex.Host.TtlStorage
import Shelterflex.Lib.Machine
import Shelterflex.Lib.Table

namespace Shelterflex.AllowlistRegistry
open Lib
set_option autoImplicit true

/-- An entry whose `expiresAt` is zero does not expire. -/
structure Entry where
  label : Bytes
  expiresAt : Nat
  addedAt : Nat
deriving DecidableEq, Repr

inductive Error where
  | notInitialized
  | alreadyInitialized
  | unauthorized
  | entryNotFound
  | alreadyExists
  | invalidExpiry
deriving DecidableEq, Repr

abbrev Result (α : Type) := Outcome Error α

abbrev Registry := Table Address Entry

structure State where
  admin : Option Address
  registry : Option Registry

def State.fresh : State := ⟨none, none⟩

def admin (s : State) : Result Address := okOr s.admin .notInitialized

def registry (s : State) : Registry := s.registry.getD ∅

def saveRegistry (reg : Registry) (s : State) : State := { s with registry := some reg }

def isExpired (entry : Entry) (now : Nat) : Bool :=
  entry.expiresAt ≠ 0 ∧ entry.expiresAt ≤ now

/-- `initialize` in the source. -/
def init (newAdmin : Address) (s : State) : Result State := do
  require (s.admin = none) .alreadyInitialized
  return { s with admin := some newAdmin }

section
variable (env : LedgerEnv own)

def nowSecs : Nat := env.timestamp

def add (caller address : Address) (label : Bytes) (expiresAt : Nat) (s : State) :
    Result State := do
  env.requireAuth caller
  let adm ← admin s
  require (caller = adm) .unauthorized
  require (¬ (expiresAt ≠ 0 ∧ expiresAt ≤ nowSecs env)) .invalidExpiry
  return saveRegistry ((registry s).insert address ⟨label, expiresAt, env.sequence⟩) s

def remove (caller address : Address) (s : State) : Result State := do
  env.requireAuth caller
  let adm ← admin s
  require (caller = adm) .unauthorized
  require (((registry s).get address).isSome = true) .entryNotFound
  return saveRegistry ((registry s).erase address) s

/-- What `bulk_add` gets for an address: a label, and when the entry expires. -/
structure Item where
  address : Address
  label : Bytes
  expiresAt : Nat
deriving DecidableEq, Repr

/-- One turn of the loop of `bulk_add`, which skips what has expired. -/
def bulkTurn (acc : Registry × Nat) (item : Item) : Result (Registry × Nat) :=
  if item.expiresAt ≠ 0 ∧ item.expiresAt ≤ nowSecs env then .ok acc
  else do
    let count ← u32Add acc.2 1
    return (acc.1.insert item.address ⟨item.label, item.expiresAt, env.sequence⟩, count)

def bulkAdd (caller : Address) (entries : List Item) (s : State) : Result (Nat × State) := do
  env.requireAuth caller
  let adm ← admin s
  require (caller = adm) .unauthorized
  let (reg, count) ← entries.foldlM (bulkTurn env) (registry s, 0)
  return (count, saveRegistry reg s)

def isMember (address : Address) (s : State) : Bool :=
  match (registry s).get address with
  | none => false
  | some entry => ! isExpired entry (nowSecs env)

def getEntry (address : Address) (s : State) : Result Entry :=
  match (registry s).get address with
  | none => .error (.err .entryNotFound)
  | some entry =>
    if isExpired entry (nowSecs env) then .error (.err .entryNotFound) else .ok entry

/-- The count is cut down to 32 bits. -/
def memberCount (s : State) : Nat :=
  (registry s).count (fun entry => ! isExpired entry (nowSecs env)) % 2 ^ 32

end

inductive Call where
  | init (newAdmin : Address)
  | add (caller address : Address) (label : Bytes) (expiresAt : Nat)
  | remove (caller address : Address)
  | bulkAdd (caller : Address) (entries : List Item)
deriving DecidableEq

/-- `bulk_add` returns how many entries it has added. -/
def invoke (env : LedgerEnv own) (s : State) : Call → Option (State × Option Nat)
  | .init newAdmin => commit (init newAdmin s) (·, none)
  | .add caller address label expiresAt =>
    commit (add env caller address label expiresAt s) (·, none)
  | .remove caller address => commit (remove env caller address s) (·, none)
  | .bulkAdd caller entries => commit (bulkAdd env caller entries s) fun r => (r.2, some r.1)

/-- The contract at the address `own`. -/
def machine (own : Address) : Machine State (LedgerEnv own × Call) (Option Nat) where
  step s i := invoke i.1 s i.2

end Shelterflex.AllowlistRegistry
