import Shelterflex.Host.TtlStorage
import Shelterflex.Lib.Machine

namespace Shelterflex.Timelock
open Lib
set_option autoImplicit true

inductive TimelockError where
  | alreadyInitialized
  | notAuthorized
  | invalidDelay
  | transactionAlreadyQueued
  | transactionNotQueued
  | timestampNotMet
  | transactionExpired
  | insufficientMultisigApprovals
  | contractPaused
deriving DecidableEq, Repr

abbrev Result (α : Type) := Outcome TimelockError α

/-- Fourteen days, in seconds. -/
def gracePeriod : Nat := 1209600

def u64Max : Nat := 2 ^ 64 - 1

abbrev Symbol := Bytes

/-- A value of the host. One of a type that the contract does not make itself stands for its
serialization. -/
inductive Val where
  | address (a : Address)
  | symbol (s : Symbol)
  | u64 (n : Nat)
  | other (xdr : Bytes)
deriving DecidableEq, Repr

structure State where
  admin : Option Address
  minDelay : Option Nat
  maxDelay : Option Nat
  queued : Expiring (BytesN 32) Nat
  multisigMembers : Option (List Address)
  paused : Option Bool

def State.fresh : State := ⟨none, none, none, .empty, none, none⟩

/-- What a call sees of the ledger, and what a contract answers that it invokes. -/
structure CallEnv (own : Address) extends LedgerEnv own where
  callee : Address → Symbol → List Val → Option Val

/-- The call of another contract. The host does not let a contract call itself. -/
def CallEnv.invokeContract (env : CallEnv own) (target : Address) (function : Symbol)
    (args : List Val) : Result Val :=
  match (if target = own then none else env.callee target function args) with
  | some v => .ok v
  | none => .error (.trap (.panicked "invoke_contract"))

/-- What is queued: a call and the time from which on it may be made. -/
structure Operation where
  target : Address
  function : Symbol
  args : List Val
  eta : Nat
deriving DecidableEq

def Operation.hashData (op : Operation) : List Val :=
  .address op.target :: .symbol op.function :: (op.args ++ [.u64 op.eta])

def init (admin : Address) (minDelay maxDelay : Nat) (multisigMembers : List Address) (s : State) :
    Result State := do
  require (s.admin = none) .alreadyInitialized
  require (¬ maxDelay < minDelay) .invalidDelay
  require (¬ minDelay = 0) .invalidDelay
  return { s with
    admin := some admin
    minDelay := some minDelay
    maxDelay := some maxDelay
    multisigMembers := some multisigMembers
    paused := some false }

section
variable (env : CallEnv own)

/-- The guard of the admin's entry points. -/
def requireAdmin (admin : Address) (s : State) : Result Unit := do
  env.requireAuth admin
  let currentAdmin ← expect s.admin
  require (admin = currentAdmin) .notAuthorized

section
variable (sha256Xdr : List Val → BytesN 32)

def Operation.txHash (op : Operation) : BytesN 32 := sha256Xdr op.hashData

def queue (admin target : Address) (function : Symbol) (args : List Val) (delay : Nat)
    (s : State) : Result (BytesN 32 × State) := do
  requireAdmin env admin s
  let min := s.minDelay.getD 0
  let max := s.maxDelay.getD u64Max
  require (¬ (delay < min ∨ max < delay)) .invalidDelay
  let eta ← u64Add env.timestamp delay
  let txHash := Operation.txHash sha256Xdr ⟨target, function, args, eta⟩
  let (present, queued) := hasTemporary env.sequence txHash s.queued
  require (present = false) .transactionAlreadyQueued
  return (txHash, { s with queued := setTemporary env.sequence txHash eta queued })

/-- The checks of `execute`, up to the removal of the entry. -/
def release (op : Operation) (s : State) : Result State := do
  require (s.paused.getD false = false) .contractPaused
  let txHash := op.txHash sha256Xdr
  let (stored, queued) := getTemporary env.sequence txHash s.queued
  let storedEta ← okOr stored .transactionNotQueued
  require (storedEta = op.eta) .transactionNotQueued
  require (¬ env.timestamp < op.eta) .timestampNotMet
  let expiry ← u64Add op.eta gracePeriod
  require (¬ expiry < env.timestamp) .transactionExpired
  return { s with queued := queued.remove txHash }

def execute (op : Operation) (s : State) : Result (Val × State) := do
  let s ← release env sha256Xdr op s
  let result ← env.invokeContract op.target op.function op.args
  return (result, s)

end

def cancel (admin : Address) (txHash : BytesN 32) (s : State) : Result State := do
  requireAdmin env admin s
  let (present, queued) := hasTemporary env.sequence txHash s.queued
  require (present = true) .transactionNotQueued
  return { s with queued := queued.remove txHash }

def emergencyPause (members : List Address) (s : State) : Result State := do
  require (¬ members.length < 2) .insufficientMultisigApprovals
  let allowedMembers ← expect s.multisigMembers
  members.forM fun member => do
    env.requireAuth member
    require (member ∈ allowedMembers) .notAuthorized
  return { s with paused := some true }

def unpause (admin : Address) (s : State) : Result State := do
  requireAdmin env admin s
  return { s with paused := some false }

def expire (admin : Address) (txHash : BytesN 32) (s : State) : Result State := do
  requireAdmin env admin s
  let (stored, queued) := getTemporary env.sequence txHash s.queued
  let storedEta ← okOr stored .transactionNotQueued
  let expiry ← u64Add storedEta gracePeriod
  require (¬ env.timestamp ≤ expiry) .timestampNotMet
  return { s with queued := queued.remove txHash }

def setMinDelay (admin : Address) (newMinDelay : Nat) (s : State) : Result State := do
  requireAdmin env admin s
  require (¬ newMinDelay = 0) .invalidDelay
  let currentMin := s.minDelay.getD 0
  let max := s.maxDelay.getD u64Max
  require (¬ newMinDelay < currentMin) .invalidDelay
  require (¬ max < newMinDelay) .invalidDelay
  return { s with minDelay := some newMinDelay }

end

inductive Call where
  | init (admin : Address) (minDelay maxDelay : Nat) (multisigMembers : List Address)
  | queue (admin target : Address) (function : Symbol) (args : List Val) (delay : Nat)
  | execute (op : Operation)
  | cancel (admin : Address) (txHash : BytesN 32)
  | emergencyPause (members : List Address)
  | unpause (admin : Address)
  | expire (admin : Address) (txHash : BytesN 32)
  | setMinDelay (admin : Address) (newMinDelay : Nat)
deriving DecidableEq

inductive Output where
  | unit
  | hash (h : BytesN 32)
  | value (v : Val)
deriving DecidableEq

def done (s : State) : State × Output := (s, .unit)

def invoke (sha256Xdr : List Val → BytesN 32) (env : CallEnv own) (s : State) :
    Call → Option (State × Output)
  | .init admin minDelay maxDelay multisigMembers =>
    commit (init admin minDelay maxDelay multisigMembers s) done
  | .queue admin target function args delay =>
    commit (queue env sha256Xdr admin target function args delay s) fun r => (r.2, .hash r.1)
  | .execute op => commit (execute env sha256Xdr op s) fun r => (r.2, .value r.1)
  | .cancel admin txHash => commit (cancel env admin txHash s) done
  | .emergencyPause members => commit (emergencyPause env members s) done
  | .unpause admin => commit (unpause env admin s) done
  | .expire admin txHash => commit (expire env admin txHash s) done
  | .setMinDelay admin newMinDelay => commit (setMinDelay env admin newMinDelay s) done

/-- The contract at the address `own`, with the hash of the host over a serialized list. -/
def machine (sha256Xdr : List Val → BytesN 32) (own : Address) :
    Machine State (CallEnv own × Call) Output where
  step s i := invoke sha256Xdr i.1 s i.2

end Shelterflex.Timelock
