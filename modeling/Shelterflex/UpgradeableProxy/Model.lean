import Shelterflex.Host.Basic
import Shelterflex.Lib.Machine
import Shelterflex.Lib.Store

namespace Shelterflex.UpgradeableProxy
open Lib
set_option autoImplicit true

inductive ProxyError where
  | alreadyInitialized
  | notAdmin
  | notApprover
  | noPendingUpgrade
  | hashMismatch
deriving DecidableEq, Repr

abbrev Result (α : Type) := Outcome ProxyError α

structure State where
  version : Option Nat
  admin : Option Address
  secondApprover : Option Address
  pendingUpgrade : Option (BytesN 32)
  store : Option (Store Bytes Bytes)

def State.fresh : State := ⟨none, none, none, none, none⟩

/-- The storage of the contract, and the code that the host runs for it. -/
structure Instance where
  storage : State
  code : BytesN 32

def deployed (code : BytesN 32) : Instance := ⟨.fresh, code⟩

/-- What a call sees of the ledger, and the code that has been uploaded to it. -/
structure DeployerEnv (own : Address) extends Env own where
  uploaded : BytesN 32 → Bool

def getAdmin (s : State) : Result Address := expect s.admin

def getApprover (s : State) : Result Address := expect s.secondApprover

def getVersion (s : State) : Nat := s.version.getD 1

def storeMap (s : State) : Store Bytes Bytes := s.store.getD .empty

section
variable (env : DeployerEnv own)

def init (admin secondApprover : Address) (s : State) : Result State := do
  require (s.admin = none) .alreadyInitialized
  env.requireAuth admin
  return { s with
    admin := some admin
    secondApprover := some secondApprover
    version := some 1
    store := some .empty }

def proposeUpgrade (admin : Address) (newWasmHash : BytesN 32) (s : State) : Result State := do
  env.requireAuth admin
  let current ← getAdmin s
  require (admin = current) .notAdmin
  return { s with pendingUpgrade := some newWasmHash }

/-- The host refuses code that it does not have. -/
def updateCurrentContractWasm (newWasmHash : BytesN 32) (s : State) : Result Instance := do
  demand (env.uploaded newWasmHash = true) "update_current_contract_wasm"
  return ⟨s, newWasmHash⟩

def confirmUpgrade (approver : Address) (newWasmHash : BytesN 32) (s : State) :
    Result Instance := do
  env.requireAuth approver
  let current ← getApprover s
  require (approver = current) .notApprover
  let pending ← okOr s.pendingUpgrade .noPendingUpgrade
  require (pending = newWasmHash) .hashMismatch
  let newVersion ← u32Add (getVersion s) 1
  updateCurrentContractWasm env newWasmHash
    { s with pendingUpgrade := none, version := some newVersion }

def cancelUpgrade (admin : Address) (s : State) : Result State := do
  env.requireAuth admin
  let current ← getAdmin s
  require (admin = current) .notAdmin
  return { s with pendingUpgrade := none }

def transferAdmin (admin newAdmin : Address) (s : State) : Result State := do
  env.requireAuth admin
  let current ← getAdmin s
  require (admin = current) .notAdmin
  return { s with admin := some newAdmin }

end

def setValue (key value : Bytes) (s : State) : Result State :=
  .ok { s with store := some ((storeMap s).set key value) }

def getValue (key : Bytes) (s : State) : Option Bytes := (storeMap s).get key

def hasPendingUpgrade (s : State) : Bool := s.pendingUpgrade.isSome

inductive Call where
  | init (admin secondApprover : Address)
  | proposeUpgrade (admin : Address) (newWasmHash : BytesN 32)
  | confirmUpgrade (approver : Address) (newWasmHash : BytesN 32)
  | cancelUpgrade (admin : Address)
  | transferAdmin (admin newAdmin : Address)
  | setValue (key value : Bytes)
deriving DecidableEq

/-- A call that does not change the code. -/
def Instance.keep (w : Instance) (x : Result State) : Option (Instance × Unit) :=
  commit x fun s => (⟨s, w.code⟩, ())

def invoke (env : DeployerEnv own) (w : Instance) : Call → Option (Instance × Unit)
  | .init admin secondApprover => w.keep (init env admin secondApprover w.storage)
  | .proposeUpgrade admin newWasmHash => w.keep (proposeUpgrade env admin newWasmHash w.storage)
  | .confirmUpgrade approver newWasmHash =>
    commit (confirmUpgrade env approver newWasmHash w.storage) (·, ())
  | .cancelUpgrade admin => w.keep (cancelUpgrade env admin w.storage)
  | .transferAdmin admin newAdmin => w.keep (transferAdmin env admin newAdmin w.storage)
  | .setValue key value => w.keep (setValue key value w.storage)

/-- The contract at the address `own`, as long as the host runs one of its own builds for it. -/
def machine (builds : BytesN 32 → Bool) (own : Address) :
    Machine Instance (DeployerEnv own × Call) Unit where
  step w i := if builds w.code then invoke i.1 w i.2 else none

end Shelterflex.UpgradeableProxy
