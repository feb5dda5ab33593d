import Shelterflex.Host.Guards
import Shelterflex.Lib.Machine
import Shelterflex.Lib.Store
import Shelterflex.TransactionReceipt.Text

namespace Shelterflex.TransactionReceipt
open Lib
set_option autoImplicit true

structure Receipt where
  txId : BytesN 32
  txType : Symbol
  amountUsdc : I128
  token : Address
  dealId : HostString
  listingId : Option HostString
  fromAddr : Option Address
  toAddr : Option Address
  externalRef : BytesN 32
  amountNgn : Option I128
  fxRateNgnPerUsdc : Option I128
  fxProvider : Option HostString
  metadataHash : Option (BytesN 32)
  timestamp : Nat
deriving DecidableEq

structure State where
  contractVersion : Option Nat
  admin : Option Address
  operator : Option Address
  paused : Option Bool
  receipts : Store (BytesN 32) Receipt
  dealIndex : Store (HostString × Nat) (BytesN 32)
  dealCount : Store HostString Nat
  userIndex : Store (Address × Nat) (BytesN 32)
  userCount : Store Address Nat

def State.fresh : State := ⟨none, none, none, none, .empty, .empty, .empty, .empty, .empty⟩

def requireAdmin (s : State) (caller : Address) : Result Unit := do
  let admin ← orPanic "Admin not initialized" (okOr s.admin ())
  require (caller = admin) .notAuthorized

def requireOperator (s : State) (caller : Address) : Result Unit := do
  let operator ← orPanic "Operator not initialized" (okOr s.operator ())
  require (caller = operator) .notAuthorized

def requireNotPaused (s : State) : Result Unit :=
  require (s.paused.getD false = false) .paused

def init (admin operator : Address) (s : State) : Result State := do
  require (s.admin = none) .alreadyInitialized
  return { s with
    admin := some admin
    operator := some operator
    contractVersion := some 1
    paused := some false }

def setOperator (env : Env own) (admin newOperator : Address) (s : State) : Result State := do
  env.requireAuth admin
  requireAdmin s admin
  let _ ← orPanic "Operator not initialized" (okOr s.operator ())
  return { s with operator := some newOperator }

/-! `record_receipt` -/

section
variable (sha256 : Bytes → BytesN 32) (strkey : Address → HostString)

/-- The hash of the metadata, if the caller provides one. -/
def checkMetadataHash (input : ReceiptInput) : Result Unit :=
  match input.metadataHash with
  | some hash => do
    let verified ← verifyMetadataHash strkey sha256 input hash
    require (verified = true) .invalidMetadataHash
  | none => .ok ()

/-- The identifier of a receipt whose input passes every check. -/
def checkInput (input : ReceiptInput) : Result (BytesN 32) := do
  require (¬ input.amountUsdc.1 ≤ 0) .invalidAmount
  validateTxType input.txType
  validateExternalRef input.externalRefSource input.externalRef
  let txId ← generateTxId sha256 input.externalRefSource input.externalRef
  checkMetadataHash sha256 strkey input
  return txId

def makeReceipt (txId : BytesN 32) (input : ReceiptInput) (timestamp : Nat) : Receipt where
  txId := txId
  txType := input.txType
  amountUsdc := input.amountUsdc
  token := input.token
  dealId := input.dealId
  listingId := input.listingId
  fromAddr := input.fromAddr
  toAddr := input.toAddr
  externalRef := txId
  amountNgn := input.amountNgn
  fxRateNgnPerUsdc := input.fxRateNgnPerUsdc
  fxProvider := input.fxProvider
  metadataHash := input.metadataHash
  timestamp := timestamp

def indexDeal (dealId : HostString) (txId : BytesN 32) (s : State) : Result State := do
  let currentCount := s.dealCount.getD dealId 0
  let newCount ← u32Add currentCount 1
  return { s with
    dealIndex := s.dealIndex.set (dealId, currentCount) txId
    dealCount := s.dealCount.set dealId newCount }

def indexUser (user : Option Address) (txId : BytesN 32) (s : State) : Result State :=
  match user with
  | some addr => do
    let userCount := s.userCount.getD addr 0
    let newCount ← u32Add userCount 1
    return { s with
      userIndex := s.userIndex.set (addr, userCount) txId
      userCount := s.userCount.set addr newCount }
  | none => .ok s

def recordReceipt (env : Env own) (operator : Address) (input : ReceiptInput) (s : State) :
    Result (BytesN 32 × State) := do
  env.requireAuth operator
  requireOperator s operator
  requireNotPaused s
  let txId ← checkInput sha256 strkey input
  require (s.receipts.has txId = false) .duplicateTransaction
  let receipt := makeReceipt txId input env.timestamp
  let s := { s with receipts := s.receipts.set txId receipt }
  let s ← indexDeal input.dealId txId s
  let s ← indexUser receipt.fromAddr txId s
  let s ← indexUser receipt.toAddr txId s
  return (txId, s)

end

def getReceipt (s : State) (txId : BytesN 32) : Option Receipt := s.receipts.get txId

/-- A window of the receipts that an index names. -/
def listReceipts (totalCount : Nat) (index : Nat → Option (BytesN 32)) (limit : Nat)
    (cursor : Option Nat) (s : State) : Result (List Receipt) := do
  let startIndex := cursor.getD 0
  let reach ← u32Add startIndex limit
  let endIndex := min reach totalCount
  return (List.range' startIndex (endIndex - startIndex)).filterMap
    fun i => (index i).bind s.receipts.get

def listReceiptsByDeal (dealId : HostString) (limit : Nat) (cursor : Option Nat) (s : State) :
    Result (List Receipt) :=
  listReceipts (s.dealCount.getD dealId 0) (fun i => s.dealIndex.get (dealId, i)) limit cursor s

def listReceiptsByUser (user : Address) (limit : Nat) (cursor : Option Nat) (s : State) :
    Result (List Receipt) :=
  listReceipts (s.userCount.getD user 0) (fun i => s.userIndex.get (user, i)) limit cursor s

/-! The `Pausable` implementation asks for the admin's address, not for its authorization. -/

def pause (admin : Address) (s : State) : Outcome PausableError State := do
  mapErr (fun _ => .notAuthorized) (requireAdmin s admin)
  return { s with paused := some true }

def unpause (admin : Address) (s : State) : Outcome PausableError State := do
  mapErr (fun _ => .notAuthorized) (requireAdmin s admin)
  return { s with paused := some false }

def isPaused (s : State) : Bool := s.paused.getD false

inductive Call where
  | init (admin operator : Address)
  | setOperator (admin newOperator : Address)
  | recordReceipt (operator : Address) (input : ReceiptInput)
  | pause (admin : Address)
  | unpause (admin : Address)
deriving DecidableEq

section
variable (sha256 : Bytes → BytesN 32) (strkey : Address → HostString)

/-- A call that records a receipt returns its id. -/
def invoke (env : Env own) (s : State) : Call → Option (State × Option (BytesN 32))
  | .init admin operator => commit (init admin operator s) (·, none)
  | .setOperator admin newOperator => commit (setOperator env admin newOperator s) (·, none)
  | .recordReceipt operator input =>
    commit (recordReceipt sha256 strkey env operator input s) fun (txId, s) => (s, some txId)
  | .pause admin => commit (pause admin s) (·, none)
  | .unpause admin => commit (unpause admin s) (·, none)

/-- The contract at the address `own`, with the hash of the host and its text of an address. -/
def machine (own : Address) : Machine State (Env own × Call) (Option (BytesN 32)) where
  step s i := invoke sha256 strkey i.1 s i.2

end

end Shelterflex.TransactionReceipt
