import Shelterflex.Host.Guards
import Shelterflex.Lib.Code
import Shelterflex.Lib.Machine
import Shelterflex.Lib.Store

namespace Shelterflex.RentPayments
open Lib
set_option autoImplicit true

abbrev DealId := UInt64

abbrev TxId := BytesN 32

structure Cursor where
  timestamp : Nat
  txId : TxId
deriving DecidableEq

structure Receipt where
  id : Nat
  dealId : DealId
  amount : Int
  timestamp : Nat
  txId : TxId
  payer : Address
  reference : BytesN 32
deriving DecidableEq

structure ReceiptPage where
  receipts : List Receipt
  hasNext : Bool
  nextCursor : Cursor
deriving DecidableEq

inductive ContractError where
  | alreadyInitialized
  | invalidAmount
  | invalidLimit
  | paused
  | duplicateReference
deriving DecidableEq, Repr

structure State where
  admin : Option Address
  contractVersion : Option Nat
  paused : Option Bool
  receipts : Store DealId (List Receipt)
  receiptCount : Store DealId Nat
  usedReference : Store (DealId × BytesN 32) Bool

def State.fresh : State := ⟨none, none, none, .empty, .empty, .empty⟩

abbrev Result (α : Type) := Outcome ContractError α

/-- The deal id whose receipt count is the global counter of transaction ids. -/
def u64Max : DealId := 0xFFFFFFFFFFFFFFFF

def isPaused (s : State) : Bool := s.paused.getD false

def getAdmin (s : State) : Outcome ε Address := expect s.admin

def requireAdmin (env : Env own) (s : State) : Result Unit := do
  requireAdminAuth env (← getAdmin s)

def requireNotPaused (s : State) : Result Unit := require (isPaused s = false) .paused

def getReceipts (s : State) (dealId : DealId) : List Receipt := s.receipts.getD dealId []

def putReceipts (dealId : DealId) (receipts : List Receipt) (s : State) : State :=
  { s with receipts := s.receipts.set dealId receipts }

def getReceiptCount (s : State) (dealId : DealId) : Nat := s.receiptCount.getD dealId 0

def incrementReceiptCount (dealId : DealId) (s : State) : Result (Nat × State) := do
  let newCount ← u64Add (getReceiptCount s dealId) 1
  return (newCount, { s with receiptCount := s.receiptCount.set dealId newCount })

def isReferenceUsed (s : State) (dealId : DealId) (reference : BytesN 32) : Bool :=
  s.usedReference.has (dealId, reference)

def markReferenceUsed (dealId : DealId) (reference : BytesN 32) (s : State) : State :=
  { s with usedReference := s.usedReference.set (dealId, reference) true }

/-- The bytes of a `u64`, written from the last to the first. -/
def u64Bytes (n : Nat) : BytesN 8 := ⟨(bigEndian 8 n).toArray, bigEndian_length 8 n⟩

/-- The bytes that fill a transaction id up. -/
def fillBytes (timestamp : Nat) : BytesN 16 :=
  .ofFn fun i => UInt8.ofNat timestamp + UInt8.ofNat (16 + i)

def txIdBytes (timestamp counter : Nat) : TxId :=
  u64Bytes timestamp ++ u64Bytes counter ++ fillBytes timestamp

/-- The counter wraps. -/
def getTxId (env : Env own) (s : State) : TxId × State :=
  let newCounter := (s.receiptCount.getD u64Max 0 + 1) % 2 ^ 64
  (txIdBytes env.timestamp newCounter,
    { s with receiptCount := s.receiptCount.set u64Max newCounter })

def init (admin : Address) (s : State) : Result State := do
  require (s.admin = none) .alreadyInitialized
  return { s with admin := some admin, contractVersion := some 1 }

/-- The length of a vector is a `u32`. -/
def pushBack (receipts : List Receipt) (receipt : Receipt) : Result (List Receipt) := do
  let _ ← u32Add receipts.length 1
  return receipts ++ [receipt]

def createReceipt (env : Env own) (dealId : DealId) (amount : Int) (payer : Address)
    (reference : BytesN 32) (s : State) : Result (Receipt × State) := do
  requireAdmin env s
  requireNotPaused s
  require (¬ amount ≤ 0) .invalidAmount
  require (isReferenceUsed s dealId reference = false) .duplicateReference
  let (receiptId, s) ← incrementReceiptCount dealId s
  let (txId, s) := getTxId env s
  let receipt : Receipt := ⟨receiptId, dealId, amount, env.timestamp, txId, payer, reference⟩
  let receipts ← pushBack (getReceipts s dealId) receipt
  return (receipt, markReferenceUsed dealId reference (putReceipts dealId receipts s))

def pause (env : Env own) (admin : Address) (s : State) : Outcome PausableError State := do
  requireAdminPermission env (← getAdmin s) admin .notAuthorized
  return { s with paused := some true }

def unpause (env : Env own) (admin : Address) (s : State) : Outcome PausableError State := do
  requireAdminPermission env (← getAdmin s) admin .notAuthorized
  return { s with paused := some false }

def receiptCount (s : State) (dealId : DealId) : Nat := getReceiptCount s dealId

/-! `list_receipts_by_deal` -/

/-- Whether the sort moves a receipt below the one before it. Arrays compare byte by byte. -/
def shouldSwap (key prev : Receipt) : Bool :=
  if key.timestamp < prev.timestamp then true
  else if key.timestamp = prev.timestamp then key.txId.toList < prev.txId.toList
  else false

/-- The inner loop, from the position `j` down. -/
def sink (key : Receipt) : Nat → List Receipt → Result (List Receipt)
  | 0, sorted => return sorted.set 0 key
  | j + 1, sorted => do
    let prev ← expect sorted[j]?
    if shouldSwap key prev then sink key j (sorted.set (j + 1) prev)
    else return sorted.set (j + 1) key

def sortReceipts (receipts : List Receipt) : Result (List Receipt) :=
  if 1 < receipts.length then
    (List.range' 1 (receipts.length - 1)).foldlM (fun sorted i => do
      let key ← expect sorted[i]?
      sink key i sorted) receipts
  else return receipts

/-- Whether a receipt comes after a cursor. -/
def Cursor.isBefore (cursor : Cursor) (r : Receipt) : Bool :=
  cursor.timestamp < r.timestamp ∨
    r.timestamp = cursor.timestamp ∧ cursor.txId.toList < r.txId.toList

/-- Index 0 stands both for the first receipt and for no receipt found. -/
def startIndex (sorted : List Receipt) : Option Cursor → Result Nat
  | none => return 0
  | some cursor => do
    let start := (sorted.findIdx? cursor.isBefore).getD 0
    if start = 0 ∧ sorted ≠ [] then
      let first ← expect sorted[0]?
      return if cursor.isBefore first then start else sorted.length
    else return start

def emptyCursor : Cursor := ⟨0, .replicate 32 0⟩

def listReceiptsByDeal (dealId : DealId) (limit : Nat) (cursor : Option Cursor) (s : State) :
    Result ReceiptPage := do
  require (¬ (limit = 0 ∨ 100 < limit)) .invalidLimit
  let sorted ← sortReceipts (getReceipts s dealId)
  let start ← startIndex sorted cursor
  let reach ← u32Add start limit
  let last := if reach < sorted.length then reach else sorted.length
  let page := (List.range' start (last - start)).filterMap (sorted[·]?)
  if last < sorted.length ∧ page ≠ [] then
    match page[page.length - 1]? with
    | some r => return ⟨page, true, ⟨r.timestamp, r.txId⟩⟩
    | none => return ⟨page, false, emptyCursor⟩
  else return ⟨page, false, emptyCursor⟩

inductive Call where
  | init (admin : Address)
  | createReceipt (dealId : DealId) (amount : Int) (payer : Address) (reference : BytesN 32)
  | pause (admin : Address)
  | unpause (admin : Address)
deriving DecidableEq

/-- A call that creates a receipt returns it. -/
def invoke (env : Env own) (s : State) : Call → Option (State × Option Receipt)
  | .init admin => commit (init admin s) (·, none)
  | .createReceipt dealId amount payer reference =>
    commit (createReceipt env dealId amount payer reference s) fun (r, s) => (s, some r)
  | .pause admin => commit (pause env admin s) (·, none)
  | .unpause admin => commit (unpause env admin s) (·, none)

/-- The contract at the address `own`. -/
def machine (own : Address) : Machine State (Env own × Call) (Option Receipt) where
  step s i := invoke i.1 s i.2

end Shelterflex.RentPayments
