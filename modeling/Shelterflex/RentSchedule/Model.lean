import Shelterflex.Host.Basic
import Shelterflex.Lib.Machine
import Shelterflex.Lib.Store

namespace Shelterflex.RentSchedule
open Lib
set_option autoImplicit true

inductive InstalmentStatus where
  | pending
  | paid
  | overdue
  | waived
deriving DecidableEq, Repr

structure ScheduledInstalment where
  instalmentNumber : Nat
  dueTimestamp : Nat
  amountDue : Int
  amountPaid : Int
  status : InstalmentStatus
  paidAt : Option Nat
  lastTxId : Option (BytesN 32)
deriving DecidableEq

inductive WaiverReason where
  | hardship
  | disputeResolved
  | adminAdjustment
  | promotional
deriving DecidableEq, Repr

structure WaiverAudit where
  actor : Address
  reason : WaiverReason
  amountWaived : Int
  waivedAt : Nat
deriving DecidableEq, Repr

structure Config where
  admin : Address
  operator : Address
deriving DecidableEq, Repr

/-- Schedules are kept by deal, waivers by deal and instalment number. -/
structure State where
  config : Option Config
  schedule : Store Bytes (List ScheduledInstalment)
  waiver : Store (Bytes × Nat) WaiverAudit
  paused : Option Bool

def State.fresh : State := ⟨none, .empty, .empty, none⟩

/-- The contract declares no errors: it panics. -/
abbrev Result (α : Type) := Outcome Empty α

def isPaused (s : State) : Bool := s.paused.getD false

def requireNotPaused (s : State) : Result Unit := demand (isPaused s = false) "ContractPaused"

def instalmentRemaining (inst : ScheduledInstalment) : Result Int :=
  i128Sub inst.amountDue inst.amountPaid

def assertPositivePayment (amount : Int) : Result Unit := demand (0 < amount) "InvalidAmount"

/-- The first instalment with a number, and its index. -/
def findInstalment (schedule : List ScheduledInstalment) (instalmentNumber : Nat) :
    Result (Nat × ScheduledInstalment) := do
  let idx ← expect (schedule.findIdx? (·.instalmentNumber = instalmentNumber))
  let inst ← expect schedule[idx]?
  return (idx, inst)

def putInstalment (dealId : Bytes) (schedule : List ScheduledInstalment) (idx : Nat)
    (inst : ScheduledInstalment) (s : State) : State :=
  { s with schedule := s.schedule.set dealId (schedule.set idx inst) }

def init (admin operator : Address) (s : State) : Result State := do
  demand (s.config = none) "AlreadyInitialized"
  return { s with config := some ⟨admin, operator⟩, paused := some false }

section
variable (env : Env own)

def pause (caller : Address) (s : State) : Result State := do
  env.requireAuth caller
  let cfg ← expect s.config
  demand (caller = cfg.admin) "NotAuthorized"
  return { s with paused := some true }

def unpause (caller : Address) (s : State) : Result State := do
  env.requireAuth caller
  let cfg ← expect s.config
  demand (caller = cfg.admin) "NotAuthorized"
  return { s with paused := some false }

def createSchedule (caller : Address) (dealId : Bytes) (instalments : List ScheduledInstalment)
    (s : State) : Result State := do
  let cfg ← expect s.config
  demand (caller = cfg.admin ∨ caller = cfg.operator) "NotAuthorized"
  env.requireAuth caller
  demand (s.schedule.has dealId = false) "ScheduleExists"
  let _ ← instalments.foldlM (fun total i => i128Add total i.amountDue) 0
  return { s with schedule := s.schedule.set dealId instalments }

def recordPayment (caller : Address) (dealId : Bytes) (instalmentNumber : Nat) (amount : Int)
    (txId : BytesN 32) (paidAt : Nat) (s : State) : Result State := do
  requireNotPaused s
  let _ ← expect s.config
  env.requireAuth caller
  assertPositivePayment amount
  let schedule ← expect (s.schedule.get dealId)
  let (idx, inst) ← findInstalment schedule instalmentNumber
  demand (¬ (inst.status = .paid ∨ inst.status = .waived)) "InvalidStatus"
  let remaining ← instalmentRemaining inst
  demand (amount ≤ remaining) "Overpayment"
  let amountPaid ← i128Add inst.amountPaid amount
  let inst := { inst with amountPaid, lastTxId := some txId }
  if inst.amountPaid = inst.amountDue then
    return putInstalment dealId schedule idx { inst with status := .paid, paidAt := some paidAt } s
  else do
    let _ ← instalmentRemaining inst
    return putInstalment dealId schedule idx inst s

def markOverdue (caller : Address) (dealId : Bytes) (instalmentNumber : Nat) (s : State) :
    Result State := do
  requireNotPaused s
  let cfg ← expect s.config
  demand (caller = cfg.admin ∨ caller = cfg.operator) "NotAuthorized"
  env.requireAuth caller
  let schedule ← expect (s.schedule.get dealId)
  let (idx, inst) ← findInstalment schedule instalmentNumber
  demand (¬ (inst.status = .paid ∨ inst.status = .waived)) "InvalidStatus"
  let remaining ← instalmentRemaining inst
  demand (0 < remaining) "InvalidStatus"
  return putInstalment dealId schedule idx { inst with status := .overdue } s

def waiveInstalment (caller : Address) (dealId : Bytes) (instalmentNumber : Nat)
    (reason : WaiverReason) (s : State) : Result State := do
  let cfg ← expect s.config
  demand (caller = cfg.admin) "NotAuthorized"
  env.requireAuth caller
  let schedule ← expect (s.schedule.get dealId)
  let (idx, inst) ← findInstalment schedule instalmentNumber
  demand (inst.status ≠ .waived) "AlreadyWaived"
  demand (inst.status ≠ .paid) "InvalidStatus"
  let amountWaived ← instalmentRemaining inst
  let s := putInstalment dealId schedule idx { inst with status := .waived } s
  return { s with
    waiver := s.waiver.set (dealId, instalmentNumber)
      ⟨caller, reason, amountWaived, env.timestamp⟩ }

end

def getWaiver (dealId : Bytes) (instalmentNumber : Nat) (s : State) : Option WaiverAudit :=
  s.waiver.get (dealId, instalmentNumber)

def getInstalment (dealId : Bytes) (instalmentNumber : Nat) (s : State) :
    Result ScheduledInstalment := do
  let schedule ← expect (s.schedule.get dealId)
  expect (schedule.find? (·.instalmentNumber = instalmentNumber))

/-- Writing a position of a vector, which must exist. -/
def setAt (schedule : List ScheduledInstalment) (i : Nat) (inst : ScheduledInstalment) :
    Result (List ScheduledInstalment) := do
  demand (i < schedule.length) "index out of bounds"
  return schedule.set i inst

/-- The inner loop of the sorting: an instalment moves to the front past those of a larger
number. -/
def sink (schedule : List ScheduledInstalment) : Nat → Result (List ScheduledInstalment)
  | 0 => .ok schedule
  | j + 1 => do
    let a ← expect schedule[j]?
    let b ← expect schedule[j + 1]?
    if b.instalmentNumber < a.instalmentNumber then do
      let schedule ← setAt schedule j b
      let schedule ← setAt schedule (j + 1) a
      sink schedule j
    else return schedule

/-- The outer counter stays below the length, so its additions do not overflow. -/
def getSchedule (dealId : Bytes) (s : State) : Result (List ScheduledInstalment) := do
  let schedule := s.schedule.getD dealId []
  let len := schedule.length
  (List.range' 1 (len - 1)).foldlM sink schedule

inductive Call where
  | init (admin operator : Address)
  | pause (caller : Address)
  | unpause (caller : Address)
  | createSchedule (caller : Address) (dealId : Bytes) (instalments : List ScheduledInstalment)
  | recordPayment (caller : Address) (dealId : Bytes) (instalmentNumber : Nat) (amount : Int)
      (txId : BytesN 32) (paidAt : Nat)
  | markOverdue (caller : Address) (dealId : Bytes) (instalmentNumber : Nat)
  | waiveInstalment (caller : Address) (dealId : Bytes) (instalmentNumber : Nat)
      (reason : WaiverReason)
deriving DecidableEq

def done (s : State) : State × Unit := (s, ())

def invoke (env : Env own) (s : State) : Call → Option (State × Unit)
  | .init admin operator => commit (init admin operator s) done
  | .pause caller => commit (pause env caller s) done
  | .unpause caller => commit (unpause env caller s) done
  | .createSchedule caller dealId instalments =>
    commit (createSchedule env caller dealId instalments s) done
  | .recordPayment caller dealId instalmentNumber amount txId paidAt =>
    commit (recordPayment env caller dealId instalmentNumber amount txId paidAt s) done
  | .markOverdue caller dealId instalmentNumber =>
    commit (markOverdue env caller dealId instalmentNumber s) done
  | .waiveInstalment caller dealId instalmentNumber reason =>
    commit (waiveInstalment env caller dealId instalmentNumber reason s) done

/-- The contract at the address `own`. -/
def machine (own : Address) : Machine State (Env own × Call) Unit where
  step s i := invoke i.1 s i.2

end Shelterflex.RentSchedule
