import Shelterflex.Host.Guards
import Shelterflex.Lib.Machine
import Shelterflex.Lib.Store

namespace Shelterflex.ReentrancyGuard
open Lib
set_option autoImplicit true

inductive ContractError where
  | alreadyInitialized
  | notAuthorized
  | maxDepthExceeded
  | invalidEntryPoint
  | patternAlreadyAllowed
  | patternNotAllowed
  | guardNotActive
  | invalidMaxDepth
  | invalidExit
deriving DecidableEq, Repr

abbrev Result (α : Type) := Outcome ContractError α

structure State where
  admin : Option Address
  guardActive : Store Address Bool
  callDepth : Store (Address × BytesN 32) Nat
  maxCallDepth : Option Nat
  allowedPattern : Store (BytesN 32) Bool
  contractVersion : Option Nat

def State.fresh : State := ⟨none, .empty, .empty, none, .empty, none⟩

def getAdmin (s : State) : Result Address := expect s.admin

def getContractVersion (s : State) : Nat := s.contractVersion.getD 1

def getMaxCallDepth (s : State) : Nat := s.maxCallDepth.getD 5

def isGuardActive (s : State) (contract : Address) : Bool := s.guardActive.getD contract false

def isPatternAllowed (s : State) (patternHash : BytesN 32) : Bool :=
  s.allowedPattern.getD patternHash false

def getCallDepth (s : State) (contract : Address) (entryPoint : BytesN 32) : Nat :=
  s.callDepth.getD (contract, entryPoint) 0

def setCallDepth (contract : Address) (entryPoint : BytesN 32) (depth : Nat) (s : State) : State :=
  { s with callDepth := s.callDepth.set (contract, entryPoint) depth }

section
variable (env : Env own)

def init (admin : Address) (s : State) : Result State := do
  require (s.admin = none) .alreadyInitialized
  env.requireAuth admin
  return { s with admin := some admin, contractVersion := some 1, maxCallDepth := some 5 }

/-- The check that the calls of the admin open with. -/
def requireAdmin (admin : Address) (s : State) : Result Unit := do
  let currentAdmin ← getAdmin s
  requireAdminPermission env currentAdmin admin .notAuthorized

def setAdmin (admin newAdmin : Address) (s : State) : Result State := do
  requireAdmin env admin s
  return { s with admin := some newAdmin }

def setMaxCallDepth (admin : Address) (maxDepth : Nat) (s : State) : Result State := do
  requireAdmin env admin s
  require (¬ (maxDepth = 0 ∨ 20 < maxDepth)) .invalidMaxDepth
  return { s with maxCallDepth := some maxDepth }

def activateGuard (admin contract : Address) (s : State) : Result State := do
  requireAdmin env admin s
  return { s with guardActive := s.guardActive.set contract true }

def deactivateGuard (admin contract : Address) (s : State) : Result State := do
  requireAdmin env admin s
  return { s with guardActive := s.guardActive.set contract false }

def allowPattern (admin : Address) (patternHash : BytesN 32) (s : State) : Result State := do
  requireAdmin env admin s
  require (isPatternAllowed s patternHash = false) .patternAlreadyAllowed
  return { s with allowedPattern := s.allowedPattern.set patternHash true }

def disallowPattern (admin : Address) (patternHash : BytesN 32) (s : State) : Result State := do
  requireAdmin env admin s
  return { s with allowedPattern := s.allowedPattern.set patternHash false }

end

/-- An allowed pattern is entered without being counted. -/
def enter (contract : Address) (entryPoint : BytesN 32) (s : State) : Result State := do
  require (isGuardActive s contract = true) .guardNotActive
  if isPatternAllowed s entryPoint then
    return s
  else
    let depth := getCallDepth s contract entryPoint
    require (depth < getMaxCallDepth s) .maxDepthExceeded
    let depth ← u32Add depth 1
    return setCallDepth contract entryPoint depth s

def exit (contract : Address) (entryPoint : BytesN 32) (s : State) : Result State := do
  require (isGuardActive s contract = true) .guardNotActive
  if isPatternAllowed s entryPoint then
    return s
  else
    let depth := getCallDepth s contract entryPoint
    require (depth ≠ 0) .invalidExit
    let depth ← u32Sub depth 1
    return setCallDepth contract entryPoint depth s

inductive Call where
  | init (admin : Address)
  | setAdmin (admin newAdmin : Address)
  | setMaxCallDepth (admin : Address) (maxDepth : Nat)
  | activateGuard (admin contract : Address)
  | deactivateGuard (admin contract : Address)
  | allowPattern (admin : Address) (patternHash : BytesN 32)
  | disallowPattern (admin : Address) (patternHash : BytesN 32)
  | enter (contract : Address) (entryPoint : BytesN 32)
  | exit (contract : Address) (entryPoint : BytesN 32)
deriving DecidableEq

/-- Whoever makes the call, `enter` and `exit` authorize nobody. -/
def perform (env : Env own) (s : State) : Call → Result State
  | .init admin => init env admin s
  | .setAdmin admin newAdmin => setAdmin env admin newAdmin s
  | .setMaxCallDepth admin maxDepth => setMaxCallDepth env admin maxDepth s
  | .activateGuard admin contract => activateGuard env admin contract s
  | .deactivateGuard admin contract => deactivateGuard env admin contract s
  | .allowPattern admin patternHash => allowPattern env admin patternHash s
  | .disallowPattern admin patternHash => disallowPattern env admin patternHash s
  | .enter contract entryPoint => enter contract entryPoint s
  | .exit contract entryPoint => exit contract entryPoint s

/-- A call and its result. One that fails leaves the state as it was. -/
def invoke (env : Env own) (s : State) (c : Call) : State × Result Unit :=
  match perform env s c with
  | .ok s' => (s', .ok ())
  | .error e => (s, .error e)

/-- The contract at the address `own`. Its runs have the calls that fail as well. -/
def machine (own : Address) : Machine State (Env own × Call) (Result Unit) where
  step s i := some (invoke i.1 s i.2)

end Shelterflex.ReentrancyGuard
