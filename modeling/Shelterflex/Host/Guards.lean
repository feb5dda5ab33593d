import Shelterflex.Host.Basic

namespace Shelterflex
set_option autoImplicit true

/-! `soroban_access_control_core` -/

def requireAdminPermission (env : Env own) (admin caller : Address) (notAuthorized : ε) :
    Outcome ε Unit := do
  env.requireAuth caller
  require (caller = admin) notAuthorized

def requireAdminOrOperatorPermission (env : Env own) (admin : Address)
    (operator : Option Address) (caller : Address) (notAuthorized : ε) : Outcome ε Unit := do
  env.requireAuth caller
  require (caller = admin ∨ operator = some caller) notAuthorized

def requireAdminAuth (env : Env own) (admin : Address) : Outcome ε Unit := env.requireAuth admin

/-! `soroban_pausable_core` -/

inductive PausableError where
  | paused
  | notAuthorized
deriving DecidableEq, Repr

/-! `soroban_reentrancy_guard`, on the stored flag -/

def enter (flag : Option Bool) (onReentry : ε) : Outcome ε (Option Bool) := do
  require (flag.getD false = false) onReentry
  return some true

def exit : Option Bool := some false

theorem enter_ok {flag : Option Bool} {e : ε} :
    enter flag e = .ok f ↔ flag.getD false = false ∧ some true = f := by
  simp only [enter, bind_ok, require_ok, pure_ok, exists_const]

end Shelterflex
