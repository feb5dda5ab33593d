import Shelterflex.Lib.Unwinding
import Shelterflex.ReentrancyGuard.Balance

/-! What other parties can do to the calls of a guarded contract. -/

namespace Shelterflex.ReentrancyGuard
open Lib
set_option autoImplicit true

/-- Who makes a call: the guarded contract, the admin, or somebody else. -/
inductive Party where
  | guarded
  | admin
  | other
deriving DecidableEq

/-- A call with its maker. The contract does not see who calls `enter` and `exit`. -/
structure Sent (own : Address) where
  maker : Party
  env : Env own
  call : Call

/-- The contract whose depth the call is about. -/
def Call.contract : Call → Option Address
  | .enter contract _ => some contract
  | .exit contract _ => some contract
  | _ => none

def respond (s : State) (i : Sent own) : State × Result Unit := invoke i.env s i.call

/-- A call of `enter` or `exit` by another party. -/
def foreign (i : Sent own) : Bool := decide (i.maker = .other) && i.call.contract.isSome

/-- A call of `enter` or `exit` by the guarded contract for itself. -/
def sees (contract : Address) (i : Sent own) : Bool :=
  decide (i.maker = .guarded) && decide (i.call.contract = some contract)

/-- Whichever of the calls `F` other parties make, and wherever, the results of the contract's own
calls are the same. -/
def Isolated (own contract : Address) (F : Set Call) : Prop :=
  ∀ is is' : List (Sent own), (∀ i ∈ is, foreign i = true → i.call ∈ F) →
    (∀ i ∈ is', foreign i = true → i.call ∈ F) →
    is.filter (fun i => !foreign i) = is'.filter (fun i => !foreign i) →
    observed respond (sees contract) .fresh is = observed respond (sees contract) .fresh is'

/-- The states differ in the depths of other contracts at most. -/
structure Agrees (contract : Address) (s s' : State) : Prop where
  admin : s.admin = s'.admin
  guardActive : s.guardActive = s'.guardActive
  maxCallDepth : s.maxCallDepth = s'.maxCallDepth
  allowedPattern : s.allowedPattern = s'.allowedPattern
  depth : ∀ entryPoint, getCallDepth s contract entryPoint = getCallDepth s' contract entryPoint

theorem Agrees.refl (contract : Address) (s : State) : Agrees contract s s :=
  ⟨rfl, rfl, rfl, rfl, fun _ => rfl⟩

theorem Agrees.symm (h : Agrees contract s s') : Agrees contract s' s :=
  ⟨h.admin.symm, h.guardActive.symm, h.maxCallDepth.symm, h.allowedPattern.symm,
    fun p => (h.depth p).symm⟩

theorem Agrees.trans (h : Agrees contract s s') (h' : Agrees contract s' s'') :
    Agrees contract s s'' :=
  ⟨h.admin.trans h'.admin, h.guardActive.trans h'.guardActive,
    h.maxCallDepth.trans h'.maxCallDepth, h.allowedPattern.trans h'.allowedPattern,
    fun p => (h.depth p).trans (h'.depth p)⟩

theorem DepthOnly.agrees (h : DepthOnly k p s s') (hne : k ≠ contract) : Agrees contract s' s := by
  refine ⟨h.admin, h.guardActive, h.maxCallDepth, h.allowedPattern, ?_⟩
  intro p'
  apply h.depth
  rintro ⟨⟩
  exact hne rfl

theorem Changes.agrees (h : Changes s s' c) (hc : c.contract = some k) (hne : k ≠ contract) :
    Agrees contract s' s := by
  cases h with
  | enter h =>
    cases hc
    exact h.depthOnly.agrees hne
  | exit h =>
    cases hc
    exact h.depthOnly.agrees hne
  | init _ | setAdmin _ | setMaxCallDepth _ _ | activateGuard _ => cases hc
  | deactivateGuard _ | allowPattern _ | disallowPattern _ => cases hc

theorem invoke_agrees {env : Env own} (hc : c.contract = some k) (hne : k ≠ contract) (s : State) :
    Agrees contract (invoke env s c).1 s := by
  unfold invoke
  split
  · rename_i h
    exact (perform_changes h).agrees hc hne
  · exact .refl _ _

/-- Two results that the contract cannot tell apart. -/
inductive Alike (contract : Address) : Result State → Result State → Prop where
  | ok (h : Agrees contract s s') : Alike contract (.ok s) (.ok s')
  | error : Alike contract (.error e) (.error e)

theorem Alike.bind {x : Result α} {f g : α → Result State}
    (h : ∀ a, Alike contract (f a) (g a)) : Alike contract (x >>= f) (x >>= g) := by
  cases x with
  | error e => exact .error
  | ok a => exact h a

theorem requireAdmin_congr {env : Env own} (h : s.admin = s'.admin) :
    requireAdmin env admin s = requireAdmin env admin s' := by
  rw [requireAdmin, getAdmin, h, requireAdmin, getAdmin]

theorem Agrees.active (h : Agrees contract s s') :
    isGuardActive s contract = isGuardActive s' contract := by
  rw [isGuardActive, h.guardActive, isGuardActive]

theorem Agrees.allowed (h : Agrees contract s s') (p : BytesN 32) :
    isPatternAllowed s p = isPatternAllowed s' p := by
  rw [isPatternAllowed, h.allowedPattern, isPatternAllowed]

theorem Agrees.most (h : Agrees contract s s') : getMaxCallDepth s = getMaxCallDepth s' := by
  rw [getMaxCallDepth, h.maxCallDepth, getMaxCallDepth]

theorem Agrees.setCallDepth (h : Agrees contract s s') (p : BytesN 32) (n : Nat) :
    Agrees contract (setCallDepth contract p n s) (setCallDepth contract p n s') := by
  refine ⟨h.admin, h.guardActive, h.maxCallDepth, h.allowedPattern, ?_⟩
  intro p'
  by_cases he : p' = p
  · rw [he, getCallDepth_self, getCallDepth_self]
  · have hne : (contract, p') ≠ (contract, p) := fun h => he (Prod.mk.inj h).2
    rw [getCallDepth_of_ne hne, getCallDepth_of_ne hne, h.depth]

theorem depth_alike (h : Agrees contract s s') (p : BytesN 32) (x : Result Unit)
    (depth : Result Nat) :
    Alike contract (x >>= fun _ => depth >>= fun n => pure (setCallDepth contract p n s))
      (x >>= fun _ => depth >>= fun n => pure (setCallDepth contract p n s')) := by
  apply Alike.bind
  intro _
  apply Alike.bind
  intro n
  exact .ok (h.setCallDepth p n)

theorem enter_alike (h : Agrees contract s s') :
    Alike contract (enter contract p s) (enter contract p s') := by
  rw [enter, enter, h.active, h.allowed p, h.most, h.depth p]
  apply Alike.bind
  intro _
  split
  · exact .ok h
  · exact depth_alike h p _ _

theorem exit_alike (h : Agrees contract s s') :
    Alike contract (exit contract p s) (exit contract p s') := by
  rw [exit, exit, h.active, h.allowed p, h.depth p]
  apply Alike.bind
  intro _
  split
  · exact .ok h
  · exact depth_alike h p _ _

theorem perform_alike {env : Env own} (h : Agrees contract s s')
    (hc : c.contract = none ∨ c.contract = some contract) :
    Alike contract (perform env s c) (perform env s' c) := by
  cases c with
  | init admin =>
    rw [perform, perform, init, init, h.admin]
    apply Alike.bind
    intro _
    apply Alike.bind
    intro _
    exact .ok ⟨rfl, h.guardActive, rfl, h.allowedPattern, h.depth⟩
  | setAdmin admin newAdmin =>
    rw [perform, perform, setAdmin, setAdmin, requireAdmin_congr h.admin]
    apply Alike.bind
    intro _
    exact .ok ⟨rfl, h.guardActive, h.maxCallDepth, h.allowedPattern, h.depth⟩
  | setMaxCallDepth admin maxDepth =>
    rw [perform, perform, setMaxCallDepth, setMaxCallDepth, requireAdmin_congr h.admin]
    apply Alike.bind
    intro _
    apply Alike.bind
    intro _
    exact .ok ⟨h.admin, h.guardActive, rfl, h.allowedPattern, h.depth⟩
  | activateGuard admin contract' =>
    rw [perform, perform, activateGuard, activateGuard, requireAdmin_congr h.admin, h.guardActive]
    apply Alike.bind
    intro _
    exact .ok ⟨h.admin, rfl, h.maxCallDepth, h.allowedPattern, h.depth⟩
  | deactivateGuard admin contract' =>
    rw [perform, perform, deactivateGuard, deactivateGuard, requireAdmin_congr h.admin,
      h.guardActive]
    apply Alike.bind
    intro _
    exact .ok ⟨h.admin, rfl, h.maxCallDepth, h.allowedPattern, h.depth⟩
  | allowPattern admin patternHash =>
    rw [perform, perform, allowPattern, allowPattern, requireAdmin_congr h.admin, h.allowed,
      h.allowedPattern]
    apply Alike.bind
    intro _
    apply Alike.bind
    intro _
    exact .ok ⟨h.admin, h.guardActive, h.maxCallDepth, rfl, h.depth⟩
  | disallowPattern admin patternHash =>
    rw [perform, perform, disallowPattern, disallowPattern, requireAdmin_congr h.admin,
      h.allowedPattern]
    apply Alike.bind
    intro _
    exact .ok ⟨h.admin, h.guardActive, h.maxCallDepth, rfl, h.depth⟩
  | enter contract' p =>
    obtain rfl : contract' = contract := by simpa [Call.contract] using hc
    exact enter_alike h
  | exit contract' p =>
    obtain rfl : contract' = contract := by simpa [Call.contract] using hc
    exact exit_alike h

theorem Alike.invoke {env : Env own} (ha : Agrees contract s s')
    (h : Alike contract (perform env s c) (perform env s' c)) :
    (invoke env s c).2 = (invoke env s' c).2 ∧
      Agrees contract (invoke env s c).1 (invoke env s' c).1 := by
  rw [ReentrancyGuard.invoke, ReentrancyGuard.invoke]
  generalize perform env s c = x at h
  generalize perform env s' c = y at h
  cases h with
  | ok h => exact ⟨rfl, h⟩
  | error => exact ⟨rfl, ha⟩

theorem respond_agrees (h : Agrees contract s s') (i : Sent own) :
    Agrees contract (respond s i).1 (respond s' i).1 := by
  by_cases hc : i.call.contract = none ∨ i.call.contract = some contract
  · exact ((perform_alike h hc).invoke h).2
  · obtain ⟨hsome, hne⟩ := not_or.mp hc
    obtain ⟨k, hk⟩ := Option.ne_none_iff_exists'.mp hsome
    have hk' : k ≠ contract := by
      rintro rfl
      exact hne hk
    exact ((invoke_agrees hk hk' s).trans h).trans (invoke_agrees hk hk' s').symm

/-- Calls of other parties that are not about the contract are hidden from it. -/
theorem unwinding (own contract : Address) :
    Unwinding respond foreign (sees contract)
      (fun i : Sent own => i.call.contract ≠ some contract) (Agrees contract) := by
  constructor
  · intro i hf
    simp only [foreign, Bool.and_eq_true, decide_eq_true_eq] at hf
    simp [sees, hf.1]
  · intro i s s' hf hc h
    simp only [foreign, Bool.and_eq_true] at hf
    obtain ⟨k, hk⟩ := Option.isSome_iff_exists.mp hf.2
    have hne : k ≠ contract := by
      rintro rfl
      exact hc hk
    exact (invoke_agrees hk hne s).trans h
  · intro i s s' _ h
    exact respond_agrees h i
  · intro i s s' hs h
    simp only [sees, Bool.and_eq_true, decide_eq_true_eq] at hs
    exact ((perform_alike h (.inr hs.2)).invoke h).1

theorem isolated_of_unnamed (hF : ∀ c ∈ F, c.contract ≠ some contract) :
    Isolated own contract F := by
  intro is is' hC hC' he
  apply (unwinding own contract).same (.refl contract .fresh)
  · exact fun i hi hf => hF _ (hC i hi hf)
  · exact fun i hi hf => hF _ (hC' i hi hf)
  · exact he

theorem invoke_of_ok {env : Env own} (h : perform env s c = .ok s') :
    invoke env s c = (s', .ok ()) := by
  rw [invoke, h]

theorem invoke_of_error {env : Env own} (h : perform env s c = .error e) :
    invoke env s c = (s, .error e) := by
  rw [invoke, h]

section
variable (ha : isGuardActive s contract = true) (hp : isPatternAllowed s entryPoint = false)
include ha hp

theorem enter_counts (hd : getCallDepth s contract entryPoint < getMaxCallDepth s)
    (hf : getCallDepth s contract entryPoint + 1 < 2 ^ 32) :
    enter contract entryPoint s =
      .ok (setCallDepth contract entryPoint (getCallDepth s contract entryPoint + 1) s) := by
  rw [enter, require_bind_of ha, if_neg (ne_true_of_eq_false hp), require_bind_of hd,
    bind_of_ok (u32Add_ok.mpr ⟨hf, rfl⟩)]
  rfl

theorem enter_full (hd : ¬ getCallDepth s contract entryPoint < getMaxCallDepth s) :
    enter contract entryPoint s = .error (.err .maxDepthExceeded) := by
  rw [enter, require_bind_of ha, if_neg (ne_true_of_eq_false hp), require_bind_of_not hd]

theorem exit_idle (hz : getCallDepth s contract entryPoint = 0) :
    exit contract entryPoint s = .error (.err .invalidExit) := by
  rw [exit, require_bind_of ha, if_neg (ne_true_of_eq_false hp),
    require_bind_of_not (not_not.mpr hz)]

end

section
variable (own contract : Address)

def someAdmin : Address := ⟨own.id + 1⟩

def byParty (maker : Party) (call : Call) : Sent own := ⟨maker, .signed own 0, call⟩

/-- The admin guards the contract, and lets it enter once. -/
def setup : List (Sent own) :=
  [byParty own .admin (.init (someAdmin own)),
    byParty own .admin (.activateGuard (someAdmin own) contract),
    byParty own .admin (.setMaxCallDepth (someAdmin own) 1)]

def ready : State :=
  { State.fresh with
    admin := some (someAdmin own)
    contractVersion := some 1
    maxCallDepth := some 1
    guardActive := Store.set .empty contract true }

theorem someAdmin_authorized : (Env.signed own 0).authorized (someAdmin own) = true := by
  apply Env.signed_authorized
  intro h
  exact Nat.succ_ne_self own.id (congrArg Address.id h)

theorem requireAdmin_some (h : s.admin = some (someAdmin own)) :
    requireAdmin (.signed own 0) (someAdmin own) s = .ok () := by
  rw [requireAdmin, getAdmin, h, expect, ok_bind, requireAdminPermission,
    bind_of_ok (requireAuth_ok (u := ()).mpr (someAdmin_authorized own))]
  exact require_ok.mpr rfl

theorem after_setup : after respond .fresh (setup own contract) = ready own contract := by
  have hinit : perform (.signed own 0) .fresh (.init (someAdmin own)) =
      .ok ⟨some (someAdmin own), .empty, .empty, some 5, .empty, some 1⟩ := by
    have hnone : State.fresh.admin = none := rfl
    rw [perform, init, require_bind_of hnone,
      bind_of_ok (requireAuth_ok (u := ()).mpr (someAdmin_authorized own))]
    rfl
  have hguard (s : State) (h : s.admin = some (someAdmin own)) :
      perform (.signed own 0) s (.activateGuard (someAdmin own) contract) =
        .ok { s with guardActive := s.guardActive.set contract true } := by
    rw [perform, activateGuard, bind_of_ok (requireAdmin_some own h)]
    rfl
  have hmax (s : State) (h : s.admin = some (someAdmin own)) :
      perform (.signed own 0) s (.setMaxCallDepth (someAdmin own) 1) =
        .ok { s with maxCallDepth := some 1 } := by
    have hone : ¬ (1 = 0 ∨ 20 < 1) := by decide
    rw [perform, setMaxCallDepth, bind_of_ok (requireAdmin_some own h), require_bind_of hone]
    rfl
  simp only [after, setup, byParty, List.foldl_cons, List.foldl_nil, respond]
  rw [invoke_of_ok hinit]
  dsimp only
  rw [invoke_of_ok (hguard _ rfl)]
  dsimp only
  rw [invoke_of_ok (hmax _ rfl)]
  rfl

theorem ready_active : isGuardActive (ready own contract) contract = true :=
  Store.getD_set_self _ _ _ _

end

section
variable {own contract : Address} {p : BytesN 32}

theorem Isolated.same_ready {F : Set Call} (h : Isolated own contract F) (is is' : List (Sent own))
    (hF : ∀ i ∈ is, foreign i = true → i.call ∈ F) (hF' : ∀ i ∈ is', foreign i = true → i.call ∈ F)
    (he : is.filter (fun i => !foreign i) = is'.filter fun i => !foreign i) :
    observed respond (sees contract) (ready own contract) is =
      observed respond (sees contract) (ready own contract) is' := by
  have hsetup : ∀ i ∈ setup own contract, foreign i = true → i.call ∈ F := by
    intro i hi hf
    simp only [setup, List.mem_cons, List.not_mem_nil, or_false] at hi
    rcases hi with rfl | rfl | rfl
    · cases hf
    · cases hf
    · cases hf
  have hall {is : List (Sent own)} (hF : ∀ i ∈ is, foreign i = true → i.call ∈ F) :
      ∀ i ∈ setup own contract ++ is, foreign i = true → i.call ∈ F := by
    intro i hi
    rcases List.mem_append.mp hi with hi | hi
    · exact hsetup i hi
    · exact hF i hi
  have hsame := h (setup own contract ++ is) (setup own contract ++ is') (hall hF) (hall hF')
    (by rw [List.filter_append, List.filter_append, he])
  rw [observed_append, observed_append, after_setup] at hsame
  exact List.append_cancel_left hsame

theorem enter_once : enter contract p (ready own contract) =
    .ok (setCallDepth contract p 1 (ready own contract)) :=
  enter_counts (ready_active own contract) rfl Nat.zero_lt_one (Nat.lt_of_sub_eq_succ rfl)

theorem enter_twice : enter contract p (setCallDepth contract p 1 (ready own contract)) =
    .error (.err .maxDepthExceeded) := by
  refine enter_full ?_ rfl ?_
  · exact ready_active own contract
  · rw [getCallDepth_self]
    exact Nat.lt_irrefl 1

theorem exit_once : exit contract p (setCallDepth contract p 1 (ready own contract)) =
    .ok (setCallDepth contract p 0 (setCallDepth contract p 1 (ready own contract))) := by
  apply exit_ok.mpr
  refine ⟨ready_active own contract, .inr ⟨rfl, ?_, ?_⟩⟩
  · rw [getCallDepth_self]
    exact Nat.one_ne_zero
  · rw [getCallDepth_self]

theorem exit_twice : exit contract p
    (setCallDepth contract p 0 (setCallDepth contract p 1 (ready own contract))) =
      .error (.err .invalidExit) := by
  refine exit_idle ?_ rfl getCallDepth_self
  exact ready_active own contract

def entering (own contract : Address) (p : BytesN 32) (maker : Party) : Sent own :=
  byParty own maker (.enter contract p)

def exiting (own contract : Address) (p : BytesN 32) (maker : Party) : Sent own :=
  byParty own maker (.exit contract p)

theorem respond_enter_once (maker : Party) :
    respond (ready own contract) (entering own contract p maker) =
      (setCallDepth contract p 1 (ready own contract), .ok ()) :=
  invoke_of_ok enter_once

theorem respond_enter_twice (maker : Party) :
    respond (setCallDepth contract p 1 (ready own contract)) (entering own contract p maker) =
      (setCallDepth contract p 1 (ready own contract), .error (.err .maxDepthExceeded)) :=
  invoke_of_error enter_twice

theorem respond_exit_once (maker : Party) :
    respond (setCallDepth contract p 1 (ready own contract)) (exiting own contract p maker) =
      (setCallDepth contract p 0 (setCallDepth contract p 1 (ready own contract)), .ok ()) :=
  invoke_of_ok exit_once

theorem respond_exit_twice (maker : Party) :
    respond (setCallDepth contract p 0 (setCallDepth contract p 1 (ready own contract)))
        (exiting own contract p maker) =
      (setCallDepth contract p 0 (setCallDepth contract p 1 (ready own contract)),
        .error (.err .invalidExit)) :=
  invoke_of_error exit_twice

theorem sees_entering : sees contract (entering own contract p .guarded) = true :=
  decide_eq_true rfl

theorem sees_exiting : sees contract (exiting own contract p .guarded) = true :=
  decide_eq_true rfl

/-- Another party that enters for the contract exhausts its depth. -/
theorem enter_disturbs {F : Set Call} (hc : .enter contract p ∈ F) : ¬ Isolated own contract F := by
  intro h
  have hmem : ∀ i ∈ [entering own contract p .other, entering own contract p .guarded],
      foreign i = true → i.call ∈ F := by
    intro i hi _
    rcases List.mem_pair.mp hi with rfl | rfl
    · exact hc
    · exact hc
  have hs := h.same_ready [entering own contract p .guarded] _
    (fun i hi => hmem i (List.mem_cons_of_mem _ hi)) hmem rfl
  have hnot : sees contract (entering own contract p .other) = false := rfl
  rw [observed_cons_of_sees sees_entering, observed_cons_of_not hnot,
    observed_cons_of_sees sees_entering] at hs
  simp only [respond_enter_once, respond_enter_twice] at hs
  cases congrArg Prod.snd (List.cons.inj hs).1

theorem exit_disturbs {F : Set Call} (hc : .exit contract p ∈ F) : ¬ Isolated own contract F := by
  intro h
  have hmem : ∀ i ∈ [entering own contract p .guarded, exiting own contract p .other,
      exiting own contract p .guarded], foreign i = true → i.call ∈ F := by
    intro i hi hf
    simp only [List.mem_cons, List.not_mem_nil, or_false] at hi
    rcases hi with rfl | rfl | rfl
    · cases hf
    · exact hc
    · exact hc
  have hmem' : ∀ i ∈ [entering own contract p .guarded, exiting own contract p .guarded],
      foreign i = true → i.call ∈ F := by
    intro i hi hf
    rcases List.mem_pair.mp hi with rfl | rfl
    · cases hf
    · exact hc
  have hs := h.same_ready _ _ hmem' hmem rfl
  have hnot : sees contract (exiting own contract p .other) = false := rfl
  rw [observed_cons_of_sees sees_entering, observed_cons_of_sees sees_exiting,
    observed_cons_of_sees sees_entering, observed_cons_of_not hnot,
    observed_cons_of_sees sees_exiting] at hs
  simp only [respond_enter_once, respond_exit_once, respond_exit_twice] at hs
  cases congrArg Prod.snd (List.cons.inj (List.cons.inj hs).2).1

end

/-- The calls of the contract are isolated from the calls that other parties make when none of
these names the contract, and only then. -/
theorem isolated_iff (own contract : Address) (F : Set Call) :
    Isolated own contract F ↔ ∀ c ∈ F, c.contract ≠ some contract := by
  constructor
  · intro h c hc he
    cases c with
    | enter contract' p =>
      cases he
      exact enter_disturbs hc h
    | exit contract' p =>
      cases he
      exact exit_disturbs hc h
    | init _ | setAdmin _ _ | setMaxCallDepth _ _ | activateGuard _ _ => cases he
    | deactivateGuard _ _ | allowPattern _ _ | disallowPattern _ _ => cases he
  · exact isolated_of_unnamed

/-- Any party can enter for the guarded contract `9`, which then cannot. -/
theorem guarded_exhausted :
    ¬ ∀ own contract, Isolated own contract {c | c.contract ≠ none} := by
  intro hall
  have hmem : Call.enter ⟨9⟩ point ∈ {c : Call | c.contract ≠ none} := nofun
  exact enter_disturbs hmem (hall ⟨0⟩ ⟨9⟩)

end Shelterflex.ReentrancyGuard
