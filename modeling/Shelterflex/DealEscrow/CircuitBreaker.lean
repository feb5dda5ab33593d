import Shelterflex.DealEscrow.Deals

namespace Shelterflex.DealEscrow
open Lib
set_option autoImplicit true

def Call.settles : Call → Bool
  | .resolveRentDispute _ _ _ _ => true
  | .settleRentReleaseTimeout _ => true
  | .settleDisputeTimeout _ => true
  | _ => false

def Action.settles : Action own T → Bool
  | .call _ c => c.settles
  | .traffic _ => false

def Action.drains : Action own T → Bool
  | .call _ (.executeDrain _ _) => true
  | _ => false

def Frozen (w : World T) : Prop := getCircuitBreakerState w.escrow = .frozen

instance : DecidablePred (Frozen (T := T)) := fun _ => inferInstanceAs (Decidable (_ = _))

/-- In a frozen escrow the call sends nothing out, and only `execute_drain` ends the freeze. -/
def Contained (tok : Token T) (own : Address) (w : World T) (a : Action own T) (o : Output)
    (w' : World T) : Prop :=
  Frozen w → o.outflow ≤ 0 ∧ tok.balance w.token own ≤ tok.balance w'.token own ∧
    (Frozen w' ∨ a.drains = true ∧ getCircuitBreakerState w'.escrow = .unfrozen)

section
variable {tok : Token T} {env : Env own} {w w' : World T}

theorem Frame.contained (h : Frame c w.escrow w'.escrow) (ho : o.outflow = 0)
    (ht : tok.balance w.token own ≤ tok.balance w'.token own) :
    Contained tok own w (.call env c) o w' := by
  intro hf
  refine ⟨ho.le, ht, ?_⟩
  rcases h.breaker with hb | hb | ⟨⟨_, _, rfl⟩, hb⟩
  · left
    rw [Frozen, getCircuitBreakerState, hb]
    exact hf
  · left
    rw [Frozen, getCircuitBreakerState, hb]
    rfl
  · right
    rw [getCircuitBreakerState, hb]
    exact ⟨rfl, rfl⟩

theorem release_thawed (h : release tok env caller dealId split externalRef w = .ok (w', n)) :
    ¬ Frozen w := by
  intro hf
  have hs := (release_ok h).1
  rw [requireNotFrozen, hf] at hs
  cases hs

theorem act_contained (hx : tok.Exact) (hr : Ready w.escrow) (a : Action own T)
    (h : act tok w a = some (w', o)) (hn : a.settles = false) : Contained tok own w a o w' := by
  cases a with
  | traffic t =>
    simp only [act, Option.ite_none_right_eq_some, Option.some.injEq, Prod.mk.injEq] at h
    obtain ⟨hle, rfl, rfl⟩ := h
    exact fun hf => ⟨le_rfl, hle, .inl hf⟩
  | call env c =>
    rcases invoke_deals hr h with ⟨_, ha⟩ | ⟨dealId, _, v, _, hv, hframe⟩
    · exact ha.frame.contained ha.outflow (by rw [ha.token])
    cases hv with
    | deposit hp _ _ _ =>
      obtain ⟨_, hs, he⟩ := commit_some.mp h
      cases he
      obtain ⟨_, hauth, ht, _⟩ := deposit_ok hs
      have hg := hx.inflow ht (env.ne_own hauth)
      exact hframe.contained rfl (by omega)
    | release _ =>
      obtain ⟨⟨_, _⟩, hs, _⟩ := commit_some.mp h
      exact fun hf => absurd hf (release_thawed hs)
    | request _ _ _ | challenge _ _ _ =>
      obtain ⟨_, _, he⟩ := commit_some.mp h
      cases he
      exact hframe.contained rfl le_rfl
    | settle _ _ _ _ _ hc => rcases hc with rfl | rfl | ⟨_, _, _, rfl⟩ <;> cases hn

/-- Every pending release is of a positive amount. -/
def Positive (s : State) : Prop := ∀ dealId p, (deal s dealId).pending = some p → 0 < p.amount

theorem Deal.Change.positive (h : Deal.Change dealId v c o v')
    (hp : ∀ p, v.pending = some p → 0 < p.amount) : ∀ p, v'.pending = some p → 0 < p.amount := by
  cases h with
  | deposit _ _ _ _ | release _ | challenge _ _ _ => exact hp
  | request _ ha _ =>
    intro p he
    cases he
    exact ha
  | settle _ _ _ _ _ _ =>
    intro p he
    cases he

theorem act_ready {a : Action own T} (hr : Ready w.escrow) (hp : Positive w.escrow)
    (h : act tok w a = some (w', o)) : Ready w'.escrow ∧ Positive w'.escrow :=
  act_deals (P := fun _ v => ∀ p, v.pending = some p → 0 < p.amount) hr h hp
    fun _ _ dealId _ _ hv => hv.positive (hp dealId)

theorem Changes.outflow_pos (hp : Positive w.escrow) (h : Changes w w' dealId c (.settled r)) :
    0 < Output.outflow (.settled r) := by
  obtain ⟨_, _, hv, _⟩ := h
  cases hv with
  | settle he _ _ _ _ _ => exact hp dealId _ he

theorem act_outflow_pos {a : Action own T} (hp : Positive w.escrow)
    (h : act tok w a = some (w', o)) (hs : a.settles = true) : 0 < o.outflow := by
  cases a with
  | traffic t => cases hs
  | call env c =>
    cases c with
    | resolveRentDispute _ _ _ _ =>
      obtain ⟨_, hs, he⟩ := commit_some.mp h
      cases he
      exact (resolveRentDispute_changes hs).outflow_pos hp
    | settleRentReleaseTimeout _ =>
      obtain ⟨_, hs, he⟩ := commit_some.mp h
      cases he
      exact (settleRentReleaseTimeout_changes hs).outflow_pos hp
    | settleDisputeTimeout _ =>
      obtain ⟨_, hs, he⟩ := commit_some.mp h
      cases he
      exact (settleDisputeTimeout_changes hs).outflow_pos hp
    | _ => cases hs

theorem reachable_ready {admin operator token receiptContract : Address}
    (h : (machine tok own).Reachable ⟨initialized admin operator token receiptContract, t₀⟩ w) :
    Ready w.escrow ∧ Positive w.escrow := by
  refine h.invariant (P := fun w => Ready w.escrow ∧ Positive w.escrow) ⟨?_, ?_⟩
    fun hp hs => act_ready hp.1 hp.2 hs
  · exact ⟨by simp [initialized], rfl, by simp [initialized], rfl⟩
  · intro dealId p hp
    cases hp

/-- A run keeps the tokens in while the escrow is frozen exactly if none of the settlement calls is
made while it is frozen: they alone do not check the circuit breaker. -/
theorem contained_iff {admin operator token receiptContract : Address} (hx : tok.Exact)
    (h : (machine tok own).Run ⟨initialized admin operator token receiptContract, t₀⟩ t w) :
    (∀ e ∈ t, Contained tok own e.pre e.input e.output e.post) ↔
      ∀ e ∈ t, Frozen e.pre → e.input.settles = false := by
  constructor
  · intro hC e he hf
    obtain ⟨hr, hs⟩ := h.committed he
    by_contra hn
    have hpos := act_outflow_pos (reachable_ready hr).2 hs (by simpa using hn)
    have hle := (hC e he hf).1
    omega
  · intro hC e he hf
    obtain ⟨hr, hs⟩ := h.committed he
    exact act_contained hx (reachable_ready hr).1 e.input hs (hC e he hf) hf

end

def fundedStart : World (Address → Int) :=
  ⟨initialized ⟨1⟩ ⟨2⟩ ⟨8⟩ ⟨9⟩, fun a => if a = ⟨0⟩ then 0 else 500⟩

/-- A pending release is settled only after the freeze has ended. -/
def drained : List (Action ⟨0⟩ (Address → Int)) :=
  [.call (.signed ⟨0⟩ 0) (.deposit ⟨3⟩ [1] 100),
    .call (.signed ⟨0⟩ 0) (.requestRentRelease ⟨2⟩ [1] ⟨4⟩ 60 [1] [1]),
    .call (.signed ⟨0⟩ 10) (.freeze ⟨1⟩),
    .call (.signed ⟨0⟩ 20) (.proposeDrain ⟨1⟩ (Vector.replicate 32 7)),
    .call (.signed ⟨0⟩ 90000) (.executeDrain ⟨1⟩ (Vector.replicate 32 7)),
    .call (.signed ⟨0⟩ 90000) (.settleRentReleaseTimeout [1])]

theorem contained_iff_drained :
    ((machine plainToken ⟨0⟩).replay fundedStart drained).1.length = 6 ∧
      ∀ e ∈ ((machine plainToken ⟨0⟩).replay fundedStart drained).1,
        Contained plainToken ⟨0⟩ e.pre e.input e.output e.post :=
  ⟨by decide,
    (contained_iff plainToken_exact ((machine plainToken ⟨0⟩).run_replay fundedStart drained)).mpr
      (by decide)⟩

/-- The pending release is settled while the escrow is frozen. -/
def frozenSettlement : List (Action ⟨0⟩ (Address → Int)) :=
  [.call (.signed ⟨0⟩ 0) (.deposit ⟨3⟩ [1] 100),
    .call (.signed ⟨0⟩ 0) (.requestRentRelease ⟨2⟩ [1] ⟨4⟩ 60 [1] [1]),
    .call (.signed ⟨0⟩ 10) (.freeze ⟨1⟩),
    .call (.signed ⟨0⟩ 90000) (.settleRentReleaseTimeout [1])]

theorem not_contained_settlement :
    ¬ ∀ t w, (machine plainToken ⟨0⟩).Run fundedStart t w →
      ∀ e ∈ t, Frozen e.pre → e.output.outflow ≤ 0 := by
  intro hall
  have hr := (machine plainToken ⟨0⟩).run_replay fundedStart frozenSettlement
  exact absurd (hall _ _ hr) (by decide)

end Shelterflex.DealEscrow
