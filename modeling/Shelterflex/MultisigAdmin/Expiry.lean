import Shelterflex.Host.Transaction
import Shelterflex.MultisigAdmin.Execution

/-! What becomes of the status that an expired proposal is given. -/

namespace Shelterflex.MultisigAdmin
open Lib
set_option autoImplicit true

section
variable (env : Env own)

/-- The status is written, and then the call panics. -/
def expire (proposalId : Nat) (prop : Proposal) : Writing State Empty Unit :=
  if prop.expiry ≠ 0 ∧ prop.expiry < env.timestamp then do
    write (putStatus proposalId prop .expired)
    check (.error (.trap (.panicked "ProposalExpired")))
  else
    pure ()

/-- `approve` with the writes it makes. -/
def approveCall (signer : Address) (proposalId : Nat) : Writing State Empty Unit := do
  let s ← get
  let _ ← check (requireSigner env signer s)
  let prop ← check (requirePending proposalId s)
  expire env proposalId prop
  let approvals := getApprovals s proposalId
  check (demand (signer ∉ approvals) "AlreadyApproved")
  write (putApprovals proposalId prop (approvals ++ [signer]))

/-- `execute` with the writes it makes. -/
def executeCall (executor : Address) (proposalId : Nat) : Writing State Empty Unit := do
  let s ← get
  let cfg ← check (requireSigner env executor s)
  let prop ← check (requirePending proposalId s)
  expire env proposalId prop
  check (demand (cfg.threshold ≤ (getApprovals s proposalId).length) "NotEnoughApprovals")
  write (putStatus proposalId prop .executed)

end

section
variable {env : Env own}

theorem atomically_expire {k : Unit → Writing State Empty Unit} {f : Unit → Result State}
    (h : (k ()).atomically s = landed s (f ())) :
    (expire env n q >>= k).atomically s = landed s (requireUnexpired env q >>= f) := by
  by_cases hx : q.expiry ≠ 0 ∧ q.expiry < env.timestamp
  · rw [expire, if_pos hx, requireUnexpired, demand, if_neg (not_not.mpr hx)]
    rfl
  · rw [expire, if_neg hx, requireUnexpired, demand, if_pos hx]
    exact h

theorem atomically_opened {k : Config → Proposal → Writing State Empty Unit}
    {f : Config → Proposal → Result State} (a : Address) (n : Nat) (s : State)
    (h : ∀ cfg q, (k cfg q).atomically s = landed s (f cfg q)) :
    (do
      let cfg ← check (requireSigner env a s)
      let q ← check (requirePending n s)
      expire env n q
      k cfg q).atomically s = landed s (do
        let cfg ← requireSigner env a s
        let q ← requirePending n s
        requireUnexpired env q
        f cfg q) := by
  apply Writing.atomically_check
  intro cfg _
  apply Writing.atomically_check
  intro q _
  exact atomically_expire (h cfg q)

/-- On the host the calls with their writes are the calls of the contract. -/
theorem approveCall_atomically (a : Address) (n : Nat) (s : State) :
    (approveCall env a n).atomically s = landed s (approve env a n s) := by
  rw [approveCall, Writing.atomically_get]
  apply atomically_opened
  intro cfg q
  apply Writing.atomically_check
  intro _ _
  exact Writing.atomically_write _ s

theorem executeCall_atomically (a : Address) (n : Nat) (s : State) :
    (executeCall env a n).atomically s = landed s (execute env a n s) := by
  rw [executeCall, Writing.atomically_get]
  apply atomically_opened
  intro cfg q
  apply Writing.atomically_check
  intro _ _
  exact Writing.atomically_write _ s

theorem landed_of_rejected {x : Result State} (h : ∀ s', x ≠ .ok s') : (landed s x).2 = s := by
  cases x with
  | error f => rfl
  | ok s' => exact absurd rfl (h s')

theorem approve_rejects (ho : Open s n q) (hx : ¬ q.Unexpired env.timestamp) (a : Address)
    (s' : State) : approve env a n s ≠ .ok s' := by
  intro h
  obtain ⟨_, q', _, ho', hx', _⟩ := approve_ok.mp h
  cases ho.stored.symm.trans ho'.stored
  exact hx hx'

theorem execute_rejects (ho : Open s n q) (hx : ¬ q.Unexpired env.timestamp) (a : Address)
    (s' : State) : execute env a n s ≠ .ok s' := by
  intro h
  obtain ⟨_, q', _, ho', hx', _⟩ := execute_ok.mp h
  cases ho.stored.symm.trans ho'.stored
  exact hx hx'

end

/-! The listing -/

/-- The expiry of a proposal is on record. -/
structure Recorded (n : Nat) (s : State) : Prop where
  status : ∃ q, s.proposal.get n = some q ∧ q.status = .expired
  listed : n ∈ listProposals (some .expired) s

/-- No proposal is stored as expired. -/
def NoneExpired (s : State) : Prop := ∀ n q, s.proposal.get n = some q → q.status ≠ .expired

theorem At.noneExpired {env : Env own} (h : At env n s s' c)
    (hs : ∀ q, s.proposal.get n = some q → q.status ≠ .expired)
    (hq' : s'.proposal.get n = some q') : q'.status ≠ .expired := by
  cases h with
  | other hp _ _ => exact hs q' (hp ▸ hq')
  | opened _ ho _ _ _ =>
    cases ho.stored.symm.trans hq'
    rw [ho.pending]
    decide
  | approve _ ho _ _ _ hq | revoke _ ho _ _ hq =>
    have hne := hs _ ho.stored
    cases hq.symm.trans hq'
    exact hne
  | execute _ _ _ _ _ hq | cancel _ _ hq =>
    cases hq.symm.trans hq'
    nofun

theorem reachable_noneExpired (h : (machine own).Reachable s₀ s) (h₀ : NoneExpired s₀) :
    NoneExpired s :=
  h.invariant h₀ fun hn hs n _ hq => ((invoke_changes hs).at n).noneExpired (hn n) hq

theorem NoneExpired.listed (h : NoneExpired s) : listProposals (some .expired) s = [] := by
  apply List.filter_eq_nil_iff.mpr
  intro n _ hany
  obtain ⟨q, hq, hx⟩ := (Option.any_eq_true _ _).mp hany
  exact h n q hq (of_decide_eq_true hx)

theorem NoneExpired.not_recorded (h : NoneExpired s) : ¬ Recorded n s := by
  intro hr
  obtain ⟨q, hq, hx⟩ := hr.status
  exact h n q hq hx

/-- An expired proposal that is approved or executed is pending afterwards, and is never listed as
expired. -/
theorem expiry_unrecorded {env : Env own} (h : (machine own).Reachable .fresh s) (ho : Open s n q)
    (hx : ¬ q.Unexpired env.timestamp)
    (hs : s' = ((approveCall env caller n).atomically s).2 ∨
      s' = ((executeCall env caller n).atomically s).2) :
    ¬ Recorded n s' ∧ Open s' n q ∧
      ∀ s'', (machine own).Reachable s' s'' → listProposals (some .expired) s'' = [] := by
  have hkept : s' = s := by
    rcases hs with rfl | rfl
    · rw [approveCall_atomically]
      exact landed_of_rejected (approve_rejects ho hx caller)
    · rw [executeCall_atomically]
      exact landed_of_rejected (execute_rejects ho hx caller)
  subst hkept
  have hn := reachable_noneExpired h nofun
  exact ⟨hn.not_recorded, ho, fun s'' hr => (reachable_noneExpired hr hn).listed⟩

def lapsed : State := ((machine ⟨0⟩).replay .fresh (proposedCalls [⟨1⟩, ⟨2⟩] 2)).2

theorem reachable_lapsed : (machine ⟨0⟩).Reachable .fresh lapsed :=
  ⟨_, (machine ⟨0⟩).run_replay .fresh (proposedCalls [⟨1⟩, ⟨2⟩] 2)⟩

theorem lapsed_open : Open lapsed 1 ⟨⟨1⟩, .freezeAccount, [], 9, .pending, 0⟩ := ⟨rfl, rfl⟩

theorem expiry_unrecorded_lapsed :
    ¬ Recorded 1 ((approveCall (.signed ⟨0⟩ 10) ⟨2⟩ 1).atomically lapsed).2 ∧
      Open ((approveCall (.signed ⟨0⟩ 10) ⟨2⟩ 1).atomically lapsed).2 1
        ⟨⟨1⟩, .freezeAccount, [], 9, .pending, 0⟩ ∧
      ∀ s'', (machine ⟨0⟩).Reachable
          ((approveCall (.signed ⟨0⟩ 10) ⟨2⟩ 1).atomically lapsed).2 s'' →
        listProposals (some .expired) s'' = [] :=
  expiry_unrecorded reachable_lapsed lapsed_open (by decide) (.inl rfl)

theorem approved_late_pending :
    ¬ ∀ s, (machine ⟨0⟩).Reachable .fresh s → ∀ (env : Env ⟨0⟩) caller n q, Open s n q →
      ¬ q.Unexpired env.timestamp →
      Recorded n ((approveCall env caller n).atomically s).2 ∧
        Recorded n ((executeCall env caller n).atomically s).2 := by
  intro hall
  obtain ⟨⟨⟨q, hq, hx⟩, _⟩, _⟩ :=
    hall lapsed reachable_lapsed (.signed ⟨0⟩ 10) ⟨2⟩ 1 _ lapsed_open (by decide)
  have hget : ((approveCall (.signed ⟨0⟩ 10) ⟨2⟩ 1).atomically lapsed).2.proposal.get 1 =
      some ⟨⟨1⟩, .freezeAccount, [], 9, .pending, 0⟩ := by rfl
  cases hget.symm.trans hq
  cases hx

end Shelterflex.MultisigAdmin
