import Shelterflex.Lib.Since
import Shelterflex.MultisigAdmin.Approvals

/-! When a proposal is executed. -/

namespace Shelterflex.MultisigAdmin
open Lib
set_option autoImplicit true

def Call.executes (n : Nat) : Call → Bool
  | .execute _ m => m = n
  | _ => false

def executes (n : Nat) (e : Step own) : Bool := e.input.2.executes n

/-- A threshold of signers stands behind the proposal, and it has not expired. -/
structure Backed (n : Nat) (earlier : History own) (e : Step own) : Prop where
  proposal : ∃ q, Open e.pre n q ∧ q.Unexpired e.input.1.timestamp
  threshold : ∃ cfg, e.pre.config = some cfg ∧ ∃ signers : List Address, signers.Nodup ∧
    cfg.threshold ≤ signers.length ∧ ∀ a ∈ signers, a ∈ cfg.signers ∧ Approved a n earlier

/-- The proposals of a run that has come to the state `s`. -/
structure Safe (t : History own) (s : State) : Prop where
  once : ∀ n, (t.filter (executes n)).length ≤ 1
  backed : ∀ n later e earlier, t = later ++ e :: earlier → executes n e = true →
    Backed n earlier e
  nodup : ∀ n, (getApprovals s n).Nodup
  signers : ∀ n, ∀ a ∈ getApprovals s n, ∃ cfg, s.config = some cfg ∧ a ∈ cfg.signers
  count : ∀ n q, s.proposal.get n = some q → q.approvalCount = (getApprovals s n).length
  final : ∀ t' s', (machine own).Run s t' s' → ∀ n q, s.proposal.get n = some q →
    q.status ≠ .pending →
      s'.proposal.get n = some q ∧ getApprovals s' n = getApprovals s n

theorem At.backed {e : Step own} (h : Tracked n t e.pre)
    (ha : At e.input.1 n e.pre e.post e.input.2) (hx : executes n e = true) :
    Backed n t e := by
  obtain ⟨pre, ⟨env, c⟩, o, post⟩ := e
  cases ha with
  | execute hs ho hx hle _ _ =>
    refine ⟨⟨_, ho, hx⟩, _, hs.config, getApprovals pre n, h.nodup, hle, fun a ha => ?_⟩
    obtain ⟨cfg, hcfg, hmem⟩ := h.signers a ha
    cases hcfg.symm.trans hs.config
    exact ⟨hmem, (h.standing a).mp ha⟩
  | other _ _ hc | opened _ _ _ _ hc =>
    cases c with
    | execute _ _ => exact absurd (of_decide_eq_true hx) (of_decide_eq_false hc)
    | _ => cases hx
  | approve | revoke | cancel => cases hx

theorem At.final (hn : Numbered s) (h : At env n s s' c) (hq : s.proposal.get n = some q)
    (hs : q.status ≠ .pending) :
    s'.proposal.get n = some q ∧ getApprovals s' n = getApprovals s n := by
  have hopen {q'} (ho : Open s n q') : False := by
    cases hq.symm.trans ho.stored
    exact hs ho.pending
  cases h with
  | other hp hl _ => exact ⟨hp.trans hq, hl⟩
  | opened hid _ _ _ _ => cases (hn.fresh n hid.le).symm.trans hq
  | approve _ ho _ _ _ _ | revoke _ ho _ _ _ | execute _ ho _ _ _ _ | cancel ho _ _ =>
    exact (hopen ho).elim

theorem run_final (hn : Numbered s) (h : (machine own).Run s t s') (hq : s.proposal.get n = some q)
    (hs : q.status ≠ .pending) :
    s'.proposal.get n = some q ∧ getApprovals s' n = getApprovals s n := by
  apply And.right (a := Numbered s')
  apply h.invariant (P := fun _ s' => Numbered s' ∧ s'.proposal.get n = some q ∧
    getApprovals s' n = getApprovals s n)
  · exact ⟨hn, hq, rfl⟩
  · rintro t s₁ i s₂ o ⟨hn₁, hq₁, hl₁⟩ hstep
    have hc := invoke_changes hstep
    obtain ⟨hq₂, hl₂⟩ := (hc.at n).final hn₁ hq₁ hs
    exact ⟨hc.numbered hn₁, hq₂, hl₂.trans hl₁⟩

/-- A proposal that was executed is marked so, and was executed once. -/
structure Marked (n : Nat) (t : History own) (s : State) : Prop where
  once : (t.filter (executes n)).length ≤ 1
  marked : (∃ e ∈ t, executes n e = true) →
    ∃ q, s.proposal.get n = some q ∧ q.status = .executed

theorem At.executed (h : At env n s s' c) (hx : c.executes n = true) :
    ∃ q, Open s n q ∧ s'.proposal.get n = some { q with status := .executed } := by
  cases h with
  | execute _ ho _ _ _ hq => exact ⟨_, ho, hq⟩
  | other _ _ hc | opened _ _ _ _ hc =>
    cases c with
    | execute _ _ => exact absurd (of_decide_eq_true hx) (of_decide_eq_false hc)
    | _ => cases hx
  | approve | revoke | cancel => cases hx

/-- An execution needs a proposal that is not executed, and leaves it executed for good. -/
theorem execution_closes (own : Address) (n : Nat) : (machine own).Closes .fresh (executes n)
    fun s => ∃ q, s.proposal.get n = some q ∧ q.status = .executed where
  stays hr hs := by
    rintro ⟨q, hq, hx⟩
    obtain ⟨t, hr⟩ := hr
    have hne : q.status ≠ .pending := by
      rw [hx]
      decide
    exact ⟨q, (((invoke_changes hs).at n).final (run_numbered hr) hq hne).1, hx⟩
  needs _ hs hx := by
    rintro ⟨q, hq, hx'⟩
    obtain ⟨q', ho, _⟩ := ((invoke_changes hs).at n).executed hx
    cases hq.symm.trans ho.stored
    cases hx'.symm.trans ho.pending
  sets _ hs hx := by
    obtain ⟨q, _, hq⟩ := ((invoke_changes hs).at n).executed hx
    exact ⟨_, hq, rfl⟩

theorem run_marked (n : Nat) (h : (machine own).Run .fresh t s) : Marked n t s := by
  obtain ⟨hle, hmarked⟩ := h.once (execution_closes own n)
  constructor
  · rw [← List.countP_eq_length_filter]
    exact hle
  · rintro ⟨e, he, hx⟩
    exact hmarked (List.countP_pos_iff.mpr ⟨e, he, hx⟩).ne'

/-- A proposal is executed at most once, before it expires, on the standing approvals of a
threshold of signers. -/
theorem execution_safe (h : (machine own).Run .fresh t s) : Safe t s := by
  have htracked (n : Nat) := run_tracked n h
  constructor
  · exact fun n => (run_marked n h).once
  · intro n later e earlier ht hx
    subst ht
    obtain ⟨hr, hs⟩ := h.upTo
    exact ((invoke_changes hs).at n).backed (run_tracked n hr) hx
  · exact fun n => (htracked n).nodup
  · exact fun n => (htracked n).signers
  · exact fun n => (htracked n).count
  · exact fun _ _ hr n _ hq hs => run_final (run_numbered h) hr hq hs

/-- The first signer proposes to freeze an account. -/
def proposedCalls (signers : List Address) (threshold : Nat) : List (Env ⟨0⟩ × Call) :=
  [(.signed ⟨0⟩ 0, .init signers threshold),
    (.signed ⟨0⟩ 1, .propose ⟨1⟩ .freezeAccount [] 9)]

def executedCalls : List (Env ⟨0⟩ × Call) :=
  proposedCalls [⟨1⟩, ⟨2⟩, ⟨3⟩] 2 ++ [(.signed ⟨0⟩ 2, .approve ⟨1⟩ 1),
    (.signed ⟨0⟩ 2, .approve ⟨2⟩ 1), (.signed ⟨0⟩ 3, .execute ⟨3⟩ 1)]

theorem execution_safe_executed :
    Safe ((machine ⟨0⟩).replay .fresh executedCalls).1
      ((machine ⟨0⟩).replay .fresh executedCalls).2 :=
  execution_safe ((machine ⟨0⟩).run_replay .fresh executedCalls)

end Shelterflex.MultisigAdmin
