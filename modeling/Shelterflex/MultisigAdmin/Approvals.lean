import Shelterflex.MultisigAdmin.Model
import Shelterflex.Lib.Since

/-! The approvals of a proposal against the history of a run. -/

namespace Shelterflex.MultisigAdmin
open Lib
set_option autoImplicit true

abbrev Step (own : Address) := Event State (Env own × Call) Output

abbrev History (own : Address) := List (Step own)

/-- A signer calls, and has signed the call. -/
structure Signs (env : Env own) (s : State) (cfg : Config) (a : Address) : Prop where
  config : s.config = some cfg
  signer : a ∈ cfg.signers
  authorized : env.authorized a = true

/-- A proposal that can still be acted on. -/
structure Open (s : State) (n : Nat) (q : Proposal) : Prop where
  stored : s.proposal.get n = some q
  pending : q.status = .pending

/-- An expiry of zero stands for none. -/
def Proposal.Unexpired (q : Proposal) (now : Nat) : Prop := q.expiry = 0 ∨ now ≤ q.expiry

instance : Decidable (Proposal.Unexpired q now) := inferInstanceAs (Decidable (_ ∨ _))

/-- What a successful call does. -/
inductive Changes (env : Env own) (s s' : State) : Call → Output → Prop where
  | init (hn : s.config = none) (hs : s' = { s with
      config := some ⟨signers, threshold⟩
      nextProposalId := some 1 }) : Changes env s s' (.init signers threshold) .unit
  | propose (ha : Signs env s cfg proposer) (hs : s' = { s with
      proposal := s.proposal.set (nextId s) ⟨proposer, operation, params, expiry, .pending, 0⟩
      approvals := s.approvals.set (nextId s) []
      nextProposalId := some (nextId s + 1) }) :
      Changes env s s' (.propose proposer operation params expiry) (.id (nextId s))
  | approve (ha : Signs env s cfg signer) (ho : Open s n q)
      (hx : q.Unexpired env.timestamp) (hf : signer ∉ getApprovals s n)
      (hs : s' = putApprovals n q (getApprovals s n ++ [signer]) s) :
      Changes env s s' (.approve signer n) .unit
  | revoke (ha : Signs env s cfg signer) (ho : Open s n q)
      (hx : q.Unexpired env.timestamp) (hf : signer ∈ getApprovals s n)
      (hs : s' = putApprovals n q ((getApprovals s n).filter (· ≠ signer)) s) :
      Changes env s s' (.revokeApproval signer n) .unit
  | execute (ha : Signs env s cfg executor) (ho : Open s n q)
      (hx : q.Unexpired env.timestamp) (hle : cfg.threshold ≤ (getApprovals s n).length)
      (hs : s' = putStatus n q .executed s) : Changes env s s' (.execute executor n) .unit
  | cancel (ha : Signs env s cfg caller) (ho : Open s n q) (hs : s' = putStatus n q .cancelled s) :
      Changes env s s' (.cancel caller n) .unit

theorem requireSigner_ok : requireSigner env a s = .ok cfg ↔ Signs env s cfg a := by
  simp only [requireSigner, bind_ok, requireAuth_ok, expect_ok, demand_ok, pure_ok]
  constructor
  · rintro ⟨_, ha, _, hc, _, hs, rfl⟩
    exact ⟨hc, hs, ha⟩
  · intro h
    exact ⟨(), h.authorized, cfg, h.config, (), h.signer, rfl⟩

theorem requirePending_ok : requirePending n s = .ok q ↔ Open s n q := by
  simp only [requirePending, getProposal, bind_ok, expect_ok, demand_ok, pure_ok]
  constructor
  · rintro ⟨_, hq, _, hp, rfl⟩
    exact ⟨hq, hp⟩
  · intro h
    exact ⟨q, h.stored, (), h.pending, rfl⟩

theorem requireUnexpired_ok {env : Env own} :
    requireUnexpired env q = .ok u ↔ q.Unexpired env.timestamp := by
  rw [requireUnexpired, demand_ok, Proposal.Unexpired, not_and_or, not_not, not_lt]

theorem approve_ok : approve env signer n s = .ok s' ↔ ∃ cfg q, Signs env s cfg signer ∧
    Open s n q ∧ q.Unexpired env.timestamp ∧ signer ∉ getApprovals s n ∧
    s' = putApprovals n q (getApprovals s n ++ [signer]) s := by
  simp only [approve, bind_ok, requireSigner_ok, requirePending_ok, requireUnexpired_ok, demand_ok,
    pure_ok, exists_const, eq_comm (a := s')]
  constructor
  · rintro ⟨cfg, ha, q, ho, hx, hf, hs⟩
    exact ⟨cfg, q, ha, ho, hx, hf, hs⟩
  · rintro ⟨cfg, q, ha, ho, hx, hf, hs⟩
    exact ⟨cfg, ha, q, ho, hx, hf, hs⟩

theorem execute_ok : execute env executor n s = .ok s' ↔ ∃ cfg q, Signs env s cfg executor ∧
    Open s n q ∧ q.Unexpired env.timestamp ∧ cfg.threshold ≤ (getApprovals s n).length ∧
    s' = putStatus n q .executed s := by
  simp only [execute, bind_ok, requireSigner_ok, requirePending_ok, requireUnexpired_ok, demand_ok,
    pure_ok, exists_const, eq_comm (a := s')]
  constructor
  · rintro ⟨cfg, ha, q, ho, hx, hf, hs⟩
    exact ⟨cfg, q, ha, ho, hx, hf, hs⟩
  · rintro ⟨cfg, q, ha, ho, hx, hf, hs⟩
    exact ⟨cfg, ha, q, ho, hx, hf, hs⟩

theorem invoke_changes (h : invoke env s c = some (s', o)) : Changes env s s' c o := by
  cases c with
  | init signers threshold =>
    obtain ⟨_, hs, he⟩ := commit_some.mp h
    cases he
    simp only [init, bind_ok, demand_ok, pure_ok] at hs
    obtain ⟨_, hn, _, _, hs⟩ := hs
    exact .init hn hs.symm
  | propose proposer operation params expiry =>
    obtain ⟨⟨_, _⟩, hs, he⟩ := commit_some.mp h
    cases he
    simp only [propose, bind_ok, requireSigner_ok, demand_ok, u64Add_ok, pure_ok,
      Prod.mk.injEq] at hs
    obtain ⟨cfg, ha, _, _, _, ⟨_, rfl⟩, hs, rfl⟩ := hs
    exact .propose ha hs.symm
  | approve signer n =>
    obtain ⟨_, hs, he⟩ := commit_some.mp h
    cases he
    obtain ⟨_, _, ha, ho, hx, hf, hs⟩ := approve_ok.mp hs
    exact .approve ha ho hx hf hs
  | revokeApproval signer n =>
    obtain ⟨_, hs, he⟩ := commit_some.mp h
    cases he
    simp only [revokeApproval, bind_ok, requireSigner_ok, requirePending_ok, requireUnexpired_ok,
      demand_ok, pure_ok] at hs
    obtain ⟨_, ha, q, ho, _, hx, _, hf, hs⟩ := hs
    exact .revoke ha ho hx hf hs.symm
  | execute executor n =>
    obtain ⟨_, hs, he⟩ := commit_some.mp h
    cases he
    obtain ⟨_, _, ha, ho, hx, hle, hs⟩ := execute_ok.mp hs
    exact .execute ha ho hx hle hs
  | cancel caller n =>
    obtain ⟨_, hs, he⟩ := commit_some.mp h
    cases he
    simp only [cancel, bind_ok, requireSigner_ok, requirePending_ok, pure_ok] at hs
    obtain ⟨_, ha, q, ho, hs⟩ := hs
    exact .cancel ha ho hs.symm

/-- The calls that act on one proposal. -/
def Call.concerns (n : Nat) : Call → Bool
  | .approve _ m => m = n
  | .revokeApproval _ m => m = n
  | .execute _ m => m = n
  | .cancel _ m => m = n
  | _ => false

/-- What a call makes of one proposal. -/
inductive At (env : Env own) (n : Nat) (s s' : State) : Call → Prop where
  | other (hp : s'.proposal.get n = s.proposal.get n) (hl : getApprovals s' n = getApprovals s n)
      (hc : c.concerns n = false) : At env n s s' c
  | opened (hn : nextId s = n) (ho : Open s' n q) (hz : q.approvalCount = 0)
      (hl : getApprovals s' n = []) (hc : c.concerns n = false) : At env n s s' c
  | approve (ha : Signs env s cfg signer) (ho : Open s n q) (hx : q.Unexpired env.timestamp)
      (hf : signer ∉ getApprovals s n) (hl : getApprovals s' n = getApprovals s n ++ [signer])
      (hq : s'.proposal.get n = some { q with approvalCount := (getApprovals s' n).length }) :
      At env n s s' (.approve signer n)
  | revoke (ha : Signs env s cfg signer) (ho : Open s n q) (hx : q.Unexpired env.timestamp)
      (hl : getApprovals s' n = (getApprovals s n).filter (· ≠ signer))
      (hq : s'.proposal.get n = some { q with approvalCount := (getApprovals s' n).length }) :
      At env n s s' (.revokeApproval signer n)
  | execute (ha : Signs env s cfg executor) (ho : Open s n q) (hx : q.Unexpired env.timestamp)
      (hle : cfg.threshold ≤ (getApprovals s n).length)
      (hl : getApprovals s' n = getApprovals s n)
      (hq : s'.proposal.get n = some { q with status := .executed }) :
      At env n s s' (.execute executor n)
  | cancel (ho : Open s n q) (hl : getApprovals s' n = getApprovals s n)
      (hq : s'.proposal.get n = some { q with status := .cancelled }) :
      At env n s s' (.cancel caller n)

theorem putApprovals_other (h : n ≠ m) (q : Proposal) (l : List Address) (s : State) :
    (putApprovals m q l s).proposal.get n = s.proposal.get n ∧
      getApprovals (putApprovals m q l s) n = getApprovals s n :=
  ⟨Store.get_set_of_ne _ _ h, Store.getD_set_of_ne _ _ _ h⟩

theorem getApprovals_putApprovals (n : Nat) (q : Proposal) (l : List Address) (s : State) :
    getApprovals (putApprovals n q l s) n = l :=
  Store.getD_set_self _ _ _ _

theorem proposal_putApprovals (n : Nat) (q : Proposal) (l : List Address) (s : State) :
    (putApprovals n q l s).proposal.get n =
      some { q with approvalCount := (getApprovals (putApprovals n q l s) n).length } := by
  rw [getApprovals_putApprovals]
  exact Store.get_set_self _ _ _

theorem Changes.at (h : Changes env s s' c o) (n : Nat) : At env n s s' c := by
  cases h with
  | init _ hs =>
    subst hs
    exact .other rfl rfl rfl
  | propose _ hs =>
    by_cases hn : n = nextId s
    · subst hs hn
      exact .opened rfl ⟨Store.get_set_self _ _ _, rfl⟩ rfl (Store.getD_set_self _ _ _ _) rfl
    · subst hs
      exact .other (Store.get_set_of_ne _ _ hn) (Store.getD_set_of_ne _ _ _ hn) rfl
  | @approve _ _ m q ha ho hx hf hs =>
    subst hs
    by_cases hn : n = m
    · subst hn
      exact .approve ha ho hx hf (getApprovals_putApprovals _ _ _ _) (proposal_putApprovals _ _ _ _)
    · obtain ⟨hp, hl⟩ := putApprovals_other hn q _ s
      exact .other hp hl (decide_eq_false (Ne.symm hn))
  | @revoke _ _ m q ha ho hx _ hs =>
    subst hs
    by_cases hn : n = m
    · subst hn
      exact .revoke ha ho hx (getApprovals_putApprovals _ _ _ _) (proposal_putApprovals _ _ _ _)
    · obtain ⟨hp, hl⟩ := putApprovals_other hn q _ s
      exact .other hp hl (decide_eq_false (Ne.symm hn))
  | @execute _ _ m q ha ho hx hle hs =>
    subst hs
    by_cases hn : n = m
    · subst hn
      exact .execute ha ho hx hle rfl (Store.get_set_self _ _ _)
    · exact .other (Store.get_set_of_ne _ _ hn) rfl (decide_eq_false (Ne.symm hn))
  | @cancel _ _ m q ha ho hs =>
    subst hs
    by_cases hn : n = m
    · subst hn
      exact .cancel ho rfl (Store.get_set_self _ _ _)
    · exact .other (Store.get_set_of_ne _ _ hn) rfl (decide_eq_false (Ne.symm hn))

/-! Ids -/

/-- Proposals are numbered in order, and need a configuration. -/
structure Numbered (s : State) : Prop where
  fresh : ∀ n, nextId s ≤ n → s.proposal.get n = none
  configured : ∀ n q, s.proposal.get n = some q → s.config ≠ none

theorem Numbered.put (h : Numbered s) (ho : Open s n q) (hp : s'.proposal = s.proposal.set n q')
    (hn : nextId s' = nextId s) (hc : s'.config = s.config) : Numbered s' := by
  constructor
  · intro m hm
    have hne : m ≠ n := by
      rintro rfl
      cases (h.fresh m (hn ▸ hm)).symm.trans ho.stored
    rw [hp, Store.get_set_of_ne _ _ hne]
    exact h.fresh m (hn ▸ hm)
  · intro m _ _
    rw [hc]
    exact h.configured n q ho.stored

theorem Changes.numbered (hn : Numbered s) (h : Changes env s s' c o) : Numbered s' := by
  cases h with
  | init hnone hs =>
    subst hs
    have hempty (n : Nat) : s.proposal.get n = none := by
      by_contra hne
      obtain ⟨q, hq⟩ := Option.ne_none_iff_exists'.mp hne
      exact hn.configured n q hq hnone
    exact ⟨fun n _ => hempty n, fun _ _ _ => nofun⟩
  | propose ha hs =>
    subst hs
    constructor
    · intro n hle
      have hlt : nextId s < n := hle
      exact (Store.get_set_of_ne _ _ hlt.ne').trans (hn.fresh n hlt.le)
    · intro _ _ _ hnone
      cases hnone.symm.trans ha.config
  | approve _ ho _ _ hs | revoke _ ho _ _ hs | execute _ ho _ _ hs | cancel _ ho hs =>
    subst hs
    exact hn.put ho rfl rfl rfl

theorem run_numbered (h : (machine own).Run .fresh t s) : Numbered s :=
  h.invariant (P := fun _ => Numbered) ⟨fun _ _ => rfl, fun _ _ h => nomatch h⟩ fun hn hs =>
    (invoke_changes hs).numbered hn

/-! Approvals -/

def approves (a : Address) (n : Nat) (e : Step own) : Prop := e.input.2 = .approve a n

def revokes (a : Address) (n : Nat) (e : Step own) : Prop := e.input.2 = .revokeApproval a n

instance : DecidablePred (approves a n : Step own → Prop) := fun e =>
  inferInstanceAs (Decidable (e.input.2 = _))

instance : DecidablePred (revokes a n : Step own → Prop) := fun e =>
  inferInstanceAs (Decidable (e.input.2 = _))

/-- The last word of a signer on a proposal was an approval. -/
def Approved (a : Address) (n : Nat) (t : History own) : Prop :=
  Since (approves a n) (revokes a n) t

instance (t : History own) : Decidable (Approved a n t) := Since.decidable t

/-- The list of approvals of a proposal against the history. -/
structure Tracked (n : Nat) (t : History own) (s : State) : Prop where
  bare : s.proposal.get n = none → getApprovals s n = []
  nodup : (getApprovals s n).Nodup
  signers : ∀ a ∈ getApprovals s n, ∃ cfg, s.config = some cfg ∧ a ∈ cfg.signers
  count : ∀ q, s.proposal.get n = some q → q.approvalCount = (getApprovals s n).length
  standing : ∀ a, a ∈ getApprovals s n ↔ Approved a n t

theorem approved_other {e : Step own} (h : e.input.2.concerns n = false) (a : Address)
    (t : History own) : Approved a n (e :: t) ↔ Approved a n t := by
  have ha : ¬ approves a n e := fun hi => by
    rw [hi] at h
    exact absurd rfl (of_decide_eq_false h)
  have hr : ¬ revokes a n e := fun hi => by
    rw [hi] at h
    exact absurd rfl (of_decide_eq_false h)
  exact since_cons.trans ⟨fun h => (h.resolve_left ha).2, fun h => .inr ⟨hr, h⟩⟩

theorem approved_approve {e : Step own} (h : e.input.2 = .approve signer n) (a : Address)
    (t : History own) : Approved a n (e :: t) ↔ a = signer ∨ Approved a n t := by
  have hr : ¬ revokes a n e := fun hi => nomatch h.symm.trans hi
  have ha : approves a n e ↔ a = signer :=
    ⟨fun hi => (Call.approve.inj (hi.symm.trans h)).1, fun he => he ▸ h⟩
  rw [Approved, since_cons, ha]
  exact or_congr_right (and_iff_right hr)

theorem approved_revoke {e : Step own} (h : e.input.2 = .revokeApproval signer n) (a : Address)
    (t : History own) : Approved a n (e :: t) ↔ a ≠ signer ∧ Approved a n t := by
  have ha : ¬ approves a n e := fun hi => nomatch h.symm.trans hi
  have hr : ¬ revokes a n e ↔ a ≠ signer :=
    not_congr ⟨fun hi => (Call.revokeApproval.inj (hi.symm.trans h)).1, fun he => he ▸ h⟩
  rw [Approved, since_cons, hr]
  exact or_iff_right ha

theorem Changes.config (h : Changes env s s' c o) (hc : s.config = some cfg) :
    s'.config = some cfg := by
  cases h with
  | init hn _ => cases hn.symm.trans hc
  | propose _ hs | approve _ _ _ _ hs | revoke _ _ _ _ hs | execute _ _ _ _ hs | cancel _ _ hs =>
    subst hs
    exact hc

theorem Tracked.keep {e : Step own} (h : Tracked n t e.pre)
    (hc : ∀ cfg, e.pre.config = some cfg → e.post.config = some cfg)
    (hl : getApprovals e.post n = getApprovals e.pre n)
    (hq : ∀ q, e.post.proposal.get n = some q → ∃ q', e.pre.proposal.get n = some q' ∧
      q.approvalCount = q'.approvalCount)
    (hb : e.post.proposal.get n = none → e.pre.proposal.get n = none)
    (ha : ∀ a, Approved a n (e :: t) ↔ Approved a n t) : Tracked n (e :: t) e.post := by
  constructor
  · intro hn
    exact hl.trans (h.bare (hb hn))
  · rw [hl]
    exact h.nodup
  · intro a hmem
    rw [hl] at hmem
    obtain ⟨cfg, hcfg, hs⟩ := h.signers a hmem
    exact ⟨cfg, hc cfg hcfg, hs⟩
  · intro q hget
    obtain ⟨q', hget', he⟩ := hq q hget
    rw [he, hl]
    exact h.count q' hget'
  · intro a
    rw [hl, ha]
    exact h.standing a

theorem Tracked.settle {e : Step own} (h : Tracked n t e.pre)
    (hc : ∀ cfg, e.pre.config = some cfg → e.post.config = some cfg) (ho : Open e.pre n q)
    (hl : getApprovals e.post n = getApprovals e.pre n)
    (hq : e.post.proposal.get n = some { q with status }) (ha : ∀ a, ¬ approves a n e)
    (hr : ∀ a, ¬ revokes a n e) : Tracked n (e :: t) e.post := by
  apply h.keep hc hl
  · intro q' hget
    cases hq.symm.trans hget
    exact ⟨q, ho.stored, rfl⟩
  · intro hnone
    cases hq.symm.trans hnone
  · exact fun a => since_cons.trans ⟨fun h => (h.resolve_left (ha a)).2, fun h => .inr ⟨hr a, h⟩⟩

/-- The id of a new proposal is new, so nobody has approved it before. -/
theorem Tracked.opened {e : Step own} (h : Tracked n t e.pre) (hn : Numbered e.pre)
    (hid : nextId e.pre = n) (ho : Open e.post n q) (hz : q.approvalCount = 0)
    (hl : getApprovals e.post n = []) (hcon : e.input.2.concerns n = false) :
    Tracked n (e :: t) e.post := by
  have hempty : getApprovals e.pre n = [] := h.bare (hn.fresh n hid.le)
  constructor
  · exact fun _ => hl
  · rw [hl]
    exact List.nodup_nil
  · rw [hl]
    intro a hmem
    cases hmem
  · intro q' hget
    cases ho.stored.symm.trans hget
    rw [hz, hl]
    rfl
  · intro a
    rw [hl, approved_other hcon, ← h.standing, hempty]

theorem Tracked.approve {e : Step own} {q : Proposal} (h : Tracked n t e.pre)
    (hc : ∀ cfg, e.pre.config = some cfg → e.post.config = some cfg)
    (hsign : Signs e.input.1 e.pre cfg signer) (hf : signer ∉ getApprovals e.pre n)
    (hl : getApprovals e.post n = getApprovals e.pre n ++ [signer])
    (hq : e.post.proposal.get n =
      some { q with approvalCount := (getApprovals e.post n).length })
    (hi : e.input.2 = .approve signer n) : Tracked n (e :: t) e.post := by
  constructor
  · intro hnone
    cases hq.symm.trans hnone
  · rw [hl]
    exact List.nodup_append.mpr ⟨h.nodup, List.nodup_singleton _, fun a ha b hb => by
      rw [List.mem_singleton.mp hb]
      rintro rfl
      exact hf ha⟩
  · rw [hl]
    intro a hmem
    rcases List.mem_append.mp hmem with hmem | hmem
    · obtain ⟨cfg, hcfg, hs⟩ := h.signers a hmem
      exact ⟨cfg, hc cfg hcfg, hs⟩
    · exact ⟨cfg, hc cfg hsign.config, List.mem_singleton.mp hmem ▸ hsign.signer⟩
  · intro q' hget
    cases hq.symm.trans hget
    rfl
  · intro a
    rw [hl, List.mem_append, List.mem_singleton, h.standing, approved_approve hi, or_comm]

theorem Tracked.revoke {e : Step own} {q : Proposal} (h : Tracked n t e.pre)
    (hc : ∀ cfg, e.pre.config = some cfg → e.post.config = some cfg)
    (hl : getApprovals e.post n = (getApprovals e.pre n).filter (· ≠ signer))
    (hq : e.post.proposal.get n =
      some { q with approvalCount := (getApprovals e.post n).length })
    (hi : e.input.2 = .revokeApproval signer n) : Tracked n (e :: t) e.post := by
  constructor
  · intro hnone
    cases hq.symm.trans hnone
  · rw [hl]
    exact h.nodup.filter _
  · rw [hl]
    intro a hmem
    obtain ⟨cfg, hcfg, hs⟩ := h.signers a (List.mem_filter.mp hmem).1
    exact ⟨cfg, hc cfg hcfg, hs⟩
  · intro q' hget
    cases hq.symm.trans hget
    rfl
  · intro a
    rw [hl, List.mem_filter, decide_eq_true_iff, h.standing, approved_revoke hi, and_comm]

theorem Tracked.step {e : Step own} (h : Tracked n t e.pre) (hn : Numbered e.pre)
    (hc : ∀ cfg, e.pre.config = some cfg → e.post.config = some cfg)
    (ha : At e.input.1 n e.pre e.post e.input.2) : Tracked n (e :: t) e.post := by
  obtain ⟨pre, ⟨env, c⟩, o, post⟩ := e
  cases ha with
  | other hp hl hcon =>
    apply h.keep hc hl
    · exact fun q hq => ⟨q, hp.symm.trans hq, rfl⟩
    · exact fun hnone => hp.symm.trans hnone
    · exact fun a => approved_other (e := ⟨pre, (env, c), o, post⟩) hcon a t
  | opened hid ho hz hl hcon => exact h.opened hn hid ho hz hl hcon
  | approve hsign _ _ hf hl hq => exact h.approve hc hsign hf hl hq rfl
  | revoke _ _ _ hl hq => exact h.revoke hc hl hq rfl
  | execute _ ho _ _ hl hq | cancel ho hl hq =>
    exact h.settle hc ho hl hq (fun _ => nofun) (fun _ => nofun)

theorem tracked_nil (n : Nat) : Tracked n ([] : History own) .fresh where
  bare _ := rfl
  nodup := List.nodup_nil
  signers a ha := by cases ha
  count q hq := by cases hq
  standing a := ⟨fun ha => (by cases ha), fun ha => (by cases ha)⟩

theorem run_tracked (n : Nat) (h : (machine own).Run .fresh t s) : Tracked n t s := by
  induction h with
  | start => exact tracked_nil n
  | @commit t s i s' o hr hs ih =>
    have hc := invoke_changes hs
    exact ih.step (e := ⟨s, i, o, s'⟩) (run_numbered hr) (fun _ => hc.config) (hc.at n)
  | rollback _ _ ih => exact ih

end Shelterflex.MultisigAdmin
