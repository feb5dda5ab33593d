import Shelterflex.SlashingModule.Docket

namespace Shelterflex.SlashingModule
open Lib
set_option autoImplicit true

/-- What the module knows of its actors, and whether it is open to calls. -/
@[ext] structure Accounts where
  admin : Option Address
  paused : Bool
  balance : Address → Int
  slashed : Address → Int
  count : Address → Nat
  jailed : Address → Bool
  approved : Address → Bool
  history : Address → List InspectorSlashRecord

def accounts (s : State) : Accounts where
  admin := s.admin
  paused := s.paused.getD false
  balance := getStakedBalance s
  slashed := totalSlashed s
  count := getSlashCount s
  jailed := isJailed s
  approved := (s.unjailApproval.getD · false)
  history := getSlashHistory s

/-- The calls that write to the accounts. -/
def Call.writes : Call → Bool
  | .setStakedBalance _ _ _ => true
  | .finalizeSlash _ _ => true
  | .approveUnjail _ _ => true
  | .unjail _ => true
  | .slash _ _ _ _ _ => true
  | .pause _ => true
  | .unpause _ => true
  | _ => false

namespace Accounts

/-- Take from the balance of an actor, at most all of it. -/
def reduce (actor : Address) (amount : Int) (a : Accounts) : Accounts :=
  { a with
    balance := Function.update a.balance actor
      (a.balance actor - min amount (a.balance actor))
    slashed := Function.update a.slashed actor
      (a.slashed actor + min amount (a.balance actor)) }

def jail (actor : Address) (a : Accounts) : Accounts :=
  { a with
    count := Function.update a.count actor (a.count actor + 1)
    jailed := Function.update a.jailed actor true }

/-- What a call does to the accounts. -/
inductive Change (s : State) : Call → Accounts → Prop where
  | keep : c.writes = false → Change s c (accounts s)
  | setStakedBalance : (accounts s).paused = false →
      Change s (.setStakedBalance caller actor b)
        { accounts s with balance := Function.update (accounts s).balance actor b }
  | jail : getPendingSlash s slashId = some p → p.isValidator = true →
      Change s (.finalizeSlash caller slashId)
        (((accounts s).reduce p.actor p.amount).jail p.actor)
  | reduce : getPendingSlash s slashId = some p → p.isValidator = false → 0 < p.amount →
      Change s (.finalizeSlash caller slashId) ((accounts s).reduce p.actor p.amount)
  | waive : getPendingSlash s slashId = some p → p.isValidator = false → ¬ 0 < p.amount →
      Change s (.finalizeSlash caller slashId) (accounts s)
  | approve : (accounts s).paused = false → (accounts s).admin = some caller →
      Change s (.approveUnjail caller actor)
        { accounts s with approved := Function.update (accounts s).approved actor true }
  | unjail : (accounts s).paused = false → (accounts s).approved actor = true →
      Change s (.unjail actor)
        { accounts s with
          approved := Function.update (accounts s).approved actor false
          jailed := Function.update (accounts s).jailed actor false }
  | slash : (accounts s).paused = false →
      Change s (.slash caller inspector amount inspectionId reason)
        { accounts s with
          history := Function.update (accounts s).history inspector
            ((accounts s).history inspector ++ [⟨inspectionId, amount, reason, now⟩]) }
  | pause : Change s (.pause caller) { accounts s with paused := true }
  | unpause : Change s (.unpause caller) { accounts s with paused := false }

end Accounts

section
variable {own : Address} {env : Env own} {s s' : State}

theorem accounts_reduceBalance (h : reduceBalance actor n s = .ok (s', m)) :
    accounts s' = (accounts s).reduce actor n := by
  obtain ⟨rfl, rfl⟩ := reduceBalance_ok h
  exact Accounts.ext rfl rfl (Store.getD_set_update _ _ _ _) (Store.getD_set_update _ _ _ _) rfl
    rfl rfl rfl

theorem accounts_putSlashRecord (s : State) (hash : Option Bytes) (record : SlashEvidence) :
    accounts (putSlashRecord hash record s) = accounts s := by
  cases hash <;> rfl

theorem accounts_removeSlashRecord (s : State) (hash : Option Bytes) :
    accounts (removeSlashRecord hash s) = accounts s := by
  cases hash <;> rfl

theorem applyValidatorSlash_accounts (h : applyValidatorSlash env caller p s = .ok s') :
    accounts s' = ((accounts s).reduce p.actor p.amount).jail p.actor := by
  simp only [applyValidatorSlash, bind_ok, u32Add_ok, pure_ok] at h
  obtain ⟨⟨s₁, n⟩, hr, _, ⟨_, rfl⟩, rfl⟩ := h
  rw [← accounts_reduceBalance hr]
  have hj (s₂ : State) : accounts { s₂ with jailed := s₂.jailed.set p.actor true } =
      { accounts s₂ with jailed := Function.update (accounts s₂).jailed p.actor true } :=
    Accounts.ext rfl rfl rfl rfl rfl (Store.getD_set_update _ _ _ _) rfl rfl
  rw [hj, accounts_putSlashRecord]
  exact Accounts.ext rfl rfl rfl rfl (Store.getD_set_update _ _ _ _) rfl rfl rfl

theorem finalizeSlash_accounts (h : finalizeSlash env caller slashId s = .ok s') :
    Accounts.Change s (.finalizeSlash caller slashId) (accounts s') := by
  simp only [finalizeSlash, bind_ok, okOr_ok] at h
  obtain ⟨_, _, p, hp, _, _, _, _, _, _, h⟩ := h
  cases hv : p.isValidator with
  | true =>
    simp only [hv, if_true] at h
    have hs := applyValidatorSlash_accounts h
    have hc : Accounts.Change s (.finalizeSlash caller slashId)
        (((accounts s).reduce p.actor p.amount).jail p.actor) := .jail hp hv
    exact hs ▸ hc
  | false =>
    simp only [hv, Bool.false_eq_true, if_false, applyProposedSlash] at h
    split at h <;> rename_i ha
    · simp only [bind_ok, pure_ok] at h
      obtain ⟨⟨s₁, n⟩, hr, rfl⟩ := h
      rw [accounts_reduceBalance hr]
      exact .reduce hp hv ha
    · cases pure_ok.mp h
      exact .waive hp hv ha

theorem setStakedBalance_accounts (h : setStakedBalance env admin actor b s = .ok s') :
    Accounts.Change s (.setStakedBalance admin actor b) (accounts s') := by
  simp only [setStakedBalance, requireNotPaused, bind_ok, require_ok, pure_ok] at h
  obtain ⟨_, hp, _, _, rfl⟩ := h
  have hs : accounts { s with stakedBalance := s.stakedBalance.set actor b } =
      { accounts s with balance := Function.update (accounts s).balance actor b } :=
    Accounts.ext rfl rfl (Store.getD_set_update _ _ _ _) rfl rfl rfl rfl rfl
  rw [hs]
  exact .setStakedBalance hp

theorem approveUnjail_accounts (h : approveUnjail env admin actor s = .ok s') :
    Accounts.Change s (.approveUnjail admin actor) (accounts s') := by
  simp only [approveUnjail, requireNotPaused, requireAdmin, bind_ok, okOr_ok, require_ok,
    pure_ok] at h
  obtain ⟨_, hp, _, ⟨_, ha, _, _, rfl⟩, _, _, rfl⟩ := h
  have hs : accounts { s with unjailApproval := s.unjailApproval.set actor true } =
      { accounts s with approved := Function.update (accounts s).approved actor true } :=
    Accounts.ext rfl rfl rfl rfl rfl rfl (Store.getD_set_update _ _ _ _) rfl
  rw [hs]
  exact .approve hp ha

theorem unjail_accounts (h : unjail env actor s = .ok s') :
    Accounts.Change s (.unjail actor) (accounts s') := by
  simp only [unjail, requireNotPaused, bind_ok, require_ok, pure_ok] at h
  obtain ⟨_, hp, _, _, _, _, _, ha, rfl⟩ := h
  have hs : accounts { s with
      unjailApproval := s.unjailApproval.remove actor
      jailed := s.jailed.set actor false } =
      { accounts s with
        approved := Function.update (accounts s).approved actor false
        jailed := Function.update (accounts s).jailed actor false } :=
    Accounts.ext rfl rfl rfl rfl rfl (Store.getD_set_update _ _ _ _)
      (Store.getD_remove_update _ _ _) rfl
  rw [hs]
  exact .unjail hp ha

theorem slash_accounts (h : slash env caller inspector amount inspectionId reason s = .ok (s', n)) :
    Accounts.Change s (.slash caller inspector amount inspectionId reason) (accounts s') := by
  simp only [slash, requireNotPaused, bind_ok, require_ok, pure_ok, Prod.mk.injEq] at h
  obtain ⟨_, hp, _, _, _, _, _, _, _, _, rfl, _⟩ := h
  have hs : accounts { s with
        inspectorSlashHistory := s.inspectorSlashHistory.set inspector
          (getSlashHistory s inspector ++ [⟨inspectionId, amount, reason, env.timestamp⟩]) } =
      { accounts s with
        history := Function.update (accounts s).history inspector
          ((accounts s).history inspector ++
            [⟨inspectionId, amount, reason, env.timestamp⟩]) } :=
    Accounts.ext rfl rfl rfl rfl rfl rfl rfl (Store.getD_set_update _ _ _ _)
  rw [hs]
  exact .slash hp

theorem revealEvidence_keeps
    (h : revealEvidence env sha256 submitter slashId evidence salt s = .ok s') :
    accounts s' = accounts s ∧ s'.bondContract = s.bondContract := by
  simp only [revealEvidence, bind_ok] at h
  obtain ⟨_, _, _, _, _, _, h⟩ := h
  split at h
  · cases pure_ok.mp h
    exact ⟨rfl, rfl⟩
  · simp only [bind_ok, pure_ok] at h
    obtain ⟨_, _, rfl⟩ := h
    exact ⟨rfl, rfl⟩

theorem cancelSlash_keeps (h : cancelSlash env admin slashId s = .ok s') :
    accounts s' = accounts s ∧ s'.bondContract = s.bondContract := by
  simp only [cancelSlash, bind_ok, pure_ok] at h
  obtain ⟨_, _, p, _, _, _, rfl⟩ := h
  cases p.isValidator with
  | true =>
    refine ⟨accounts_removeSlashRecord _ _, ?_⟩
    cases p.evidenceHash <;> rfl
  | false => exact ⟨rfl, rfl⟩

theorem slash_ok (h : slash env caller inspector amount inspectionId reason s = .ok (s', n)) :
    s.bondContract = some caller ∧ env.authorized caller = true ∧ s' = { s with
      inspectorSlashHistory := s.inspectorSlashHistory.set inspector
        (getSlashHistory s inspector ++ [⟨inspectionId, amount, reason, env.timestamp⟩]) } := by
  simp only [slash, bind_ok, okOr_ok, require_ok, requireAuth_ok, pure_ok, Prod.mk.injEq] at h
  obtain ⟨_, _, _, hr, _, rfl, _, ha, _, _, rfl, _⟩ := h
  exact ⟨hr, ha, rfl⟩

/-! The bond contract -/

def Call.registers : Call → Bool
  | .setBondContract _ _ => true
  | _ => false

theorem applyValidatorSlash_bondContract (h : applyValidatorSlash env caller p s = .ok s') :
    s'.bondContract = s.bondContract := by
  simp only [applyValidatorSlash, bind_ok, u32Add_ok, pure_ok] at h
  obtain ⟨⟨s₁, n⟩, hr, _, ⟨_, rfl⟩, rfl⟩ := h
  obtain ⟨_, rfl⟩ := reduceBalance_ok hr
  cases p.evidenceHash <;> rfl

theorem applyProposedSlash_bondContract (h : applyProposedSlash p s = .ok s') :
    s'.bondContract = s.bondContract := by
  rw [applyProposedSlash_ok h]

theorem finalizeSlash_bondContract (h : finalizeSlash env caller slashId s = .ok s') :
    s'.bondContract = s.bondContract := by
  simp only [finalizeSlash, bind_ok] at h
  obtain ⟨_, _, p, _, _, _, _, _, _, _, h⟩ := h
  split at h
  · have hs := applyValidatorSlash_bondContract h
    exact hs
  · have hs := applyProposedSlash_bondContract h
    exact hs

/-! What a call writes -/

def Call.isReveal : Call → Bool
  | .revealEvidence _ _ _ _ => true
  | _ => false

/-- What a call does to the pending slashes, to the accounts and to the bond contract. -/
structure Written (sha256 : Bytes → BytesN 32) (now : Nat) (s : State) (c : Call) (s' : State) :
    Prop where
  docket : (docket s).Change sha256 now c (docket s')
  accounts : Accounts.Change s c (accounts s')
  bondContract : c.registers = false → s'.bondContract = s.bondContract

theorem docket_keep (hc : c.isReveal = false) (hs : docket s' = docket s) :
    (docket s).Change sha256 now c (docket s') := by
  rw [hs]
  apply Docket.Change.keep
  intro _ _ _ _ he
  rw [he] at hc
  cases hc

theorem accounts_keep (hc : c.writes = false) (hs : accounts s' = accounts s) :
    Accounts.Change s c (accounts s') := by
  rw [hs]
  exact .keep hc

theorem invoke_written (h : invoke sha256 env s c = some (s', o)) :
    Written sha256 env.timestamp s c s' := by
  cases c with
  | configureTiers _ _ _ _ _ | setChallengeWindow _ _ =>
    obtain ⟨_, hs, he⟩ := commit_some.mp h
    cases he
    simp only [configureTiers, setChallengeWindow, bind_ok, pure_ok] at hs
    obtain ⟨_, _, rfl⟩ := hs
    exact ⟨docket_keep rfl rfl, accounts_keep rfl rfl, fun _ => rfl⟩
  | setSubmitter _ _ _ =>
    obtain ⟨_, hs, he⟩ := commit_some.mp h
    cases he
    simp only [setSubmitter, bind_ok, pure_ok] at hs
    obtain ⟨_, _, _, _, rfl⟩ := hs
    exact ⟨docket_keep rfl rfl, accounts_keep rfl rfl, fun _ => rfl⟩
  | setBondContract _ _ =>
    obtain ⟨_, hs, he⟩ := commit_some.mp h
    cases he
    simp only [setBondContract, bind_ok, pure_ok] at hs
    obtain ⟨_, _, _, _, rfl⟩ := hs
    exact ⟨docket_keep rfl rfl, accounts_keep rfl rfl, nofun⟩
  | setStakedBalance _ _ _ =>
    obtain ⟨_, hs, he⟩ := commit_some.mp h
    cases he
    have ha := setStakedBalance_accounts hs
    simp only [setStakedBalance, bind_ok, pure_ok] at hs
    obtain ⟨_, _, _, _, rfl⟩ := hs
    exact ⟨docket_keep rfl rfl, ha, fun _ => rfl⟩
  | approveUnjail _ _ =>
    obtain ⟨_, hs, he⟩ := commit_some.mp h
    cases he
    have ha := approveUnjail_accounts hs
    simp only [approveUnjail, bind_ok, pure_ok] at hs
    obtain ⟨_, _, _, _, _, _, rfl⟩ := hs
    exact ⟨docket_keep rfl rfl, ha, fun _ => rfl⟩
  | unjail _ =>
    obtain ⟨_, hs, he⟩ := commit_some.mp h
    cases he
    have ha := unjail_accounts hs
    simp only [unjail, bind_ok, pure_ok] at hs
    obtain ⟨_, _, _, _, _, _, _, _, rfl⟩ := hs
    exact ⟨docket_keep rfl rfl, ha, fun _ => rfl⟩
  | slash _ _ _ _ _ =>
    obtain ⟨_, hs, he⟩ := commit_some.mp h
    cases he
    obtain ⟨_, _, hw⟩ := slash_ok hs
    exact ⟨docket_keep rfl (hw ▸ rfl), slash_accounts hs, fun _ => hw ▸ rfl⟩
  | submitEvidence _ _ _ _ =>
    obtain ⟨_, hs, he⟩ := commit_some.mp h
    cases he
    obtain ⟨_, _, _, _, _, _, _, _, hw⟩ := submitEvidence_ok hs
    exact ⟨submitEvidence_change hs, accounts_keep rfl (hw ▸ rfl), fun _ => hw ▸ rfl⟩
  | proposeSlash _ _ _ =>
    obtain ⟨_, hs, he⟩ := commit_some.mp h
    cases he
    obtain ⟨_, _, _, _, _, _, hw⟩ := proposeSlash_ok hs
    exact ⟨proposeSlash_change hs, accounts_keep rfl (hw ▸ rfl), fun _ => hw ▸ rfl⟩
  | revealEvidence _ _ _ _ =>
    obtain ⟨_, hs, he⟩ := commit_some.mp h
    cases he
    obtain ⟨ha, hb⟩ := revealEvidence_keeps hs
    exact ⟨revealEvidence_change hs, accounts_keep rfl ha, fun _ => hb⟩
  | finalizeSlash _ _ =>
    obtain ⟨_, hs, he⟩ := commit_some.mp h
    cases he
    exact ⟨finalizeSlash_change hs, finalizeSlash_accounts hs,
      fun _ => finalizeSlash_bondContract hs⟩
  | cancelSlash _ _ =>
    obtain ⟨_, hs, he⟩ := commit_some.mp h
    cases he
    obtain ⟨ha, hb⟩ := cancelSlash_keeps hs
    exact ⟨cancelSlash_change hs, accounts_keep rfl ha, fun _ => hb⟩
  | pause _ =>
    obtain ⟨_, hs, he⟩ := commit_some.mp h
    cases he
    simp only [pause, bind_ok, pure_ok] at hs
    obtain ⟨_, _, rfl⟩ := hs
    exact ⟨docket_keep rfl rfl, .pause, fun _ => rfl⟩
  | unpause _ =>
    obtain ⟨_, hs, he⟩ := commit_some.mp h
    cases he
    simp only [unpause, bind_ok, pure_ok] at hs
    obtain ⟨_, _, rfl⟩ := hs
    exact ⟨docket_keep rfl rfl, .unpause, fun _ => rfl⟩

def Call.recordsSlash : Call → Bool
  | .slash _ _ _ _ _ => true
  | _ => false

theorem invoke_history (h : invoke sha256 env s c = some (s', o)) (hc : c.recordsSlash = false) :
    getSlashHistory s' = getSlashHistory s := by
  have hx := (invoke_written h).accounts
  change (accounts s').history = (accounts s).history
  generalize accounts s' = a' at hx
  cases hx with
  | slash _ => cases hc
  | _ => rfl

end

end Shelterflex.SlashingModule
