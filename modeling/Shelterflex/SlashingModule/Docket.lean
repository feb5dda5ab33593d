import Shelterflex.SlashingModule.Model

namespace Shelterflex.SlashingModule
open Lib
set_option autoImplicit true

/-- The slashes on record, the commitments that cannot be submitted, and what was revealed. -/
@[ext] structure Docket where
  slashes : Nat → Option PendingSlash
  guarded : Bytes → Bool
  revealed : Nat → Bool
  last : Nat

def docket (s : State) : Docket where
  slashes := getPendingSlash s
  guarded := s.slashRecord.has
  revealed := isRevealed s
  last := lastSlashId s

/-- The commitment that a slash keeps from being submitted. -/
def PendingSlash.commitment (p : PendingSlash) : Option Bytes :=
  if p.isValidator then p.evidenceHash else none

theorem commitment_validator {p : PendingSlash} (hv : p.isValidator = true)
    (hh : p.evidenceHash = some c) : p.commitment = some c := by
  rw [PendingSlash.commitment, if_pos hv, hh]

theorem commitment_proposed {p : PendingSlash} (hv : p.isValidator = false) :
    p.commitment = none := by
  rw [PendingSlash.commitment, hv]
  rfl

namespace Docket

def put (id : Nat) (p : PendingSlash) (d : Docket) : Docket :=
  { d with slashes := Function.update d.slashes id (some p) }

def guard (commitment : Option Bytes) (b : Bool) (d : Docket) : Docket :=
  match commitment with
  | some c => { d with guarded := Function.update d.guarded c b }
  | none => d

def mark (id : Nat) (b : Bool) (d : Docket) : Docket :=
  { d with revealed := Function.update d.revealed id b }

@[simp] theorem put_slashes (d : Docket) (id : Nat) (p : PendingSlash) :
    (d.put id p).slashes = Function.update d.slashes id (some p) := rfl

@[simp] theorem guard_slashes (d : Docket) (c : Option Bytes) (b : Bool) :
    (d.guard c b).slashes = d.slashes := by
  cases c <;> rfl

@[simp] theorem guard_last (d : Docket) (c : Option Bytes) (b : Bool) :
    (d.guard c b).last = d.last := by
  cases c <;> rfl

@[simp] theorem mark_slashes (d : Docket) (id : Nat) (b : Bool) :
    (d.mark id b).slashes = d.slashes := rfl

theorem guard_guarded (d : Docket) (commitment : Option Bytes) (b : Bool) (c : Bytes) :
    (d.guard commitment b).guarded c = if commitment = some c then b else d.guarded c := by
  cases commitment with
  | none => rfl
  | some c' =>
    simp only [guard, Function.update_apply, Option.some.injEq, eq_comm]

/-- What a call at a time does to the docket. -/
inductive Change (sha256 : Bytes → BytesN 32) (now : Nat) (d : Docket) : Call → Docket → Prop where
  | keep : (∀ submitter slashId evidence salt,
      c = .revealEvidence submitter slashId evidence salt → d.revealed slashId = true) →
      Change sha256 now d c d
  | submit : d.guarded commitment = false → p.id = d.last + 1 → p.actor = actor →
      p.status = .pending → p.isValidator = true → p.evidenceHash = some commitment →
      Change sha256 now d (.submitEvidence submitter commitment actor offence)
        (({ d with last := d.last + 1 }.put (d.last + 1) p).guard (some commitment) true
          |>.mark (d.last + 1) false)
  | propose : p.id = d.last + 1 → p.actor = actor → p.status = .pending →
      p.isValidator = false → p.evidenceHash = none →
      Change sha256 now d (.proposeSlash submitter actor penaltyBps)
        ({ d with last := d.last + 1 }.put (d.last + 1) p)
  | reveal : d.slashes slashId = some p → p.status = .pending → d.revealed slashId = false →
      p.evidenceHash = some (hashCommitment sha256 evidence salt) →
      Change sha256 now d (.revealEvidence submitter slashId evidence salt) (d.mark slashId true)
  | finalize : d.slashes slashId = some p → p.status = .pending → p.deadline ≤ now →
      (p.isValidator = true → d.revealed slashId = true) →
      Change sha256 now d (.finalizeSlash caller slashId)
        ((d.put slashId { p with status := .finalized }).guard p.commitment true)
  | cancel : d.slashes slashId = some p → p.status = .pending →
      Change sha256 now d (.cancelSlash admin slashId)
        (((d.put slashId { p with status := .cancelled }).guard p.commitment false).mark slashId
          false)

/-- A slash that is not cancelled keeps its commitment. -/
def Live (d : Docket) (slashId : Nat) (c : Bytes) : Prop :=
  ∃ p, d.slashes slashId = some p ∧ p.commitment = some c ∧ p.status ≠ .cancelled

/-- What holds of every reachable docket. -/
structure Sound (d : Docket) : Prop where
  bounded : ∀ slashId p, d.slashes slashId = some p → slashId ≤ d.last
  committed : ∀ slashId p, d.slashes slashId = some p → p.commitment = p.evidenceHash
  guarded : ∀ slashId c, d.Live slashId c → d.guarded c = true
  single : ∀ slashId slashId' c, d.Live slashId c → d.Live slashId' c → slashId = slashId'

section
variable {d d' : Docket} {p : PendingSlash}

theorem live_put (h : (d.put slashId p).Live slashId' c) :
    (slashId' = slashId ∧ p.commitment = some c ∧ p.status ≠ .cancelled) ∨
      (slashId' ≠ slashId ∧ d.Live slashId' c) := by
  obtain ⟨q, hq, hc, hs⟩ := h
  by_cases he : slashId' = slashId
  · subst he
    rw [put_slashes, Function.update_self] at hq
    cases hq
    exact .inl ⟨rfl, hc, hs⟩
  · rw [put_slashes, Function.update_of_ne he] at hq
    exact .inr ⟨he, q, hq, hc, hs⟩

theorem slashes_put (h : (d.put slashId p).slashes slashId' = some q) :
    (slashId' = slashId ∧ q = p) ∨ (slashId' ≠ slashId ∧ d.slashes slashId' = some q) := by
  by_cases he : slashId' = slashId
  · subst he
    rw [put_slashes, Function.update_self] at h
    cases h
    exact .inl ⟨rfl, rfl⟩
  · rw [put_slashes, Function.update_of_ne he] at h
    exact .inr ⟨he, h⟩

theorem live_guard (h : (d.guard commitment b).Live slashId c) : d.Live slashId c := by
  rw [Live, guard_slashes] at h
  exact h

theorem live_finalized (hp : d.slashes slashId = some p) (hst : p.status = .pending)
    (h : (d.put slashId { p with status := .finalized }).Live i c) : d.Live i c := by
  rcases live_put h with ⟨rfl, hc, _⟩ | ⟨_, hl⟩
  · exact ⟨p, hp, hc, by rw [hst]; nofun⟩
  · exact hl

theorem live_cancelled (h : (d.put slashId { p with status := .cancelled }).Live i c) :
    i ≠ slashId ∧ d.Live i c := by
  rcases live_put h with ⟨_, _, hn⟩ | hl
  · exact absurd rfl hn
  · exact hl

/-- A new slash takes a commitment that nothing guards, or none. -/
theorem Sound.add (hs : d.Sound) (hp : p.commitment = p.evidenceHash)
    (hg : ∀ c, p.commitment = some c → d.guarded c = false) :
    ({ d with last := d.last + 1 }.put (d.last + 1) p |>.guard p.commitment true).Sound where
  bounded slashId q h := by
    rw [guard_slashes] at h
    rw [guard_last]
    rcases slashes_put h with ⟨rfl, _⟩ | ⟨_, h⟩
    · exact le_rfl
    · exact (hs.bounded slashId q h).trans (Nat.le_succ _)
  committed slashId q h := by
    rw [guard_slashes] at h
    rcases slashes_put h with ⟨_, rfl⟩ | ⟨_, h⟩
    · exact hp
    · exact hs.committed slashId q h
  guarded slashId c h := by
    rw [guard_guarded]
    rcases live_put (live_guard h) with ⟨_, hc, _⟩ | ⟨_, hl⟩
    · exact if_pos hc
    · split
      · rfl
      · exact hs.guarded slashId c hl
  single slashId slashId' c h h' := by
    have hold (i) (hc : p.commitment = some c) (hl : d.Live i c) : False := by
      have ht := hs.guarded i c hl
      rw [hg c hc] at ht
      cases ht
    rcases live_put (live_guard h) with ⟨he, hc, _⟩ | ⟨_, hl⟩
    · rcases live_put (live_guard h') with ⟨he', _⟩ | ⟨_, hl'⟩
      · exact he.trans he'.symm
      · exact (hold _ hc hl').elim
    · rcases live_put (live_guard h') with ⟨_, hc', _⟩ | ⟨_, hl'⟩
      · exact (hold _ hc' hl).elim
      · exact hs.single _ _ c hl hl'

theorem Sound.resolved (hs : d.Sound) (hp : d.slashes slashId = some p)
    (h : ((d.put slashId { p with status := status }).guard c b).slashes i = some q) :
    i ≤ d.last ∧ q.commitment = q.evidenceHash := by
  rw [guard_slashes] at h
  rcases slashes_put h with ⟨rfl, rfl⟩ | ⟨_, h⟩
  · exact ⟨hs.bounded _ p hp, hs.committed _ p hp⟩
  · exact ⟨hs.bounded i q h, hs.committed i q h⟩

theorem Sound.finalize (hs : d.Sound) (hp : d.slashes slashId = some p)
    (hst : p.status = .pending) :
    ((d.put slashId { p with status := .finalized }).guard p.commitment true).Sound where
  bounded i q h := by
    rw [guard_last]
    exact (hs.resolved hp h).1
  committed i q h := (hs.resolved hp h).2
  guarded i c h := by
    rw [guard_guarded]
    split
    · rfl
    · exact hs.guarded i c (live_finalized hp hst (live_guard h))
  single i i' c h h' :=
    hs.single i i' c (live_finalized hp hst (live_guard h)) (live_finalized hp hst (live_guard h'))

theorem Sound.cancel (hs : d.Sound) (hp : d.slashes slashId = some p)
    (hst : p.status = .pending) :
    ((d.put slashId { p with status := .cancelled }).guard p.commitment false).Sound where
  bounded i q h := by
    rw [guard_last]
    exact (hs.resolved hp h).1
  committed i q h := (hs.resolved hp h).2
  guarded i c h := by
    obtain ⟨hne, hl⟩ := live_cancelled (live_guard h)
    rw [guard_guarded, if_neg]
    · exact hs.guarded i c hl
    · intro hc
      exact hne (hs.single i slashId c hl ⟨p, hp, hc, by rw [hst]; nofun⟩)
  single i i' c h h' :=
    hs.single i i' c (live_cancelled (live_guard h)).2 (live_cancelled (live_guard h')).2

theorem Change.sound (h : Change sha256 now d c d') (hs : d.Sound) : d'.Sound := by
  cases h with
  | keep => exact hs
  | submit hg _ _ _ hv hh =>
    have hc := commitment_validator hv hh
    have ha := hs.add (hc.trans hh.symm) fun c h => by
      cases hc.symm.trans h
      exact hg
    rw [hc] at ha
    exact ⟨ha.bounded, ha.committed, ha.guarded, ha.single⟩
  | propose _ _ _ hv hh =>
    have hc := commitment_proposed hv
    have ha := hs.add (hc.trans hh.symm) fun c h => by cases hc.symm.trans h
    rw [hc] at ha
    exact ha
  | reveal => exact ⟨hs.bounded, hs.committed, hs.guarded, hs.single⟩
  | finalize hp hst => exact hs.finalize hp hst
  | cancel hp hst =>
    have hc := hs.cancel hp hst
    exact ⟨hc.bounded, hc.committed, hc.guarded, hc.single⟩

/-- A slash stays on record, and its status is settled once. -/
theorem Change.kept (h : Change sha256 now d c d') (hs : d.Sound)
    (hq : d.slashes slashId = some q) :
    ∃ status, d'.slashes slashId = some { q with status := status } ∧
      (q.status ≠ .pending → status = q.status) := by
  have hsame : ∃ status, d.slashes slashId = some { q with status := status } ∧
      (q.status ≠ .pending → status = q.status) := ⟨q.status, hq, fun _ => rfl⟩
  have hnew (p) : ∃ status,
      (Function.update d.slashes (d.last + 1) (some p)) slashId =
          some { q with status := status } ∧ (q.status ≠ .pending → status = q.status) := by
    have hle := hs.bounded slashId q hq
    rw [Function.update_of_ne (Nat.lt_succ_of_le hle).ne]
    exact hsame
  have hset (i p) (status : SlashStatus) (hp : d.slashes i = some p) (hst : p.status = .pending) :
      ∃ status', (Function.update d.slashes i (some { p with status := status })) slashId =
          some { q with status := status' } ∧ (q.status ≠ .pending → status' = q.status) := by
    by_cases he : slashId = i
    · subst he
      cases hp.symm.trans hq
      rw [Function.update_self]
      exact ⟨status, rfl, fun hn => absurd hst hn⟩
    · rw [Function.update_of_ne he]
      exact hsame
  cases h with
  | keep => exact hsame
  | submit => exact hnew _
  | propose => exact hnew _
  | reveal => exact hsame
  | finalize hp hst =>
    rw [guard_slashes]
    exact hset _ _ _ hp hst
  | cancel hp hst =>
    rw [mark_slashes, guard_slashes]
    exact hset _ _ _ hp hst

end

end Docket

theorem nextSlashId_ok (h : nextSlashId s = .ok (slashId, s')) :
    slashId = lastSlashId s + 1 ∧ s' = { s with nextSlashId := some (lastSlashId s + 1) } := by
  simp only [nextSlashId, bind_ok, u64Add_ok, pure_ok, Prod.mk.injEq] at h
  obtain ⟨_, ⟨_, rfl⟩, rfl, rfl⟩ := h
  exact ⟨rfl, rfl⟩

theorem reduceBalance_ok (h : reduceBalance actor n s = .ok (s', m)) :
    m = min n (getStakedBalance s actor) ∧ s' = { s with
      stakedBalance := s.stakedBalance.set actor (getStakedBalance s actor - m)
      slashedAmount := s.slashedAmount.set actor (totalSlashed s actor + m) } := by
  simp only [reduceBalance, bind_ok, i128Sub_ok, i128Add_ok, pure_ok, Prod.mk.injEq] at h
  obtain ⟨_, ⟨_, rfl⟩, _, ⟨_, rfl⟩, rfl, rfl⟩ := h
  exact ⟨rfl, rfl⟩

theorem docket_putPendingSlash (s : State) (p : PendingSlash) (slashId : Nat) :
    docket (putPendingSlash p slashId s) = (docket s).put slashId p :=
  Docket.ext (s.pendingSlash.get_set_update slashId p) rfl rfl rfl

theorem docket_putSlashRecord (s : State) (hash : Option Bytes) (record : SlashEvidence) :
    docket (putSlashRecord hash record s) = (docket s).guard hash true := by
  cases hash with
  | none => rfl
  | some hash => exact Docket.ext rfl (s.slashRecord.has_set_update hash record) rfl rfl

theorem docket_removeSlashRecord (s : State) (hash : Option Bytes) :
    docket (removeSlashRecord hash s) = (docket s).guard hash false := by
  cases hash with
  | none => rfl
  | some hash => exact Docket.ext rfl (s.slashRecord.has_remove_update hash) rfl rfl

section
variable {env : Env own} {s s' : State}

theorem submitEvidence_ok
    (h : submitEvidence env submitter commitment actor offence s = .ok (s', slashId)) :
    s.slashRecord.has commitment = false ∧ ∃ p record, p.id = lastSlashId s + 1 ∧
      p.actor = actor ∧ p.status = .pending ∧ p.isValidator = true ∧
      p.evidenceHash = some commitment ∧ s' = { s with
        nextSlashId := some (lastSlashId s + 1)
        pendingSlash := s.pendingSlash.set (lastSlashId s + 1) p
        slashRecord := s.slashRecord.set commitment record
        commitmentRevealed := s.commitmentRevealed.set (lastSlashId s + 1) false } := by
  simp only [submitEvidence, bind_ok, require_ok, pure_ok, Prod.mk.injEq] at h
  obtain ⟨_, _, _, hd, _, _, _, _, _, _, amount, _, ⟨i, s₁⟩, hn, deadline, _, rfl, rfl⟩ := h
  obtain ⟨rfl, rfl⟩ := nextSlashId_ok hn
  refine ⟨hd, _, _, ?_, ?_, ?_, ?_, ?_, rfl⟩ <;> rfl

theorem submitEvidence_change
    (h : submitEvidence env submitter commitment actor offence s = .ok (s', slashId)) :
    (docket s).Change sha256 env.timestamp (.submitEvidence submitter commitment actor offence)
      (docket s') := by
  obtain ⟨hd, p, record, hid, ha, hp, hv, hh, he⟩ := submitEvidence_ok h
  have hg : (docket s).guarded commitment = false := hd
  have hs : docket s' = (({ docket s with last := (docket s).last + 1 }.put
      ((docket s).last + 1) p).guard (some commitment) true).mark ((docket s).last + 1) false := by
    rw [he]
    exact Docket.ext (Store.get_set_update _ _ _) (Store.has_set_update _ _ _)
      (Store.getD_set_update _ _ _ _) rfl
  rw [hs]
  exact .submit hg hid ha hp hv hh

theorem proposeSlash_ok (h : proposeSlash env submitter actor penaltyBps s = .ok (s', slashId)) :
    ∃ p, p.id = lastSlashId s + 1 ∧ p.actor = actor ∧ p.status = .pending ∧
      p.isValidator = false ∧ p.evidenceHash = none ∧ s' = { s with
        nextSlashId := some (lastSlashId s + 1)
        pendingSlash := s.pendingSlash.set (lastSlashId s + 1) p } := by
  simp only [proposeSlash, bind_ok, require_ok, pure_ok, Prod.mk.injEq] at h
  obtain ⟨_, _, _, _, amount, _, _, _, ⟨i, s₁⟩, hn, deadline, _, rfl, rfl⟩ := h
  obtain ⟨rfl, rfl⟩ := nextSlashId_ok hn
  refine ⟨_, ?_, ?_, ?_, ?_, ?_, rfl⟩ <;> rfl

theorem proposeSlash_change
    (h : proposeSlash env submitter actor penaltyBps s = .ok (s', slashId)) :
    (docket s).Change sha256 env.timestamp (.proposeSlash submitter actor penaltyBps)
      (docket s') := by
  obtain ⟨p, hid, ha, hp, hv, hh, he⟩ := proposeSlash_ok h
  have hs : docket s' = { docket s with last := (docket s).last + 1 }.put
      ((docket s).last + 1) p := by
    rw [he]
    exact Docket.ext (Store.get_set_update _ _ _) rfl rfl rfl
  rw [hs]
  exact .propose hid ha hp hv hh

theorem hashCommitment_ne_nil : hashCommitment sha256 evidence salt ≠ [] := by
  intro h
  have hl : (hashCommitment sha256 evidence salt).length = 32 := Vector.length_toList
  rw [h] at hl
  cases hl

theorem revealEvidence_change
    (h : revealEvidence env sha256 submitter slashId evidence salt s = .ok s') :
    (docket s).Change sha256 env.timestamp (.revealEvidence submitter slashId evidence salt)
      (docket s') := by
  simp only [revealEvidence, bind_ok, okOr_ok, require_ok] at h
  obtain ⟨_, _, p, hp, _, hst, h⟩ := h
  by_cases hr : isRevealed s slashId = true
  · rw [if_pos hr] at h
    cases pure_ok.mp h
    apply Docket.Change.keep
    rintro _ _ _ _ ⟨⟩
    exact hr
  · rw [if_neg hr] at h
    simp only [bind_ok, require_ok, pure_ok] at h
    obtain ⟨_, hh, he⟩ := h
    have hs : docket s' = (docket s).mark slashId true := by
      rw [← he]
      exact Docket.ext rfl rfl (Store.getD_set_update _ _ _ _) rfl
    have hc : p.evidenceHash = some (hashCommitment sha256 evidence salt) := by
      cases hx : p.evidenceHash with
      | none =>
        rw [hx] at hh
        exact absurd hh hashCommitment_ne_nil
      | some c =>
        rw [hx] at hh
        exact congrArg some hh.symm
    rw [hs]
    exact .reveal hp hst (Bool.eq_false_iff.mpr hr) hc

theorem applyValidatorSlash_docket (h : applyValidatorSlash env caller p s = .ok s') :
    docket s' = (docket s).guard p.evidenceHash true := by
  simp only [applyValidatorSlash, bind_ok, pure_ok] at h
  obtain ⟨⟨s₁, n⟩, hr, count, _, he⟩ := h
  obtain ⟨_, rfl⟩ := reduceBalance_ok hr
  rw [← he]
  exact docket_putSlashRecord _ _ _

theorem applyProposedSlash_ok (h : applyProposedSlash p s = .ok s') : s' = { s with
    stakedBalance := s'.stakedBalance
    slashedAmount := s'.slashedAmount } := by
  unfold applyProposedSlash at h
  split at h
  · simp only [bind_ok, pure_ok] at h
    obtain ⟨⟨s₁, n⟩, hr, rfl⟩ := h
    obtain ⟨_, rfl⟩ := reduceBalance_ok hr
    rfl
  · cases pure_ok.mp h
    rfl

theorem applyProposedSlash_docket (h : applyProposedSlash p s = .ok s') :
    docket s' = docket s := by
  rw [applyProposedSlash_ok h]
  rfl

theorem finalizeSlash_docket (h : finalizeSlash env caller slashId s = .ok s') :
    ∃ p, getPendingSlash s slashId = some p ∧ p.status = .pending ∧
      p.deadline ≤ env.timestamp ∧ (p.isValidator = true → isRevealed s slashId = true) ∧
      docket s' =
        ((docket s).put slashId { p with status := .finalized }).guard p.commitment true := by
  simp only [finalizeSlash, bind_ok, okOr_ok, require_ok] at h
  obtain ⟨_, _, p, hp, _, hst, _, hdl, _, hr, h⟩ := h
  refine ⟨p, hp, hst, hdl, fun hv => hr.resolve_left (by rw [hv]; exact Bool.noConfusion), ?_⟩
  cases hv : p.isValidator with
  | true =>
    simp only [hv, if_true] at h
    rw [applyValidatorSlash_docket h, docket_putPendingSlash, PendingSlash.commitment, if_pos hv]
  | false =>
    simp only [hv, Bool.false_eq_true, if_false] at h
    rw [applyProposedSlash_docket h, docket_putPendingSlash, PendingSlash.commitment, hv]
    rfl

theorem finalizeSlash_change (h : finalizeSlash env caller slashId s = .ok s') :
    (docket s).Change sha256 env.timestamp (.finalizeSlash caller slashId) (docket s') := by
  obtain ⟨p, hp, hst, hdl, hr, hs⟩ := finalizeSlash_docket h
  rw [hs]
  exact .finalize hp hst hdl hr

theorem cancelSlash_change (h : cancelSlash env admin slashId s = .ok s') :
    (docket s).Change sha256 env.timestamp (.cancelSlash admin slashId) (docket s') := by
  simp only [cancelSlash, bind_ok, okOr_ok, require_ok, pure_ok] at h
  obtain ⟨_, _, p, hp, _, hst, he⟩ := h
  have hs : docket s' = (((docket s).put slashId { p with status := .cancelled }).guard
      p.commitment false).mark slashId false := by
    have hr (s₁ : State) : docket { s₁ with
        commitmentRevealed := s₁.commitmentRevealed.remove slashId } =
          (docket s₁).mark slashId false :=
      Docket.ext rfl rfl (Store.getD_remove_update _ _ _) rfl
    rw [← he, hr, ← docket_putPendingSlash]
    cases hv : p.isValidator with
    | true => rw [if_pos rfl, docket_removeSlashRecord, PendingSlash.commitment, if_pos hv]
    | false => rw [PendingSlash.commitment, hv]; rfl
  rw [hs]
  exact .cancel hp hst

end

end Shelterflex.SlashingModule
