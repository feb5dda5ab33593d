import Shelterflex.SlashingModule.Evidence

namespace Shelterflex.SlashingModule
open Lib
set_option autoImplicit true

abbrev History (own : Address) := List (Event State (Env own × Call) Output)

/-- The amount of a slash: the penalty's part of the balance, at most all of it. -/
def fixedAmount (balance : Int) (penaltyBps : Nat) : Int :=
  min ((balance * penaltyBps).tdiv maxBps) balance

theorem proportionalSlash_ok (h : proportionalSlash balance penaltyBps = .ok n) :
    n = fixedAmount balance penaltyBps := by
  simp only [proportionalSlash, bind_ok, i128Mul_ok, i128Div_ok, pure_ok] at h
  obtain ⟨_, ⟨_, rfl⟩, _, ⟨_, _, rfl⟩, rfl⟩ := h
  rfl

/-- The record that a call files, if it commits. -/
def filed (env : Env own) (s : State) : Call → Option PendingSlash
  | .submitEvidence submitter commitment actor offence =>
    let penaltyBps := min (getTierBps s offence) (getMaxSlashBps s)
    some {
      id := lastSlashId s + 1, actor
      amount := fixedAmount (getStakedBalance s actor) penaltyBps
      deadline := env.timestamp + getChallengeWindow s, status := .pending, isValidator := true
      evidenceHash := some commitment, offence, submitter := some submitter, penaltyBps
      inspectionId := none, reason := none }
  | .proposeSlash submitter actor penaltyBps =>
    let effectiveBps := min penaltyBps (getMaxSlashBps s)
    some {
      id := lastSlashId s + 1, actor
      amount := fixedAmount (getStakedBalance s actor) effectiveBps
      deadline := env.timestamp + getChallengeWindow s, status := .pending, isValidator := false
      evidenceHash := none, offence := .none, submitter := some submitter
      penaltyBps := effectiveBps, inspectionId := none, reason := none }
  | _ => none

def created (e : Event State (Env own × Call) Output) : Option PendingSlash :=
  filed e.input.1 e.pre e.input.2

theorem filed_id (h : filed env s c = some p) :
    p.id = lastSlashId s + 1 ∧ p.status = .pending := by
  cases c with
  | submitEvidence _ _ _ _ | proposeSlash _ _ _ =>
    cases h
    exact ⟨rfl, rfl⟩
  | _ => cases h

/-- The record of a slash as it was filed. -/
def PendingSlash.asFiled (p : PendingSlash) : PendingSlash := { p with status := .pending }

/-- The slash of an id, as it was filed. -/
def onFile (d : Docket) (slashId : Nat) : Option PendingSlash :=
  (d.slashes slashId).map PendingSlash.asFiled

section
variable {own : Address} {env : Env own} {s s' : State}

theorem submitEvidence_filed
    (h : submitEvidence env submitter commitment actor offence s = .ok (s', slashId))
    (hf : filed env s (.submitEvidence submitter commitment actor offence) = some p) :
    getPendingSlash s' = Function.update (getPendingSlash s) p.id (some p) := by
  simp only [submitEvidence, bind_ok, pure_ok, Prod.mk.injEq, u64Add_ok] at h
  obtain ⟨_, _, _, _, _, _, _, _, _, _, amount, ha, ⟨i, s₁⟩, hn, deadline, ⟨_, rfl⟩, hs, rfl⟩ := h
  obtain ⟨rfl, rfl⟩ := nextSlashId_ok hn
  cases proportionalSlash_ok ha
  cases hf
  rw [← hs]
  exact Store.get_set_update _ _ _

theorem proposeSlash_filed (h : proposeSlash env submitter actor penaltyBps s = .ok (s', slashId))
    (hf : filed env s (.proposeSlash submitter actor penaltyBps) = some p) :
    getPendingSlash s' = Function.update (getPendingSlash s) p.id (some p) ∧ 0 < p.amount := by
  simp only [proposeSlash, bind_ok, require_ok, pure_ok, Prod.mk.injEq, u64Add_ok] at h
  obtain ⟨_, _, _, _, amount, ha, _, hpos, ⟨i, s₁⟩, hn, deadline, ⟨_, rfl⟩, hs, rfl⟩ := h
  obtain ⟨rfl, rfl⟩ := nextSlashId_ok hn
  cases proportionalSlash_ok ha
  cases hf
  rw [← hs]
  exact ⟨Store.get_set_update _ _ _, hpos⟩

theorem invoke_filed (h : invoke sha256 env s c = some (s', o)) (hf : filed env s c = some p) :
    getPendingSlash s' = Function.update (getPendingSlash s) p.id (some p) ∧
      (p.isValidator = false → 0 < p.amount) := by
  cases c with
  | submitEvidence _ _ _ _ =>
    obtain ⟨_, hs, he⟩ := commit_some.mp h
    cases he
    refine ⟨submitEvidence_filed hs hf, fun hv => ?_⟩
    cases hf
    cases hv
  | proposeSlash _ _ _ =>
    obtain ⟨_, hs, he⟩ := commit_some.mp h
    cases he
    obtain ⟨hp, hpos⟩ := proposeSlash_filed hs hf
    exact ⟨hp, fun _ => hpos⟩
  | _ => cases hf

theorem Docket.Change.onFile {d d' : Docket} (h : d.Change sha256 env.timestamp c d')
    (hf : filed env s c = none) : onFile d' = onFile d := by
  have hput (i p) (status : SlashStatus) (hp : d.slashes i = some p) :
      SlashingModule.onFile (d.put i { p with status := status }) = SlashingModule.onFile d := by
    funext slashId
    rw [SlashingModule.onFile, put_slashes, Function.update_apply]
    split <;> rename_i he
    · rw [he, SlashingModule.onFile, hp]
      rfl
    · rfl
  cases h with
  | keep => rfl
  | submit | propose => cases hf
  | reveal => rfl
  | finalize hp =>
    funext slashId
    rw [SlashingModule.onFile, guard_slashes]
    exact congrFun (hput _ _ _ hp) slashId
  | cancel hp =>
    funext slashId
    rw [SlashingModule.onFile, mark_slashes, guard_slashes]
    exact congrFun (hput _ _ _ hp) slashId

theorem Docket.guard_revealed (d : Docket) (c : Option Bytes) (b : Bool) :
    (d.guard c b).revealed = d.revealed := by
  cases c <;> rfl

theorem Docket.Change.revealed {d d' : Docket} (h : d.Change sha256 now c d')
    (hr : d'.revealed slashId = true) : d.revealed slashId = true ∨
      ∃ p submitter evidence salt, c = .revealEvidence submitter slashId evidence salt ∧
        d.slashes slashId = some p ∧
        p.evidenceHash = some (hashCommitment sha256 evidence salt) := by
  have hmark (d : Docket) (i : Nat) (hm : (d.mark i false).revealed slashId = true) :
      d.revealed slashId = true := by
    simp only [mark, Function.update_apply] at hm
    split at hm
    · cases hm
    · exact hm
  cases h with
  | keep => exact .inl hr
  | submit =>
    have hd := hmark _ _ hr
    rw [guard_revealed] at hd
    exact .inl hd
  | propose => exact .inl hr
  | @reveal i p evidence salt submitter hp _ _ hh =>
    by_cases he : slashId = i
    · subst he
      exact .inr ⟨p, submitter, evidence, salt, rfl, hp, hh⟩
    · simp only [mark, Function.update_of_ne he] at hr
      exact .inl hr
  | finalize =>
    rw [guard_revealed] at hr
    exact .inl hr
  | cancel =>
    have hd := hmark _ _ hr
    rw [guard_revealed] at hd
    exact .inl hd

end

/-- What the history of a run says about the slashes on record. -/
structure Filed (sha256 : Bytes → BytesN 32) (t : History own) (s : State) : Prop where
  sound : (docket s).Sound
  agree : ∀ slashId p, onFile (docket s) slashId = some p ↔
    p ∈ t.filterMap created ∧ p.id = slashId
  distinct : ((t.filterMap created).map PendingSlash.id).Nodup
  positive : ∀ p ∈ t.filterMap created, p.isValidator = false → 0 < p.amount
  revealed : ∀ slashId, isRevealed s slashId = true →
    ∃ p, onFile (docket s) slashId = some p ∧ ∃ e ∈ t, ∃ submitter evidence salt,
      e.input.2 = .revealEvidence submitter slashId evidence salt ∧
        p.evidenceHash = some (hashCommitment sha256 evidence salt)

section
variable {own : Address} {t : History own} {env : Env own} {s s' : State}

theorem onFile_eq (h : getPendingSlash s slashId = some p) :
    onFile (docket s) slashId = some p.asFiled := congrArg (Option.map PendingSlash.asFiled) h

theorem Filed.le_last (h : Filed sha256 t s) (hp : p ∈ t.filterMap created) :
    p.id ≤ lastSlashId s := by
  obtain ⟨q, hq, _⟩ := Option.map_eq_some_iff.mp ((h.agree p.id p).mpr ⟨hp, rfl⟩)
  exact h.sound.bounded p.id q hq

theorem Filed.step_none (h : Filed sha256 t s) (hs : invoke sha256 env s c = some (s', o))
    (hf : filed env s c = none) : Filed sha256 (⟨s, (env, c), o, s'⟩ :: t) s' := by
  have hc := (invoke_written hs).docket
  have hr := hc.onFile hf
  have ht : (⟨s, (env, c), o, s'⟩ :: t).filterMap created = t.filterMap created :=
    List.filterMap_cons_none hf
  refine ⟨hc.sound h.sound, ?_, ht ▸ h.distinct, ht ▸ h.positive, fun slashId hx => ?_⟩
  · rw [hr, ht]
    exact h.agree
  · rw [hr]
    rcases hc.revealed hx with hx | ⟨p, submitter, evidence, salt, rfl, hp, hh⟩
    · obtain ⟨p, hp, e, he, hx⟩ := h.revealed slashId hx
      exact ⟨p, hp, e, List.mem_cons_of_mem _ he, hx⟩
    · exact ⟨p.asFiled, onFile_eq hp, _, List.mem_cons_self, submitter, evidence, salt, rfl, hh⟩

theorem Filed.step_some (h : Filed sha256 t s) (hs : invoke sha256 env s c = some (s', o))
    (hf : filed env s c = some p) : Filed sha256 (⟨s, (env, c), o, s'⟩ :: t) s' := by
  have hc := (invoke_written hs).docket
  obtain ⟨hid, hst⟩ := filed_id hf
  obtain ⟨hp, hpos⟩ := invoke_filed hs hf
  have hlast {q} (hq : q ∈ t.filterMap created) : q.id ≠ p.id := by
    have hle := h.le_last hq
    omega
  have hself : p.asFiled = p := by
    rw [PendingSlash.asFiled, ← hst]
  have hr : onFile (docket s') = Function.update (onFile (docket s)) p.id (some p) := by
    funext slashId
    have hx : (docket s').slashes slashId =
        Function.update (getPendingSlash s) p.id (some p) slashId := congrFun hp slashId
    rw [onFile, hx, Function.update_apply, Function.update_apply]
    split
    · exact congrArg some hself
    · rfl
  have ht : (⟨s, (env, c), o, s'⟩ :: t).filterMap created = p :: t.filterMap created :=
    List.filterMap_cons_some hf
  refine ⟨hc.sound h.sound, fun slashId q => ?_, ?_, ?_, fun slashId hx => ?_⟩
  · rw [hr, ht, Function.update_apply, List.mem_cons]
    split <;> rename_i he
    · subst he
      constructor
      · rintro ⟨⟩
        exact ⟨.inl rfl, rfl⟩
      · rintro ⟨rfl | hq, hi⟩
        · rfl
        · exact absurd hi (hlast hq)
    · rw [h.agree]
      constructor
      · rintro ⟨hq, hi⟩
        exact ⟨.inr hq, hi⟩
      · rintro ⟨rfl | hq, hi⟩
        · exact absurd hi.symm he
        · exact ⟨hq, hi⟩
  · rw [ht, List.map_cons, List.nodup_cons]
    refine ⟨fun hm => ?_, h.distinct⟩
    obtain ⟨q, hq, hi⟩ := List.mem_map.mp hm
    exact hlast hq hi
  · rw [ht]
    exact List.forall_mem_cons.mpr ⟨hpos, h.positive⟩
  · rcases hc.revealed hx with hx | ⟨_, _, _, _, rfl, _⟩
    · obtain ⟨q, hq, e, he, hx⟩ := h.revealed slashId hx
      have hne : slashId ≠ p.id := by
        obtain ⟨hm, hi⟩ := (h.agree slashId q).mp hq
        exact hi ▸ hlast hm
      refine ⟨q, ?_, e, List.mem_cons_of_mem _ he, hx⟩
      rw [hr, Function.update_of_ne hne]
      exact hq
    · cases hf

end

theorem run_filed (h : (machine sha256 own).Run (initialized admin) t s) : Filed sha256 t s := by
  refine h.invariant (P := Filed sha256) ⟨initialized_sound admin, ?_, List.nodup_nil,
    List.forall_mem_nil _, nofun⟩ ?_
  · exact fun slashId p => iff_of_false nofun fun hp => List.not_mem_nil hp.1
  · rintro t s ⟨env, c⟩ s' o ih hs
    cases hf : filed env s c with
    | none => exact ih.step_none hs hf
    | some p => exact ih.step_some hs hf

/-- A slash was submitted with a commitment. -/
def SubmittedFor (t : History own) (slashId : Nat) (commitment : Bytes) : Prop :=
  ∃ e ∈ t, ∃ submitter actor offence p,
    e.input.2 = .submitEvidence submitter commitment actor offence ∧ created e = some p ∧
      p.id = slashId

/-- The commitment of a slash was opened. -/
def RevealedFor (sha256 : Bytes → BytesN 32) (t : History own) (slashId : Nat)
    (commitment : Bytes) : Prop :=
  ∃ e ∈ t, ∃ submitter evidence salt,
    e.input.2 = .revealEvidence submitter slashId evidence salt ∧
      hashCommitment sha256 evidence salt = commitment

/-- What a committed call can do to one slash, after the given history. -/
inductive Advances (sha256 : Bytes → BytesN 32) (earlier : History own)
    (e : Event State (Env own × Call) Output) (slashId : Nat) : Prop where
  | keep (hp : getPendingSlash e.post slashId = getPendingSlash e.pre slashId)
  | create (hc : created e = some p) (hi : p.id = slashId) (hst : p.status = .pending)
      (hp : getPendingSlash e.pre slashId = none) (hp' : getPendingSlash e.post slashId = some p)
  | finalize (hc : e.input.2 = .finalizeSlash caller slashId)
      (hp : getPendingSlash e.pre slashId = some p) (hst : p.status = .pending)
      (hd : p.deadline ≤ e.input.1.timestamp)
      (hr : ∀ commitment, SubmittedFor earlier slashId commitment →
        RevealedFor sha256 earlier slashId commitment)
      (hp' : getPendingSlash e.post slashId = some { p with status := .finalized })
  | cancel (hc : e.input.2 = .cancelSlash admin slashId)
      (hp : getPendingSlash e.pre slashId = some p) (hst : p.status = .pending)
      (hp' : getPendingSlash e.post slashId = some { p with status := .cancelled })

section
variable {own : Address} {t : History own} {env : Env own} {s s' : State}

/-- What was submitted with a commitment was revealed with it, if it was revealed. -/
theorem Filed.revealedFor (h : Filed sha256 t s) (hp : getPendingSlash s slashId = some p)
    (hr : p.isValidator = true → isRevealed s slashId = true)
    (hs : SubmittedFor t slashId commitment) : RevealedFor sha256 t slashId commitment := by
  obtain ⟨e, he, submitter, actor, offence, q, hc, hq, hi⟩ := hs
  have hm : q ∈ t.filterMap created := List.mem_filterMap.mpr ⟨e, he, hq⟩
  have hqp : q = p.asFiled :=
    Option.some.inj (((h.agree slashId q).mpr ⟨hm, hi⟩).symm.trans (onFile_eq hp))
  have hx : filed e.input.1 e.pre (.submitEvidence submitter commitment actor offence) = some q :=
    hc ▸ hq
  have hv : q.isValidator = true ∧ q.evidenceHash = some commitment := by
    cases hx
    exact ⟨rfl, rfl⟩
  have hpv : p.isValidator = true := by
    rw [hqp] at hv
    exact hv.1
  obtain ⟨q', hq', e', he', submitter', evidence, salt, hc', hh⟩ := h.revealed slashId (hr hpv)
  cases Option.some.inj (hq'.symm.trans ((h.agree slashId q).mpr ⟨hm, hi⟩))
  exact ⟨e', he', submitter', evidence, salt, hc', Option.some.inj (hh.symm.trans hv.2)⟩

theorem Filed.create (h : Filed sha256 t s) (hs : invoke sha256 env s c = some (s', o))
    (hf : filed env s c = some p) (slashId : Nat) :
    Advances sha256 t ⟨s, (env, c), o, s'⟩ slashId := by
  obtain ⟨hid, hst⟩ := filed_id hf
  obtain ⟨hp, _⟩ := invoke_filed hs hf
  have hx := congrFun hp slashId
  by_cases hi : slashId = p.id
  · subst hi
    rw [Function.update_self] at hx
    refine .create hf rfl hst ?_ hx
    cases hq : getPendingSlash s p.id with
    | none => rfl
    | some q =>
      have hle : p.id ≤ lastSlashId s := h.sound.bounded p.id q hq
      omega
  · rw [Function.update_of_ne hi] at hx
    exact .keep hx

theorem Filed.advances (h : Filed sha256 t s) (hs : invoke sha256 env s c = some (s', o))
    (slashId : Nat) : Advances sha256 t ⟨s, (env, c), o, s'⟩ slashId := by
  have hc := (invoke_written hs).docket
  have hd : getPendingSlash s' = (docket s').slashes := rfl
  generalize docket s' = d' at hc hd
  cases hc with
  | keep => exact .keep (congrFun hd slashId)
  | submit => exact h.create hs rfl slashId
  | propose => exact h.create hs rfl slashId
  | reveal => exact .keep (congrFun hd slashId)
  | @finalize i p caller hp hst hdl hr =>
    have hx := congrFun hd slashId
    rw [Docket.guard_slashes, Docket.put_slashes] at hx
    by_cases he : slashId = i
    · subst he
      rw [Function.update_self] at hx
      exact .finalize rfl hp hst hdl (fun _ => h.revealedFor hp hr) hx
    · rw [Function.update_of_ne he] at hx
      exact .keep hx
  | @cancel i p admin hp hst =>
    have hx := congrFun hd slashId
    rw [Docket.mark_slashes, Docket.guard_slashes, Docket.put_slashes] at hx
    by_cases he : slashId = i
    · subst he
      rw [Function.update_self] at hx
      exact .cancel rfl hp hst hx
    · rw [Function.update_of_ne he] at hx
      exact .keep hx

end

/-- A slash that is settled stays as it is. -/
theorem run_settled (h : (machine sha256 own).Run (initialized admin) t s) :
    ∀ e ∈ t, ∀ slashId p, getPendingSlash e.post slashId = some p → p.status ≠ .pending →
      getPendingSlash s slashId = some p := by
  induction h with
  | start => exact List.forall_mem_nil _
  | @commit t s i s' o hr hs ih =>
    refine List.forall_mem_cons.mpr ⟨fun _ _ hp _ => hp, fun e he slashId p hp hst => ?_⟩
    have hi : invoke sha256 i.1 s i.2 = some (s', o) := hs
    have hc := (invoke_written hi).docket
    obtain ⟨status, hp', hk⟩ := hc.kept (run_filed hr).sound (ih e he slashId p hp hst)
    rw [hk hst] at hp'
    exact hp'
  | rollback _ _ ih => exact ih

/-- The two phases of every slash in a run. -/
structure Lifecycle (sha256 : Bytes → BytesN 32) (t : History own) (s : State) : Prop where
  ids : ((t.filterMap created).map PendingSlash.id).Nodup
  advances : ∀ later e earlier, t = later ++ e :: earlier →
    ∀ slashId, Advances sha256 earlier e slashId
  settled : ∀ e ∈ t, ∀ slashId p, getPendingSlash e.post slashId = some p → p.status ≠ .pending →
    getPendingSlash s slashId = some p
  single : ∀ slashId slashId' p p' c,
    getPendingSlash s slashId = some p → p.evidenceHash = some c → p.status ≠ .cancelled →
    getPendingSlash s slashId' = some p' → p'.evidenceHash = some c → p'.status ≠ .cancelled →
    slashId = slashId'

/-- In every run a slash is settled once, no sooner than its deadline and after its reveal, and no
two slashes in force share a commitment. -/
theorem slash_lifecycle (h : (machine sha256 own).Run (initialized admin) t s) :
    Lifecycle sha256 t s := by
  have hf := run_filed h
  refine ⟨hf.distinct, ?_, run_settled h, ?_⟩
  · rintro later e earlier rfl slashId
    obtain ⟨hr, hs⟩ := h.upTo
    exact (run_filed hr).advances hs slashId
  · intro slashId slashId' p p' c hp hc hst hp' hc' hst'
    have hl : (docket s).Live slashId c := ⟨p, hp, (hf.sound.committed _ p hp).trans hc, hst⟩
    have hl' : (docket s).Live slashId' c :=
      ⟨p', hp', (hf.sound.committed _ p' hp').trans hc', hst'⟩
    exact hf.sound.single slashId slashId' c hl hl'

theorem slash_lifecycle_resubmitted :
    Lifecycle padded ((machine padded ⟨0⟩).replay (initialized ⟨1⟩) resubmitted).1
      ((machine padded ⟨0⟩).replay (initialized ⟨1⟩) resubmitted).2 :=
  slash_lifecycle ((machine padded ⟨0⟩).run_replay (initialized ⟨1⟩) resubmitted)

end Shelterflex.SlashingModule
