import Shelterflex.SlashingModule.Accounts

namespace Shelterflex.SlashingModule
open Lib
set_option autoImplicit true

/-- A commitment that was opened, for a slash against an actor. -/
structure Reveal where
  slashId : Nat
  actor : Address
  evidence : Bytes
  salt : Bytes
deriving DecidableEq, Repr

/-- What a committed call reveals. Revealing a slash again opens nothing. -/
def reveal (e : Event State (Env own × Call) Output) : Option Reveal :=
  match e.input.2 with
  | .revealEvidence _ slashId evidence salt =>
    if isRevealed e.pre slashId then none
    else (getPendingSlash e.pre slashId).map fun p => ⟨slashId, p.actor, evidence, salt⟩
  | _ => none

def reveals (t : List (Event State (Env own × Call) Output)) : List Reveal := t.filterMap reveal

def slashStatus (s : State) (slashId : Nat) : Option SlashStatus :=
  (getPendingSlash s slashId).map PendingSlash.status

/-- Two slashes with the same evidence against the same actor are not both finalized. -/
def UsedOnce (rs : List Reveal) (s : State) : Prop :=
  ∀ r ∈ rs, ∀ r' ∈ rs, r.slashId ≠ r'.slashId → r.evidence = r'.evidence → r.actor = r'.actor →
    ¬ (slashStatus s r.slashId = some .finalized ∧ slashStatus s r'.slashId = some .finalized)

/-- Evidence is revealed again, under another salt, only once the slash it was revealed for is
cancelled. -/
def RevealsFresh (later earlier : Event State (Env own × Call) Output) : Prop :=
  ∀ r ∈ reveal later, ∀ r' ∈ reveal earlier, r.evidence = r'.evidence → r.actor = r'.actor →
    r.salt = r'.salt ∨ slashStatus later.pre r'.slashId = some .cancelled

instance (e e' : Event State (Env own × Call) Output) : Decidable (RevealsFresh e e') :=
  inferInstanceAs (Decidable (∀ r ∈ reveal e, ∀ r' ∈ reveal e', _ → _ → _))

theorem reveal_hash {e : Event State (Env own × Call) Output}
    (h : (machine sha256 own).step e.pre e.input = some (e.post, e.output))
    (hr : reveal e = some r) :
    ∃ p, getPendingSlash e.pre r.slashId = some p ∧
      p.evidenceHash = some (hashCommitment sha256 r.evidence r.salt) := by
  obtain ⟨s, ⟨env, c⟩, o, s'⟩ := e
  cases c with
  | revealEvidence submitter slashId evidence salt =>
    have hs : invoke sha256 env s (.revealEvidence submitter slashId evidence salt) =
        some (s', o) := h
    have hc := (invoke_written hs).docket
    generalize docket s' = d' at hc
    simp only [reveal, Option.ite_none_left_eq_some, Option.map_eq_some_iff] at hr
    obtain ⟨hn, _, _, rfl⟩ := hr
    cases hc with
    | keep hk => exact absurd (hk _ _ _ _ rfl) hn
    | reveal hp _ _ hh => exact ⟨_, hp, hh⟩
  | _ => cases hr

/-- What the reveals of a run say about the slashes on record. -/
structure Traced (sha256 : Bytes → BytesN 32) (rs : List Reveal) (s : State) : Prop where
  sound : (docket s).Sound
  named : ∀ r ∈ rs, ∃ p, getPendingSlash s r.slashId = some p ∧
    p.evidenceHash = some (hashCommitment sha256 r.evidence r.salt)
  apart : ∀ r ∈ rs, ∀ r' ∈ rs, r.evidence = r'.evidence → r.actor = r'.actor →
    r.salt = r'.salt ∨ slashStatus s r.slashId = some .cancelled ∨
      slashStatus s r'.slashId = some .cancelled

theorem Traced.usedOnce (h : Traced sha256 rs s) : UsedOnce rs s := by
  have hlive (r) (hr : r ∈ rs) (hf : slashStatus s r.slashId = some .finalized) :
      (docket s).Live r.slashId (hashCommitment sha256 r.evidence r.salt) := by
    obtain ⟨p, hp, hh⟩ := h.named r hr
    rw [slashStatus, hp] at hf
    refine ⟨p, hp, (h.sound.committed _ p hp).trans hh, ?_⟩
    rw [Option.some.inj hf]
    nofun
  rintro r hr r' hr' hne he ha ⟨hf, hf'⟩
  rcases h.apart r hr r' hr' he ha with hs | hc | hc
  · have hl := hlive r hr hf
    rw [he, hs] at hl
    exact hne (h.sound.single _ _ _ hl (hlive r' hr' hf'))
  · cases hf.symm.trans hc
  · cases hf'.symm.trans hc

/-- A step keeps what is known of the reveals so far. -/
theorem Traced.step (h : Traced sha256 rs s) {env : Env own}
    (hs : invoke sha256 env s c = some (s', o)) : Traced sha256 rs s' := by
  have hc := (invoke_written hs).docket
  have hcancelled (slashId) (hx : slashStatus s slashId = some .cancelled) :
      slashStatus s' slashId = some .cancelled := by
    obtain ⟨q, hq, hst⟩ := Option.map_eq_some_iff.mp hx
    obtain ⟨status, hq', hk⟩ := hc.kept h.sound hq
    have hq'' : getPendingSlash s' slashId = some { q with status := status } := hq'
    rw [slashStatus, hq'', hk (by rw [hst]; nofun)]
    exact congrArg some hst
  refine ⟨hc.sound h.sound, fun r hr => ?_, fun r hr r' hr' he ha => ?_⟩
  · obtain ⟨p, hp, hh⟩ := h.named r hr
    obtain ⟨status, hp', _⟩ := hc.kept h.sound hp
    exact ⟨_, hp', hh⟩
  · rcases h.apart r hr r' hr' he ha with hx | hx | hx
    · exact .inl hx
    · exact .inr (.inl (hcancelled _ hx))
    · exact .inr (.inr (hcancelled _ hx))

theorem Traced.cons (h : Traced sha256 rs s)
    (hp : ∃ p, getPendingSlash s r.slashId = some p ∧
      p.evidenceHash = some (hashCommitment sha256 r.evidence r.salt))
    (ha : ∀ r' ∈ rs, r.evidence = r'.evidence → r.actor = r'.actor →
      r.salt = r'.salt ∨ slashStatus s r'.slashId = some .cancelled) :
    Traced sha256 (r :: rs) s := by
  refine ⟨h.sound, fun q hq => ?_, fun q hq q' hq' he hact => ?_⟩
  · rcases List.mem_cons.mp hq with rfl | hm
    · exact hp
    · exact h.named q hm
  · rcases List.mem_cons.mp hq with rfl | hm
    · rcases List.mem_cons.mp hq' with rfl | hm'
      · exact .inl rfl
      · exact (ha q' hm' he hact).imp_right .inr
    · rcases List.mem_cons.mp hq' with rfl | hm'
      · exact (ha q hm he.symm hact.symm).imp Eq.symm .inl
      · exact h.apart q hm q' hm' he hact

theorem initialized_sound (admin : Address) : (docket (initialized admin)).Sound where
  bounded _ _ h := by cases h
  committed _ _ h := by cases h
  guarded _ _ h := by
    obtain ⟨_, h, _⟩ := h
    cases h
  single _ _ _ h := by
    obtain ⟨_, h, _⟩ := h
    cases h

theorem run_traced (h : (machine sha256 own).Run (initialized admin) t s)
    (hC : t.Pairwise RevealsFresh) : Traced sha256 (reveals t) s := by
  refine h.invariant (P := fun t s => t.Pairwise RevealsFresh → Traced sha256 (reveals t) s)
    (fun _ => ⟨initialized_sound admin, nofun, nofun⟩) ?_ hC
  rintro t s ⟨env, c⟩ s' o ih hs hC
  obtain ⟨hnew, hC⟩ := List.pairwise_cons.mp hC
  have ht := ih hC
  rw [reveals, List.filterMap_cons]
  cases hr : reveal ⟨s, (env, c), o, s'⟩ with
  | none => exact ht.step hs
  | some r =>
    have hp := reveal_hash (e := ⟨s, (env, c), o, s'⟩) hs hr
    refine (ht.cons hp fun r' hr' he ha => ?_).step hs
    obtain ⟨e', he', hr''⟩ := List.mem_filterMap.mp hr'
    exact hnew e' he' r hr r' hr'' he ha

/-- Evidence is used once in every run in which evidence is not revealed again, under another
salt, while a slash with it is in force. -/
theorem evidence_used_once (h : (machine sha256 own).Run (initialized admin) t s)
    (hC : t.Pairwise RevealsFresh) : UsedOnce (reveals t) s :=
  (run_traced h hC).usedOnce

/-- A hash that keeps the first 32 bytes. -/
def padded (x : Bytes) : BytesN 32 := ⟨⟨(x ++ .replicate 32 0).take 32⟩, by simp⟩

/-- Submitter `2` commits to evidence against actor `5`. -/
def committed : List (Env ⟨0⟩ × Call) :=
  [(.signed ⟨0⟩ 0, .setSubmitter ⟨1⟩ ⟨2⟩ true), (.signed ⟨0⟩ 0, .setStakedBalance ⟨1⟩ ⟨5⟩ 1000),
    (.signed ⟨0⟩ 0, .submitEvidence ⟨2⟩ (hashCommitment padded [7] [1]) ⟨5⟩ .downtime)]

/-- The slash is cancelled after its reveal, and made again under another salt. -/
def resubmitted : List (Env ⟨0⟩ × Call) :=
  committed ++ [(.signed ⟨0⟩ 1, .revealEvidence ⟨2⟩ 1 [7] [1]), (.signed ⟨0⟩ 2, .cancelSlash ⟨1⟩ 1),
    (.signed ⟨0⟩ 3, .submitEvidence ⟨2⟩ (hashCommitment padded [7] [2]) ⟨5⟩ .downtime),
    (.signed ⟨0⟩ 4, .revealEvidence ⟨2⟩ 2 [7] [2]), (.signed ⟨0⟩ 604804, .finalizeSlash ⟨2⟩ 2)]

theorem evidence_used_once_resubmitted :
    UsedOnce (reveals ((machine padded ⟨0⟩).replay (initialized ⟨1⟩) resubmitted).1)
      ((machine padded ⟨0⟩).replay (initialized ⟨1⟩) resubmitted).2 :=
  evidence_used_once ((machine padded ⟨0⟩).run_replay (initialized ⟨1⟩) resubmitted) (by decide)

/-- The same evidence is committed to twice before either slash is finalized. -/
def salted : List (Env ⟨0⟩ × Call) :=
  committed ++ [
    (.signed ⟨0⟩ 0, .submitEvidence ⟨2⟩ (hashCommitment padded [7] [2]) ⟨5⟩ .downtime),
    (.signed ⟨0⟩ 1, .revealEvidence ⟨2⟩ 1 [7] [1]), (.signed ⟨0⟩ 1, .revealEvidence ⟨2⟩ 2 [7] [2]),
    (.signed ⟨0⟩ 604800, .finalizeSlash ⟨2⟩ 1), (.signed ⟨0⟩ 604800, .finalizeSlash ⟨2⟩ 2)]

/-- No two of the revealed preimages have the same hash. -/
def CollisionFree (sha256 : Bytes → BytesN 32) (rs : List Reveal) : Prop :=
  ∀ r ∈ rs, ∀ r' ∈ rs, sha256 (r.evidence ++ r.salt) = sha256 (r'.evidence ++ r'.salt) →
    r.evidence ++ r.salt = r'.evidence ++ r'.salt

instance (sha256 : Bytes → BytesN 32) (rs : List Reveal) : Decidable (CollisionFree sha256 rs) :=
  inferInstanceAs (Decidable (∀ r ∈ rs, ∀ r' ∈ rs, _ → _))

theorem evidence_used_twice :
    ¬ ∀ t s, (machine padded ⟨0⟩).Run (initialized ⟨1⟩) t s → CollisionFree padded (reveals t) →
      UsedOnce (reveals t) s := by
  intro hall
  have hr := (machine padded ⟨0⟩).run_replay (initialized ⟨1⟩) salted
  exact hall _ _ hr (by decide) ⟨1, ⟨5⟩, [7], [1]⟩ (by decide) ⟨2, ⟨5⟩, [7], [2]⟩ (by decide)
    (by decide) rfl rfl (by decide)

end Shelterflex.SlashingModule
