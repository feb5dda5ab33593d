import Shelterflex.SlashingModule.Penalties
import Shelterflex.Lib.Since

namespace Shelterflex.SlashingModule
open Lib
set_option autoImplicit true

def Call.pauses : Call → Bool
  | .pause _ => true
  | _ => false

def Call.unpauses : Call → Bool
  | .unpause _ => true
  | _ => false

/-- The steps of a slash that do not consult the pause. -/
def Call.slashes : Call → Bool
  | .submitEvidence _ _ _ _ => true
  | .proposeSlash _ _ _ => true
  | .finalizeSlash _ _ => true
  | _ => false

/-- No actor loses anything, and no slash is filed or finalized. -/
structure Frozen (s s' : State) : Prop where
  balance : getStakedBalance s' = getStakedBalance s
  jailed : isJailed s' = isJailed s
  slashed : totalSlashed s' = totalSlashed s
  count : getSlashCount s' = getSlashCount s
  history : getSlashHistory s' = getSlashHistory s
  created : ∀ slashId, slashStatus s' slashId = some .pending →
    slashStatus s slashId = some .pending
  finalized : ∀ slashId, slashStatus s' slashId = some .finalized →
    slashStatus s slashId = some .finalized

theorem slashStatus_eq (h : getPendingSlash s slashId = some p) :
    slashStatus s slashId = some p.status := congrArg (Option.map PendingSlash.status) h

theorem created_slashes {e : Event State (Env own × Call) Output} (h : created e = some p) :
    e.input.2.slashes = true := by
  obtain ⟨s, ⟨env, c⟩, o, s'⟩ := e
  cases c with
  | submitEvidence _ _ _ _ | proposeSlash _ _ _ => rfl
  | _ => cases h

theorem paused_step (hs : invoke sha256 env s c = some (s', o)) :
    (accounts s').paused = true ↔
      c.pauses = true ∨ (accounts s).paused = true ∧ c.unpauses = false := by
  have hc := (invoke_written hs).accounts
  generalize accounts s' = a' at hc
  cases hc with
  | keep hw =>
    cases c with
    | pause _ | unpause _ => cases hw
    | _ => exact ⟨fun h => .inr ⟨h, rfl⟩, fun h => h.elim nofun And.left⟩
  | pause => exact iff_of_true rfl (.inl rfl)
  | unpause => exact iff_of_false nofun fun h => h.elim nofun fun hu => nomatch hu.2
  | _ => exact ⟨fun h => .inr ⟨h, rfl⟩, fun h => h.elim nofun And.left⟩

section
variable {own : Address} {t : History own} {env : Env own} {s s' : State}

/-- Any other call leaves everything as it is while the module is paused. -/
theorem Filed.frozen (h : Filed sha256 t s) (hs : invoke sha256 env s c = some (s', o))
    (hp : (accounts s).paused = true) (hc : c.slashes = false) : Frozen s s' := by
  have ha : accounts s' = { accounts s with
      paused := (accounts s').paused
      approved := (accounts s').approved } := by
    have hx := (invoke_written hs).accounts
    generalize accounts s' = a' at hx
    cases hx with
    | keep => rfl
    | pause | unpause => rfl
    | jail | reduce | waive => cases hc
    | setStakedBalance hn | approve hn | unjail hn | slash hn => cases hp.symm.trans hn
  have hstatus (slashId) : slashStatus s' slashId = slashStatus s slashId ∨
      slashStatus s' slashId = some .cancelled := by
    cases h.advances hs slashId with
    | keep hk => exact .inl (congrArg (Option.map PendingSlash.status) hk)
    | create hf => cases hc.symm.trans (created_slashes hf)
    | finalize hf =>
      cases hf
      cases hc
    | cancel _ _ _ hp' => exact .inr (slashStatus_eq hp')
  have hkept (slashId) (status : SlashStatus) (hne : status ≠ .cancelled)
      (hx : slashStatus s' slashId = some status) : slashStatus s slashId = some status := by
    rcases hstatus slashId with he | he
    · exact he ▸ hx
    · exact absurd (Option.some.inj (hx.symm.trans he)) hne
  exact ⟨congrArg Accounts.balance ha, congrArg Accounts.jailed ha, congrArg Accounts.slashed ha,
    congrArg Accounts.count ha, congrArg Accounts.history ha, fun i => hkept i _ nofun,
    fun i => hkept i _ nofun⟩

theorem Filed.not_frozen (h : Filed sha256 t s) (hs : invoke sha256 env s c = some (s', o))
    (hc : c.slashes = true) : ¬ Frozen s s' := by
  intro hf
  cases hx : filed env s c with
  | some p =>
    obtain ⟨hid, hst⟩ := filed_id hx
    have hp : getPendingSlash s' p.id = some p := by
      rw [(invoke_filed hs hx).1, Function.update_self]
    have hq := hf.created p.id ((slashStatus_eq hp).trans (congrArg some hst))
    obtain ⟨q, hq, _⟩ := Option.map_eq_some_iff.mp hq
    have hle : p.id ≤ lastSlashId s := h.sound.bounded p.id q hq
    omega
  | none =>
    cases c with
    | submitEvidence _ _ _ _ | proposeSlash _ _ _ => cases hx
    | finalizeSlash caller slashId =>
      cases hp : getPendingSlash s slashId with
      | none =>
        obtain ⟨_, hs, _⟩ := commit_some.mp hs
        obtain ⟨_, hp', _⟩ := finalizeSlash_docket hs
        cases hp.symm.trans hp'
      | some p =>
        have hz : finalizes ⟨s, (env, .finalizeSlash caller slashId), o, s'⟩ = some p := hp
        obtain ⟨hpre, hst, hpost⟩ := h.finalize_pending hs hz
        have hq := hf.finalized p.id (slashStatus_eq hpost)
        cases (hst ▸ slashStatus_eq hpre).symm.trans hq
    | _ => cases hc

end

/-- In every run the calls between a pause and the next unpause leave everything as it is exactly
if they are no steps of a slash. -/
theorem pause_freezes_iff (h : (machine sha256 own).Run (initialized admin) t s) :
    ∀ later e earlier, t = later ++ e :: earlier →
      Since (fun e => e.input.2.pauses = true) (fun e => e.input.2.unpauses = true) earlier →
      (Frozen e.pre e.post ↔ e.input.2.slashes = false) := by
  intro later e earlier ht hx
  subst ht
  obtain ⟨hr, hs⟩ := h.upTo
  have hp : (accounts e.pre).paused = true := by
    apply hr.stands (f := fun s => (accounts s).paused = true) _ _ hx
    · intro s i s' o hs hp
      exact (paused_step hs).mpr (.inl hp)
    · intro s i s' o hs hp hn
      exact (paused_step hs).mpr (.inr ⟨hp, Bool.eq_false_iff.mpr hn⟩)
  constructor
  · intro hf
    rw [← Bool.not_eq_true]
    exact fun hc => (run_filed hr).not_frozen hs hc hf
  · exact (run_filed hr).frozen hs hp

/-- A slash is proposed while the module is paused. -/
def pausedProposal : List (Env ⟨0⟩ × Call) :=
  [(.signed ⟨0⟩ 0, .setStakedBalance ⟨1⟩ ⟨5⟩ 1000), (.signed ⟨0⟩ 0, .pause ⟨1⟩),
    (.signed ⟨0⟩ 0, .proposeSlash ⟨1⟩ ⟨5⟩ 5000)]

theorem pause_freezes_iff_pausedProposal : ∃ e : Event State (Env ⟨0⟩ × Call) Output,
    e.input.2 = .proposeSlash ⟨1⟩ ⟨5⟩ 5000 ∧
      (Frozen e.pre e.post ↔ e.input.2.slashes = false) :=
  ⟨_, rfl, pause_freezes_iff
    ((machine padded ⟨0⟩).run_replay (initialized ⟨1⟩) pausedProposal) [] _ _ rfl (by decide)⟩

theorem pause_evaded :
    ¬ ∀ t s, (machine padded ⟨0⟩).Run (initialized ⟨1⟩) t s →
      ∀ later e earlier, t = later ++ e :: earlier →
        Since (fun e => e.input.2.pauses = true) (fun e => e.input.2.unpauses = true) earlier →
        Frozen e.pre e.post := by
  intro hall
  have hr := (machine padded ⟨0⟩).run_replay (initialized ⟨1⟩) pausedProposal
  have hf := hall _ _ hr [] _ _ rfl (by decide)
  exact absurd (hf.created 1 rfl) (by decide)

end Shelterflex.SlashingModule
