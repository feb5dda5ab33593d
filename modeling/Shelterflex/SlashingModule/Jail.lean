import Shelterflex.SlashingModule.Penalties
import Shelterflex.Lib.Since

namespace Shelterflex.SlashingModule
open Lib
set_option autoImplicit true

/-- The actor that a committed call jails. -/
def jails (e : Event State (Env own × Call) Output) : Option Address :=
  (finalizes e).bind fun p => if p.isValidator then some p.actor else none

theorem jails_of_finalizes {e : Event State (Env own × Call) Output} (h : finalizes e = some p) :
    jails e = if p.isValidator then some p.actor else none := by
  rw [jails, h]
  rfl

theorem admin_kept (h : invoke sha256 env s c = some (s', o)) :
    (accounts s').admin = (accounts s).admin := by
  have hc := (invoke_written h).accounts
  generalize accounts s' = a' at hc
  cases hc with
  | _ => rfl

theorem reachable_admin (h : (machine sha256 own).Reachable (initialized admin) s) :
    (accounts s).admin = some admin :=
  h.invariant (P := fun s => (accounts s).admin = some admin) rfl fun ha hs =>
    (admin_kept hs).trans ha

/-- The admin lets an actor out. -/
def Approves (admin actor : Address) (e : Event State (Env own × Call) Output) : Prop :=
  e.input.2 = .approveUnjail admin actor

def Jails (actor : Address) (e : Event State (Env own × Call) Output) : Prop :=
  jails e = some actor

/-- Nobody is jailed while an approval to let them out is still unused. -/
def JailsUnapproved (e : Event State (Env own × Call) Output) : Prop :=
  ∀ actor ∈ jails e, (accounts e.pre).approved actor = false

theorem not_jails_of_proposed {e : Event State (Env own × Call) Output}
    (h : finalizes e = some p) (hv : p.isValidator = false) : ¬ Jails actor e := by
  rw [Jails, jails_of_finalizes h, hv]
  exact nofun

/-- An approval that stands was there before, or was given now, and nobody is jailed past it. -/
theorem approved_step {own admin : Address} {env : Env own} (ha : (accounts s).admin = some admin)
    (hs : invoke sha256 env s c = some (s', o)) (hC : JailsUnapproved ⟨s, (env, c), o, s'⟩)
    (hf : (accounts s').approved actor = true) :
    Approves admin actor ⟨s, (env, c), o, s'⟩ ∨
      ¬ Jails actor ⟨s, (env, c), o, s'⟩ ∧ (accounts s).approved actor = true := by
  have hc := (invoke_written hs).accounts
  generalize accounts s' = a' at hc hf
  cases hc with
  | keep hw =>
    cases c with
    | finalizeSlash _ _ => cases hw
    | _ => exact .inr ⟨nofun, hf⟩
  | setStakedBalance _ | slash _ | pause | unpause => exact .inr ⟨nofun, hf⟩
  | jail hp hv =>
    apply Or.inr
    refine ⟨fun hj => ?_, hf⟩
    have hn := hC actor hj
    cases hn.symm.trans hf
  | reduce hp hv _ | waive hp hv _ =>
    exact .inr ⟨not_jails_of_proposed (finalizes_eq_some.mpr ⟨_, _, rfl, hp⟩) hv, hf⟩
  | @approve caller actor' _ hadmin =>
    cases Option.some.inj (ha.symm.trans hadmin)
    by_cases he : actor = actor'
    · exact .inl (congrArg _ he.symm)
    · dsimp only at hf
      rw [Function.update_of_ne he] at hf
      exact .inr ⟨nofun, hf⟩
  | @unjail actor' _ _ =>
    by_cases he : actor = actor'
    · dsimp only at hf
      rw [he, Function.update_self] at hf
      cases hf
    · dsimp only at hf
      rw [Function.update_of_ne he] at hf
      exact .inr ⟨nofun, hf⟩

theorem unjail_approved (hs : invoke sha256 env s (.unjail actor) = some (s', o)) :
    (accounts s).approved actor = true := by
  have hc := (invoke_written hs).accounts
  generalize accounts s' = a' at hc
  cases hc with
  | keep hw => cases hw
  | unjail _ ha => exact ha

/-- In every run in which nobody is jailed past an approval, an actor is let out on an approval
that followed the last jailing. -/
theorem unjail_fresh (h : (machine sha256 own).Run (initialized admin) t s)
    (hC : ∀ e ∈ t, JailsUnapproved e) :
    ∀ later e earlier actor, t = later ++ e :: earlier → e.input.2 = .unjail actor →
      Since (Approves admin actor) (Jails actor) earlier := by
  intro later e earlier actor ht hc
  subst ht
  obtain ⟨hr, hs⟩ := h.upTo
  have hC' : ∀ e' ∈ earlier, JailsUnapproved e' := by
    intro e' he'
    exact hC e' (List.mem_append_right _ (List.mem_cons_of_mem _ he'))
  have hu : (accounts e.pre).approved actor = true := by
    obtain ⟨s₁, ⟨env, c⟩, o, s'⟩ := e
    subst hc
    have hu : invoke sha256 env s₁ (.unjail actor) = some (s', o) := hs
    exact unjail_approved hu
  apply hr.since_of (f := fun s => (accounts s).approved actor = true) hC' Bool.false_ne_true _ hu
  intro s i s' o hreach hi hCi hf
  exact approved_step (reachable_admin hreach) hi hCi hf

instance (e : Event State (Env own × Call) Output) : Decidable (JailsUnapproved e) :=
  inferInstanceAs (Decidable (∀ actor ∈ jails e, _))

instance (admin actor : Address) :
    DecidablePred (Approves admin actor : Event State (Env own × Call) Output → Prop) :=
  fun _ => inferInstanceAs (Decidable (_ = _))

instance (actor : Address) :
    DecidablePred (Jails actor : Event State (Env own × Call) Output → Prop) :=
  fun _ => inferInstanceAs (Decidable (_ = _))

/-- Two slashes of the same actor are revealed, and the first is finalized. -/
def revealedTwice : List (Env ⟨0⟩ × Call) :=
  committed ++ [
    (.signed ⟨0⟩ 0, .submitEvidence ⟨2⟩ (hashCommitment padded [8] [2]) ⟨5⟩ .doubleSign),
    (.signed ⟨0⟩ 1, .revealEvidence ⟨2⟩ 1 [7] [1]), (.signed ⟨0⟩ 1, .revealEvidence ⟨2⟩ 2 [8] [2]),
    (.signed ⟨0⟩ 604800, .finalizeSlash ⟨2⟩ 1)]

/-- The actor is let out only after the second slash. -/
def approvedLast : List (Env ⟨0⟩ × Call) :=
  revealedTwice ++ [(.signed ⟨0⟩ 604801, .finalizeSlash ⟨2⟩ 2),
    (.signed ⟨0⟩ 604802, .approveUnjail ⟨1⟩ ⟨5⟩), (.signed ⟨0⟩ 604803, .unjail ⟨5⟩)]

theorem unjail_fresh_approvedLast : Since (Approves ⟨1⟩ ⟨5⟩) (Jails ⟨5⟩)
    ((machine padded ⟨0⟩).replay (initialized ⟨1⟩) approvedLast).1.tail :=
  unjail_fresh ((machine padded ⟨0⟩).run_replay (initialized ⟨1⟩) approvedLast) (by decide) [] _ _
    _ rfl rfl

/-- The approval for the first slash is given before the second is finalized, and used after. -/
def approvedBetween : List (Env ⟨0⟩ × Call) :=
  revealedTwice ++ [(.signed ⟨0⟩ 604801, .approveUnjail ⟨1⟩ ⟨5⟩),
    (.signed ⟨0⟩ 604802, .finalizeSlash ⟨2⟩ 2), (.signed ⟨0⟩ 604803, .unjail ⟨5⟩)]

theorem unjail_stale :
    ¬ ∀ t s, (machine padded ⟨0⟩).Run (initialized ⟨1⟩) t s →
      ∀ later e earlier actor, t = later ++ e :: earlier → e.input.2 = .unjail actor →
        Since (Approves ⟨1⟩ actor) (Jails actor) earlier := by
  intro hall
  have hr := (machine padded ⟨0⟩).run_replay (initialized ⟨1⟩) approvedBetween
  have hs := hall _ _ hr [] _ _ _ rfl rfl
  exact absurd hs (by decide)

end Shelterflex.SlashingModule
