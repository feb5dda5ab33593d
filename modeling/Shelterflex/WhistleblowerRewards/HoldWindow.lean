import Shelterflex.WhistleblowerRewards.Fifo

/-! When an allocation can be claimed, and until when it can be revoked. -/

namespace Shelterflex.WhistleblowerRewards
open Lib
set_option autoImplicit true

/-- From `now` on, the sum and the loop of `claim` count the record, and a claim of everything uses
it up, exactly from the time `due` on, and it can be revoked exactly before. -/
structure OnTime (tok : Token T) (own : Address) (u : Address) (l : Bytes) (i : Nat)
    (now due : Nat) (w : World T) (r : AllocationRecord) : Prop where
  counted : now ≤ time →
    ((eligible (getHoldWindow w.rewards) time r : Outcome ContractError Bool) = .ok true ↔
      due ≤ time)
  claimed : ∀ (env : Env own) w' n, now ≤ env.timestamp →
    claim env tok u l none w = .ok (w', n) →
      ((∃ r', getAllocation w'.rewards u l i = some r' ∧ r'.status = .claimed) ↔
        due ≤ env.timestamp)
  revocable : r.claimedAmount = 0 → ∀ (env : Env own) caller, now ≤ env.timestamp →
    Revoker env w.rewards caller →
      ((∃ s', revokeAllocation env caller u l i w.rewards = .ok s') ↔ env.timestamp < due)

def timeOf (e : Step own T) : Nat :=
  match e.input with
  | .call env _ => env.timestamp
  | .traffic _ => 0

/-- The latest time in a history. -/
def clock (t : History own T) : Nat := (t.map timeOf).foldr max 0

/-- The call allocates under the next id of the pair. -/
def Allocates (env : Env own) (u : Address) (l : Bytes) (e : Step own T) : Prop :=
  ∃ operator d amount, e.input = .call env (.allocate operator u l d amount)

/-- Every allocation that is still pending goes by the hold window at the time it was made. -/
def FixedWindow (tok : Token T) (t : History own T) (w : World T) : Prop :=
  ∀ e ∈ t, ∀ env u l, Allocates env u l e → ∀ r,
    getAllocation w.rewards u l (getAllocationNonce e.pre.rewards u l) = some r →
      r.status = .pending →
        OnTime tok own u l (getAllocationNonce e.pre.rewards u l) (clock t)
          (env.timestamp + getHoldWindow e.pre.rewards) w r

def Passed (opened now window : Nat) : Prop :=
  opened + window < 2 ^ 64 ∧ opened + window ≤ now

/-- From `now` on, the two windows are the same to what was opened at `opened`. -/
def Agree (opened now window window' : Nat) : Prop :=
  window = window' ∨ Passed opened now window ∧ Passed opened now window'

/-- The call does not move the hold window, or all that is pending has passed both windows. -/
def Steady (now : Nat) (e : Step own T) : Prop :=
  ∀ env admin secs, e.input = .call env (.setHoldWindow admin secs) → ∀ u l i r,
    getAllocation e.pre.rewards u l i = some r → r.status = .pending →
      Agree r.timestamp now (getHoldWindow e.pre.rewards) secs

def SteadyRun (t : History own T) : Prop :=
  ∀ later e earlier, t = later ++ e :: earlier → Steady (clock (e :: earlier)) e

theorem Agree.symm (h : Agree opened now a b) : Agree opened now b a :=
  h.imp Eq.symm And.symm

theorem Agree.trans (h : Agree opened now a b) (h' : Agree opened now b c) :
    Agree opened now a c := by
  rcases h with rfl | ⟨ha, hb⟩
  · exact h'
  · rcases h' with rfl | ⟨_, hc⟩
    · exact .inr ⟨ha, hb⟩
    · exact .inr ⟨ha, hc⟩

theorem Agree.later (h : Agree opened now a b) (hle : now ≤ now') : Agree opened now' a b :=
  h.imp id fun ⟨ha, hb⟩ => ⟨⟨ha.1, ha.2.trans hle⟩, ⟨hb.1, hb.2.trans hle⟩⟩

/-- Windows that always pass together agree. -/
theorem agree_of_passed (hf : opened + b < 2 ^ 64)
    (h : ∀ time, now ≤ time → (Passed opened time a ↔ opened + b ≤ time)) :
    Agree opened now a b := by
  rcases lt_trichotomy a b with hlt | rfl | hlt
  · have ha : Passed opened (max now (opened + a)) a := ⟨by omega, le_max_right _ _⟩
    have hb := (h _ (le_max_left _ _)).mp ha
    have hle : opened + b ≤ now := by omega
    exact .inr ⟨⟨by omega, by omega⟩, hf, hle⟩
  · exact .inl rfl
  · obtain ⟨hfit, hmax⟩ := (h (max now (opened + b)) (le_max_left _ _)).mpr (le_max_right _ _)
    have hle : opened + a ≤ now := by omega
    exact .inr ⟨⟨hfit, hle⟩, hf, by omega⟩

theorem eligible_pending {r : AllocationRecord} (hp : r.status = .pending) :
    (eligible w now r : Outcome ε Bool) = .ok true ↔ Passed r.timestamp now w := by
  constructor
  · intro h
    rw [eligible, if_pos hp] at h
    obtain ⟨_, hadd, h⟩ := bind_ok.mp h
    obtain ⟨hf, rfl⟩ := u64Add_ok.mp hadd
    exact ⟨hf, of_decide_eq_true (pure_ok.mp h)⟩
  · rintro ⟨hf, hle⟩
    rw [eligible, if_pos hp, bind_of_ok (u64Add_ok.mpr ⟨hf, rfl⟩), decide_eq_true hle]
    rfl

section
variable {own : Address} {tok : Token T} {w : World T} {r : AllocationRecord}

end

theorem OnTime.agree {own : Address} {tok : Token T} {w : World T}
    (h : OnTime tok own u l i now (r.timestamp + window) w r) (hp : r.status = .pending)
    (hf : r.timestamp + window < 2 ^ 64) :
    Agree r.timestamp now (getHoldWindow w.rewards) window :=
  agree_of_passed hf fun _ ht => (eligible_pending hp).symm.trans (h.counted ht)

theorem FixedWindow.agree {t : History own T} (h : FixedWindow tok t w) (he : e ∈ t)
    (ha : Allocates env u l e)
    (hr : getAllocation w.rewards u l (getAllocationNonce e.pre.rewards u l) = some r)
    (hp : r.status = .pending) (ht : r.timestamp = env.timestamp)
    (hf : env.timestamp + getHoldWindow e.pre.rewards < 2 ^ 64) :
    Agree r.timestamp (clock t) (getHoldWindow w.rewards) (getHoldWindow e.pre.rewards) := by
  have hon := h e he env u l ha r hr hp
  rw [← ht] at hon hf
  exact hon.agree hp hf

theorem allocates_ok {e : Step own T} (h : act tok e.pre e.input = some (e.post, e.output))
    (ha : Allocates env u l e) :
    (∃ amount, getAllocation e.post.rewards u l (getAllocationNonce e.pre.rewards u l) =
      some ⟨amount, 0, env.timestamp, .pending⟩) ∧ ValidString l ∧
        env.timestamp + getHoldWindow e.pre.rewards < 2 ^ 64 := by
  obtain ⟨pre, a, o, post⟩ := e
  obtain ⟨operator, d, amount, rfl⟩ := ha
  have hch : Changes tok env pre post (.allocate operator u l d amount) o := invoke_changes h
  cases hch with
  | allocate hl _ hf he =>
    cases he
    exact ⟨⟨amount, getAllocation_open.trans (if_pos rfl)⟩, hl, hf⟩
  | manage _ hn => exact absurd rfl (hn operator u l d amount)

section
variable {own : Address} {tok : Token T}

theorem act_window {a : Action own T} (h : act tok w a = some (w', o)) (hs : Sound w.rewards) :
    getHoldWindow w'.rewards = getHoldWindow w.rewards ∨
      ∃ env admin, a = .call env (.setHoldWindow admin (getHoldWindow w'.rewards)) := by
  cases a with
  | traffic t => exact .inl (by rw [act_traffic h])
  | call env c =>
    cases invoke_changes h with
    | window he =>
      cases he
      exact .inr ⟨env, _, rfl⟩
    | allocate _ _ _ he | revoke _ _ _ he =>
      cases he
      exact .inl rfl
    | claim hc => exact .inl (hc.consumes hs).2.holdWindow
    | manage _ _ _ hb _ => exact .inl (by rw [getHoldWindow, hb.window, getHoldWindow])

/-- The window in force agrees with that of an allocation that is still pending. -/
def Agrees (t : History own T) (w : World T) (u : Address) (l : Bytes) (e : Step own T) : Prop :=
  ∃ r, getAllocation w.rewards u l (getAllocationNonce e.pre.rewards u l) = some r ∧
    (r.status = .pending → Agree r.timestamp (clock t) (getHoldWindow w.rewards)
      (getHoldWindow e.pre.rewards))

theorem SteadyRun.suffix {earlier : History own T} (later : History own T)
    (h : SteadyRun (later ++ earlier)) : SteadyRun earlier := by
  rintro later' e earlier' rfl
  exact h (later ++ later') e earlier' (List.append_assoc _ _ _).symm

theorem agrees_new {e : Step own T} (h : act tok e.pre e.input = some (e.post, e.output))
    (hs : Sound e.pre.rewards) (ha : Allocates env u l e) : Agrees (e :: t) e.post u l e := by
  obtain ⟨⟨amount, hr⟩, _, _⟩ := allocates_ok h ha
  refine ⟨_, hr, fun _ => .inl ?_⟩
  rcases act_window h hs with hsame | ⟨env', admin, hset⟩
  · exact hsame
  · obtain ⟨_, _, _, hin⟩ := ha
    cases hin.symm.trans hset

theorem Agrees.step {t : History own T} (h : Agrees t w u l e)
    (hstep : act tok w a = some (w', o)) (hs : Sound w.rewards)
    (hst : Steady (clock (⟨w, a, o, w'⟩ :: t)) ⟨w, a, o, w'⟩) :
    Agrees (⟨w, a, o, w'⟩ :: t) w' u l e := by
  obtain ⟨r, hr, hagree⟩ := h
  obtain ⟨r', hr', hf⟩ := (act_moves hstep hs u l _).follows hr
  refine ⟨r', hr', fun hp => ?_⟩
  have hp := hf.pending hp
  have hlater := (hagree hp).later (le_max_right (timeOf ⟨w, a, o, w'⟩) (clock t))
  rw [hf.timestamp]
  rcases act_window hstep hs with hsame | ⟨env, admin, rfl⟩
  · exact hsame ▸ hlater
  · exact (hst env admin _ rfl u l _ r hr hp).symm.trans hlater

variable {t : History own T}
  (h : (machine tok own).Run ⟨initialized admin operator token window, t₀⟩ t w)
include h

/-- In a run of steady calls, the window in force agrees with that of every pending allocation. -/
theorem run_agrees (hc : SteadyRun t) (he : e ∈ t) (ha : Allocates env u l e) :
    Agrees t w u l e := by
  induction h with
  | start => cases he
  | @commit t w a w' o hrun hstep ih =>
    have hsound := reachable_sound ⟨_, hrun⟩
    rcases List.mem_cons.mp he with rfl | he
    · exact agrees_new hstep hsound ha
    · exact (ih (hc.suffix [_]) he).step hstep hsound (hc [] _ t rfl)
  | rollback _ _ ih => exact ih hc he

end

end Shelterflex.WhistleblowerRewards
