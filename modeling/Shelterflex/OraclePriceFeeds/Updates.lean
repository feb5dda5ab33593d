import Shelterflex.OraclePriceFeeds.Model

/-! What the calls change of the prices. -/

namespace Shelterflex.OraclePriceFeeds
open Lib
set_option autoImplicit true

abbrev History (own : Address) := List (Event State (Env own × Call) Unit)

/-- The update of the canonical feed, which only the single-source mode makes. -/
structure Republishes (env : Env own) (pair : Symbol) (price : Int) (sequence : Nat)
    (s s' : State) : Prop where
  newer : s.sequence.getD pair 0 < sequence
  feed : s'.feed = s.feed.set pair ⟨pair, price, priceDecimals, env.timestamp, sequence⟩
  sequence : s'.sequence = s.sequence.set pair sequence

/-- What an accepted price update does. -/
structure Updates (env : Env own) (caller : Address) (pair : Symbol) (price : Int) (sequence : Nat)
    (s s' : State) : Prop where
  checked : checkDeviation s pair caller price = .ok ()
  sourceData : s'.sourceData = s.sourceData.set (pair, caller) ⟨price, env.timestamp, sequence⟩
  single : getSources s pair = [] → Republishes env pair price sequence s s'
  multi : getSources s pair ≠ [] → s'.feed = s.feed ∧ s'.sequence = s.sequence

inductive Changes (env : Env own) (s s' : State) : Call → Prop where
  | manage (hc : c.isUpdate = false)
      (hf : s'.feed = s.feed) (hq : s'.sequence = s.sequence) (hd : s'.sourceData = s.sourceData) :
      Changes env s s' c
  | update (caller : Address) (pair : Symbol) (price : I128) (sequence : Nat)
      (h : Updates env caller pair price.1 sequence s s') :
      Changes env s s' (.updatePrice caller pair price sequence)

theorem updatePrice_ok {sequence : Nat}
    (h : updatePrice env caller pair price sequence s = .ok s') :
    Updates env caller pair price sequence s s' ∧ s'.twapObservations = s.twapObservations := by
  simp only [updatePrice, bind_ok, require_ok, pure_ok] at h
  obtain ⟨_, _, _, _, _, hfeed, _, hd, rfl⟩ := h
  by_cases hs : getSources s pair = []
  · refine ⟨⟨hd, ?_, fun _ => ⟨?_, ?_, ?_⟩, fun hne => absurd hs hne⟩, ?_⟩
    · rw [if_pos hs]
    · exact not_le.mp fun hle => hfeed ⟨hs, hle⟩
    · rw [if_pos hs]
    · rw [if_pos hs]
    · rw [if_pos hs]
  · refine ⟨⟨hd, ?_, fun he => absurd he hs, fun _ => ⟨?_, ?_⟩⟩, ?_⟩ <;> rw [if_neg hs]

/-- Every call, and that none of them writes an observation. -/
theorem invoke_ok (h : invoke env s c = some (s', o)) :
    Changes env s s' c ∧ s'.twapObservations = s.twapObservations := by
  cases c with
  | init admin operator stalenessThreshold maxDeviationBps =>
    obtain ⟨_, hs, he⟩ := commit_some.mp h
    cases he
    simp only [init, bind_ok, pure_ok] at hs
    obtain ⟨_, _, rfl⟩ := hs
    exact ⟨.manage rfl rfl rfl rfl, rfl⟩
  | addSource caller pair source =>
    obtain ⟨_, hs, he⟩ := commit_some.mp h
    cases he
    simp only [addSource, bind_ok, pure_ok] at hs
    obtain ⟨_, _, _, _, rfl⟩ := hs
    split <;> exact ⟨.manage rfl rfl rfl rfl, rfl⟩
  | removeSource caller pair source =>
    obtain ⟨_, hs, he⟩ := commit_some.mp h
    cases he
    simp only [removeSource, bind_ok, pure_ok] at hs
    obtain ⟨_, _, _, _, rfl⟩ := hs
    exact ⟨.manage rfl rfl rfl rfl, rfl⟩
  | setQuorum caller pair quorum =>
    obtain ⟨_, hs, he⟩ := commit_some.mp h
    cases he
    simp only [setQuorum, bind_ok, pure_ok] at hs
    obtain ⟨_, _, _, _, rfl⟩ := hs
    exact ⟨.manage rfl rfl rfl rfl, rfl⟩
  | updatePrice caller pair price sequence =>
    obtain ⟨_, hs, he⟩ := commit_some.mp h
    cases he
    obtain ⟨hu, ht⟩ := updatePrice_ok hs
    exact ⟨.update caller pair price sequence hu, ht⟩
  | setStalenessThreshold caller threshold =>
    obtain ⟨_, hs, he⟩ := commit_some.mp h
    cases he
    simp only [setStalenessThreshold, bind_ok, pure_ok] at hs
    obtain ⟨_, _, _, _, rfl⟩ := hs
    exact ⟨.manage rfl rfl rfl rfl, rfl⟩
  | setMaxDeviationBps caller maxDeviationBps =>
    obtain ⟨_, hs, he⟩ := commit_some.mp h
    cases he
    simp only [setMaxDeviationBps, bind_ok, pure_ok] at hs
    obtain ⟨_, _, _, _, rfl⟩ := hs
    exact ⟨.manage rfl rfl rfl rfl, rfl⟩

/-! ## The time-weighted average -/

/-- The price that a call records for a pair. -/
def recordedBy (pair : Symbol) (e : Event State (Env own × Call) Unit) : Option Int :=
  match e.input.2 with
  | .updatePrice _ pair' price _ => if pair' = pair then some price.1 else none
  | _ => none

def recorded (pair : Symbol) (t : History own) : List Int := t.filterMap (recordedBy pair)

/-- The average exists, between the least and the greatest price recorded. -/
def TwapWithin (pair : Symbol) (t : History own) (s : State) : Prop :=
  ∃ v, getTwap pair s = .ok v ∧ (∃ p ∈ recorded pair t, p ≤ v) ∧ ∃ p ∈ recorded pair t, v ≤ p

theorem twapObservations_empty (h : (machine own).Run .fresh t s) :
    s.twapObservations = .empty := by
  apply h.invariant (P := fun _ s => s.twapObservations = .empty) rfl
  intro t s i s' o ih hs
  exact (invoke_ok hs).2.trans ih

theorem getTwap_unknown (h : s.twapObservations = .empty) (pair : Symbol) :
    getTwap pair s = .error (.err .unknownPair) := by
  rw [getTwap, h]
  rfl

/-- However many prices were recorded for a pair, its average is that of an unknown one. -/
theorem twap_never (h : (machine own).Run .fresh t s) (pair : Symbol) :
    getTwap pair s = .error (.err .unknownPair) ∧ ¬ TwapWithin pair t s := by
  have hunknown := getTwap_unknown (twapObservations_empty h) pair
  refine ⟨hunknown, ?_⟩
  rintro ⟨v, hv, _⟩
  cases hunknown.symm.trans hv

/-- A price of a hundred, and then five percent more. -/
def hundred : I128 := ⟨100, by decide⟩

def hundredFive : I128 := ⟨105, by decide⟩

def startCalls : List (Env ⟨0⟩ × Call) :=
  [(.signed ⟨0⟩ 0, .init ⟨1⟩ ⟨2⟩ 600 500), (.signed ⟨0⟩ 5, .updatePrice ⟨1⟩ [1] hundred 1)]

def perform (cs : List (Env ⟨0⟩ × Call)) : History ⟨0⟩ × State := (machine ⟨0⟩).replay .fresh cs

theorem twap_never_hundred :
    getTwap [1] (perform startCalls).2 = .error (.err .unknownPair) ∧
      ¬ TwapWithin [1] (perform startCalls).1 (perform startCalls).2 :=
  twap_never ((machine ⟨0⟩).run_replay .fresh startCalls) [1]

/-- A pair whose price was updated has no average. -/
theorem twap_unknown :
    ¬ ∀ (t : History ⟨0⟩) s, (machine ⟨0⟩).Run .fresh t s → ∀ pair, recorded pair t ≠ [] →
      TwapWithin pair t s := by
  intro hall
  have hrun := (machine ⟨0⟩).run_replay .fresh startCalls
  have hrecorded : recorded [1] (perform startCalls).1 = [100] := rfl
  have hwithin := hall _ _ hrun [1] (by rw [← perform, hrecorded]; exact List.cons_ne_nil _ _)
  have hunknown := getTwap_unknown (twapObservations_empty hrun) [1]
  obtain ⟨v, hv, _⟩ := hwithin
  cases hunknown.symm.trans hv

end Shelterflex.OraclePriceFeeds
