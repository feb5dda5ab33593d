import Shelterflex.Host.Transaction
import Shelterflex.OraclePriceFeeds.Updates

/-! How far one canonical price may be from the one before it. -/

namespace Shelterflex.OraclePriceFeeds
open Lib
set_option autoImplicit true

/-- A feed that may follow another one. -/
structure Follows (maxBps : Nat) (f f' : PriceFeed) : Prop where
  deviation : f.price ≠ 0 → |f'.price - f.price| * 10000 / |f.price| ≤ maxBps
  sequence : f.sequence < f'.sequence
  updatedAt : f.updatedAt ≤ f'.updatedAt

/-- The call stored a canonical price of a pair. -/
def Publishes (pair : Symbol) (e : Event State (Env own × Call) Unit) : Prop :=
  getSources e.pre pair = [] ∧
    ∃ caller price sequence, e.input.2 = .updatePrice caller pair price sequence

/-- The feed of a pair changes by publishing, within the deviation in force. -/
def FeedGuarded (e : Event State (Env own × Call) Unit) : Prop :=
  ∀ pair f, e.pre.feed.get pair = some f → ∃ f', e.post.feed.get pair = some f' ∧
    (Publishes pair e ∧ Follows (getMaxDeviationBps e.pre) f f' ∨ ¬ Publishes pair e ∧ f' = f)

/-- A publisher that has a record of its own has the price of the feed in it. -/
def ComparesWithFeed (e : Event State (Env own × Call) Unit) : Prop :=
  ∀ caller pair price sequence, e.input.2 = .updatePrice caller pair price sequence →
    getSources e.pre pair = [] → ∀ data f, e.pre.sourceData.get (pair, caller) = some data →
      e.pre.feed.get pair = some f → data.price = f.price

theorem priceDiff_ok (h : priceDiff oldPrice price = .ok d) : d = |price - oldPrice| := by
  unfold priceDiff at h
  split at h
  · rw [← (i128Sub_ok.mp h).2, abs_of_pos (by omega)]
  · rw [← (i128Sub_ok.mp h).2, abs_of_nonpos (by omega), neg_sub]

theorem deviationBps_ok (h : deviationBps oldPrice price = .ok d) :
    d = |price - oldPrice| * 10000 / |oldPrice| := by
  simp only [deviationBps, bind_ok, i128Mul_ok, checkI128_ok, i128Div_ok] at h
  obtain ⟨_, hdiff, _, ⟨_, rfl⟩, _, ⟨_, rfl⟩, _, _, rfl⟩ := h
  rw [priceDiff_ok hdiff, Int.tdiv_eq_ediv_of_nonneg (by positivity)]

theorem checkDeviation_ok (h : checkDeviation s pair caller price = .ok ())
    (hp : prevPrice s pair caller = some oldPrice) (hne : oldPrice ≠ 0) :
    |price - oldPrice| * 10000 / |oldPrice| ≤ getMaxDeviationBps s := by
  rw [checkDeviation, hp] at h
  simp only [if_pos hne, bind_ok, require_ok] at h
  obtain ⟨d, hd, hle⟩ := h
  rw [← deviationBps_ok hd]
  exact not_lt.mp hle

/-- The feed carries the sequence stored beside it, and the time of an earlier call. -/
structure Dated (t : History own) (s : State) (pair : Symbol) (f : PriceFeed) : Prop where
  sequence : s.sequence.get pair = some f.sequence
  time : ∃ e ∈ t, f.updatedAt = e.input.1.timestamp

theorem run_dated (h : (machine own).Run .fresh t s) :
    ∀ pair f, s.feed.get pair = some f → Dated t s pair f := by
  apply h.invariant (P := fun t s => ∀ pair f, s.feed.get pair = some f → Dated t s pair f)
  · exact nofun
  · intro t s i s' o ih hs pair f hf
    obtain ⟨env, c⟩ := i
    have hold (hfeed : s'.feed.get pair = s.feed.get pair)
        (hseq : s'.sequence.get pair = s.sequence.get pair) :
        Dated (⟨s, (env, c), o, s'⟩ :: t) s' pair f := by
      obtain ⟨hsequence, e, he, htime⟩ := ih pair f (hfeed.symm.trans hf)
      exact ⟨hseq.trans hsequence, e, List.mem_cons_of_mem _ he, htime⟩
    have hch : Changes env s s' c := (invoke_ok hs).1
    cases hch with
    | manage _ hfeed hseq _ => exact hold (by rw [hfeed]) (by rw [hseq])
    | update caller pair' price sequence hu =>
      by_cases hsingle : getSources s pair' = []
      · obtain ⟨_, hfeed, hseq⟩ := hu.single hsingle
        by_cases hp : pair = pair'
        · subst hp
          rw [hfeed, Store.get_set_self] at hf
          cases hf
          exact ⟨by rw [hseq, Store.get_set_self], _, List.mem_cons_self, rfl⟩
        · exact hold (by rw [hfeed, Store.get_set_of_ne _ _ hp])
            (by rw [hseq, Store.get_set_of_ne _ _ hp])
      · obtain ⟨hfeed, hseq⟩ := hu.multi hsingle
        exact hold (by rw [hfeed]) (by rw [hseq])

/-- A publication follows the feed that it was compared with. -/
theorem Updates.follows {sequence : Nat} (h : Updates env caller pair price sequence s s')
    (hsingle : getSources s pair = []) (hf : s.feed.get pair = some f) (hd : Dated t s pair f)
    (hle : f.updatedAt ≤ env.timestamp)
    (hcmp : ∀ data, s.sourceData.get (pair, caller) = some data → data.price = f.price) :
    Follows (getMaxDeviationBps s) f ⟨pair, price, priceDecimals, env.timestamp, sequence⟩ := by
  have hprev : prevPrice s pair caller = some f.price := by
    unfold prevPrice
    cases hdata : s.sourceData.get (pair, caller) with
    | none => rw [if_pos hsingle, hf, Option.map_some]
    | some data => exact congrArg some (hcmp data hdata)
  refine ⟨fun hne => checkDeviation_ok h.checked hprev hne, ?_, hle⟩
  have hnewer := (h.single hsingle).newer
  rwa [Store.getD, hd.sequence, Option.getD_some] at hnewer

/-- In a run whose publishers all compare with the feed, no two consecutive canonical prices are
further apart than the deviation in force. -/
theorem feeds_guarded (h : (machine own).Run .fresh t s) (ht : TimeOrdered t)
    (hcmp : ∀ e ∈ t, ComparesWithFeed e) : ∀ e ∈ t, FeedGuarded e := by
  intro e he pair f hf
  obtain ⟨later, earlier, rfl⟩ := List.append_of_mem he
  obtain ⟨hrun, hs⟩ := h.upTo
  have hdated := run_dated hrun pair f hf
  obtain ⟨p, hp, htime⟩ := hdated.time
  have hle := (timeOrdered_cons.mp ht.suffix).1 p hp
  have hcmp := hcmp e he
  obtain ⟨pre, ⟨env, c⟩, o, post⟩ := e
  have hch : Changes env pre post c := (invoke_ok hs).1
  have hkeep (hfeed : post.feed.get pair = pre.feed.get pair)
      (hno : ¬ Publishes pair (⟨pre, (env, c), o, post⟩ : Event State (Env own × Call) Unit)) :
      ∃ f', post.feed.get pair = some f' ∧
        (Publishes pair ⟨pre, (env, c), o, post⟩ ∧ Follows (getMaxDeviationBps pre) f f' ∨
          ¬ Publishes pair ⟨pre, (env, c), o, post⟩ ∧ f' = f) :=
    ⟨f, hfeed.trans hf, .inr ⟨hno, rfl⟩⟩
  cases hch with
  | manage hc hfeed _ _ =>
    refine hkeep (by rw [hfeed]) ?_
    rintro ⟨_, caller, price, sequence, rfl⟩
    cases hc
  | update caller pair' price sequence hu =>
    by_cases hsingle : getSources pre pair' = []
    · have hfeed := (hu.single hsingle).feed
      by_cases hpair : pair = pair'
      · subst hpair
        refine ⟨_, by rw [hfeed, Store.get_set_self], .inl ⟨⟨hsingle, _, _, _, rfl⟩, ?_⟩⟩
        exact hu.follows hsingle hf hdated (htime ▸ hle)
          fun data hdata => hcmp caller pair price sequence rfl hsingle data f hdata hf
      · refine hkeep (by rw [hfeed, Store.get_set_of_ne _ _ hpair]) ?_
        rintro ⟨_, _, _, _, hin⟩
        cases hin
        exact hpair rfl
    · refine hkeep (by rw [(hu.multi hsingle).1]) ?_
      rintro ⟨hempty, _, _, _, hin⟩
      cases hin
      exact hsingle hempty

def ninetyFive : I128 := ⟨95, by decide⟩

/-- The operator raises the price that the admin set. -/
def raisedCalls : List (Env ⟨0⟩ × Call) :=
  startCalls ++ [(.signed ⟨0⟩ 6, .updatePrice ⟨2⟩ [1] hundredFive 2)]

theorem raised_compares : ∀ e ∈ (perform raisedCalls).1, ComparesWithFeed e := by
  intro e he caller pair price sequence hin _ data f hdata hf
  cases he with
  | head =>
    cases hin
    cases hdata
  | tail _ he =>
    cases he with
    | head =>
      cases hin
      cases hdata
    | tail _ he =>
      cases he with
      | head => cases hin
      | tail _ he => cases he

theorem feeds_guarded_raised :
    TimeOrdered (perform raisedCalls).1 ∧ ∀ e ∈ (perform raisedCalls).1, FeedGuarded e := by
  have ht : TimeOrdered (perform raisedCalls).1 := by decide
  exact ⟨ht, feeds_guarded ((machine ⟨0⟩).run_replay .fresh raisedCalls) ht raised_compares⟩

/-- The admin goes five percent below its own last price, which the operator had raised. -/
theorem writers_jump :
    ¬ ∀ (t : History ⟨0⟩) s, (machine ⟨0⟩).Run .fresh t s → TimeOrdered t →
      ∀ e ∈ t, FeedGuarded e := by
  intro hall
  have hrun := (machine ⟨0⟩).run_replay .fresh
    (raisedCalls ++ [(.signed ⟨0⟩ 7, .updatePrice ⟨1⟩ [1] ninetyFive 3)])
  have hguarded := hall _ _ hrun (by decide) _ List.mem_cons_self
  obtain ⟨f', hf', hfollows⟩ := hguarded [1] ⟨[1], 105, 7, 6, 2⟩ rfl
  cases hf'
  rcases hfollows with ⟨_, hfollows⟩ | ⟨hno, _⟩
  · have hdeviation := hfollows.deviation (by decide)
    revert hdeviation
    decide
  · exact hno ⟨rfl, _, _, _, rfl⟩

end Shelterflex.OraclePriceFeeds
