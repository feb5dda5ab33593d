import Shelterflex.OraclePriceFeeds.Median
import Shelterflex.OraclePriceFeeds.Updates

/-! Whether a feed that is not stale has a price. -/

namespace Shelterflex.OraclePriceFeeds
open Lib
set_option autoImplicit true

/-- A price is returned exactly while the feed is not stale, and else a declared error. -/
structure PriceAgrees (env : Env own) (pair : Symbol) (s : State) : Prop where
  fresh : isStale env pair s = false ↔ ∃ feed, getPrice env pair s = .ok feed
  declared : ∀ f, getPrice env pair s = .error f →
    f = .err .noQuorum ∨ f = .err .priceTooStale ∨ f = .err .unknownPair

def freshPrices (env : Env own) (pair : Symbol) (s : State) : List Int :=
  (getSources s pair).filterMap (freshPrice env s pair)

def getQuorum (s : State) (pair : Symbol) : Nat := s.quorum.getD pair defaultQuorum

/-- The prices of the registered sources, if a quorum of them is fresh, have a median. -/
def HasMedian (env : Env own) (pair : Symbol) (s : State) : Prop :=
  getSources s pair = [] ∨ (freshPrices env pair s).length < getQuorum s pair ∨
    (freshPrices env pair s).length % 2 = 1 ∨ MiddleFits (freshPrices env pair s).mergeSort

theorem sourceData_bounded (h : (machine own).Reachable .fresh s) :
    ∀ key data, s.sourceData.get key = some data → InI128 data.price := by
  apply h.invariant (P := fun s => ∀ key data, s.sourceData.get key = some data →
    InI128 data.price)
  · exact nofun
  · intro s i s' o ih hs key data hdata
    obtain ⟨env, c⟩ := i
    have hch : Changes env s s' c := (invoke_ok hs).1
    cases hch with
    | manage _ _ _ hsame =>
      rw [hsame] at hdata
      exact ih key data hdata
    | update caller pair price sequence hu =>
      rw [hu.sourceData, Store.get_set] at hdata
      split at hdata
      · cases hdata
        exact price.2
      · exact ih key data hdata

theorem freshPrices_bounded (h : (machine own).Reachable .fresh s) :
    ∀ v ∈ freshPrices env pair s, InI128 v := by
  intro v hv
  obtain ⟨src, _, hsrc⟩ := List.mem_filterMap.mp hv
  unfold freshPrice at hsrc
  split at hsrc
  · rename_i data hdata
    split at hsrc
    · cases hsrc
      exact sourceData_bounded h _ data hdata
    · cases hsrc
  · cases hsrc

/-- The two walks over the sources count alike. -/
theorem freshCount_eq (env : Env own) (s : State) (pair : Symbol) (sources : List Address)
    (n : Nat) :
    sources.foldl (countFresh env s pair) n =
      n + (sources.filterMap (freshPrice env s pair)).length := by
  induction sources generalizing n with
  | nil => rfl
  | cons src sources ih =>
    rw [List.foldl_cons, ih, List.filterMap_cons, freshPrice, countFresh]
    cases s.sourceData.get (pair, src) with
    | none => rfl
    | some data =>
      simp only
      split
      · rw [List.length_cons]
        omega
      · rfl

section
variable {s : State}

theorem isStale_multi (env : Env own) (h : getSources s pair ≠ []) :
    isStale env pair s = decide ((freshPrices env pair s).length < getQuorum s pair) := by
  rw [isStale, if_pos h]
  simp only [freshCount_eq, Nat.zero_add]
  rfl

theorem getPrice_multi (env : Env own) (h : getSources s pair ≠ []) :
    getPrice env pair s = do
    require (¬ (freshPrices env pair s).length < getQuorum s pair) .noQuorum
    let aggregatedPrice ← median (freshPrices env pair s)
    return ⟨pair, aggregatedPrice, priceDecimals, env.timestamp, 0⟩ := by
  rw [getPrice, if_pos h]
  rfl

theorem agrees_single {env : Env own} (h : getSources s pair = []) : PriceAgrees env pair s := by
  have hprice : getPrice env pair s = do
      let feed ← okOr (s.feed.get pair) .unknownPair
      require (¬ getStalenessThreshold s < env.timestamp - feed.updatedAt) .priceTooStale
      return feed := by
    rw [getPrice, if_neg (not_not.mpr h), getPriceUnsafe]
  cases hf : s.feed.get pair with
  | none =>
    have hstale : isStale env pair s = true := by
      rw [isStale, if_neg (not_not.mpr h), hf]
    rw [hf] at hprice
    refine ⟨iff_of_false (by rw [hstale]; nofun) fun ⟨feed, hok⟩ => ?_, fun f hfault => ?_⟩
    · cases hprice.symm.trans hok
    · cases hprice.symm.trans hfault
      exact .inr (.inr rfl)
  | some feed =>
    have hstale : isStale env pair s =
        decide (getStalenessThreshold s < env.timestamp - feed.updatedAt) := by
      rw [isStale, if_neg (not_not.mpr h), hf]
    rw [hf] at hprice
    by_cases hlate : getStalenessThreshold s < env.timestamp - feed.updatedAt
    · have hprice := hprice.trans (require_bind_of_not (not_not.mpr hlate) _)
      refine ⟨iff_of_false ?_ fun ⟨feed, hok⟩ => ?_, fun f hfault => ?_⟩
      · rw [hstale, decide_eq_true hlate]
        nofun
      · cases hprice.symm.trans hok
      · cases hprice.symm.trans hfault
        exact .inr (.inl rfl)
    · have hprice := hprice.trans (require_bind_of hlate _)
      refine ⟨iff_of_true (hstale.trans (decide_eq_false hlate)) ⟨feed, hprice⟩,
        fun f hfault => ?_⟩
      cases hprice.symm.trans hfault

end

/-- With sources the two agree exactly when there is no quorum or there is a median. -/
theorem price_agrees_iff (h : (machine own).Reachable .fresh s) (env : Env own) (pair : Symbol) :
    PriceAgrees env pair s ↔ HasMedian env pair s := by
  by_cases hs : getSources s pair = []
  · exact iff_of_true (agrees_single hs) (.inl hs)
  have hstale := isStale_multi env hs
  have hprice := getPrice_multi env hs
  by_cases hq : (freshPrices env pair s).length < getQuorum s pair
  · have hprice := hprice.trans (require_bind_of_not (not_not.mpr hq) _)
    refine iff_of_true ⟨iff_of_false ?_ fun ⟨feed, hok⟩ => ?_, fun f hfault => ?_⟩ (.inr (.inl hq))
    · rw [hstale, decide_eq_true hq]
      nofun
    · cases hprice.symm.trans hok
    · cases hprice.symm.trans hfault
      exact .inl rfl
  have hfresh : isStale env pair s = false := hstale.trans (decide_eq_false hq)
  have hprice := hprice.trans (require_bind_of hq _)
  have hbound : ∀ v ∈ freshPrices env pair s, v ≤ i128Max := fun v hv =>
    le_i128Max (freshPrices_bounded h v hv)
  have hmedian := median_eq hbound
  have hlen : (freshPrices env pair s).length = (freshPrices env pair s).mergeSort.length :=
    (List.length_mergeSort _).symm
  have hmiddle : (∃ m, median (freshPrices env pair s) = .ok m) ↔
      (freshPrices env pair s).length % 2 = 1 ∨ MiddleFits (freshPrices env pair s).mergeSort := by
    rw [hmedian, hlen]
    exact middle_ok
  have hcond : HasMedian env pair s ↔ ∃ m, median (freshPrices env pair s) = .ok m := by
    rw [hmiddle, HasMedian, or_iff_right hs, or_iff_right hq]
  rw [hcond]
  constructor
  · intro hagrees
    obtain ⟨feed, hok⟩ := hagrees.fresh.mp hfresh
    obtain ⟨m, hm, _⟩ := bind_ok.mp (hprice.symm.trans hok)
    exact ⟨m, hm⟩
  · rintro ⟨m, hm⟩
    have hok := hprice.trans (bind_of_ok hm _)
    refine ⟨iff_of_true hfresh ⟨_, hok⟩, fun f hfault => ?_⟩
    cases hok.symm.trans hfault

/-- Two sources with fresh prices. -/
def sourcedCalls : List (Env ⟨0⟩ × Call) :=
  [(.signed ⟨0⟩ 0, .init ⟨1⟩ ⟨2⟩ 600 500), (.signed ⟨0⟩ 1, .addSource ⟨1⟩ [1] ⟨5⟩),
    (.signed ⟨0⟩ 1, .addSource ⟨1⟩ [1] ⟨6⟩), (.signed ⟨0⟩ 2, .updatePrice ⟨5⟩ [1] hundred 1),
    (.signed ⟨0⟩ 3, .updatePrice ⟨6⟩ [1] hundredFive 1)]

theorem price_agrees_iff_sourced :
    PriceAgrees (.signed ⟨0⟩ 4) [1] (perform sourcedCalls).2 ↔
      HasMedian (.signed ⟨0⟩ 4) [1] (perform sourcedCalls).2 :=
  price_agrees_iff ⟨_, (machine ⟨0⟩).run_replay .fresh sourcedCalls⟩ (.signed ⟨0⟩ 4) [1]

/-- With a quorum of nobody a pair without prices is not stale, and the median underflows. -/
theorem quorum_zero_traps :
    ¬ ∀ s, (machine ⟨0⟩).Reachable .fresh s → ∀ (env : Env ⟨0⟩) pair, PriceAgrees env pair s := by
  intro hall
  have hrun := (machine ⟨0⟩).run_replay .fresh
    [(.signed ⟨0⟩ 0, .init ⟨1⟩ ⟨2⟩ 600 500), (.signed ⟨0⟩ 1, .addSource ⟨1⟩ [1] ⟨5⟩),
      (.signed ⟨0⟩ 1, .setQuorum ⟨1⟩ [1] 0)]
  obtain ⟨feed, hok⟩ := (hall _ ⟨_, hrun⟩ (.signed ⟨0⟩ 2) [1]).fresh.mp rfl
  cases hok

end Shelterflex.OraclePriceFeeds
