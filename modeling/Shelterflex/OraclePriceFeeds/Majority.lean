import Shelterflex.Lib.Middle
import Shelterflex.OraclePriceFeeds.Staleness

/-! How far a minority of the prices moves the median. -/

namespace Shelterflex.OraclePriceFeeds
open Lib
set_option autoImplicit true

/-- The median of a list: the middle of its values in order, which no minority moves. -/
structure IsMedian (values : List Int) (m : Int) : Prop where
  odd : values.length % 2 = 1 → values.mergeSort[values.length / 2]? = some m
  even : values.length % 2 = 0 → ∃ low high, values.mergeSort[values.length / 2 - 1]? = some low ∧
    values.mergeSort[values.length / 2]? = some high ∧ m = (low + high).tdiv 2
  perm : ∀ values' : List Int, values'.Perm values → median values' = .ok m
  between : ∀ lo hi, values.min? = some lo → values.max? = some hi → lo ≤ m ∧ m ≤ hi
  majority : ∀ lo hi : Int, (values.length < 2 * values.countP fun v => lo ≤ v ∧ v ≤ hi) →
    lo ≤ m ∧ m ≤ hi

theorem mergeSort_congr {values values' : List Int} (h : values'.Perm values) :
    values'.mergeSort = values.mergeSort := by
  apply List.Perm.eq_of_pairwise _ (mergeSort_sorted values') (mergeSort_sorted values)
  · exact ((List.mergeSort_perm values' _).trans h).trans (List.mergeSort_perm values _).symm
  · exact fun a b _ _ => le_antisymm

theorem mean_mem {low high lo hi : Int} (hlow : lo ≤ low ∧ low ≤ hi)
    (hhigh : lo ≤ high ∧ high ≤ hi) :
    lo ≤ (low + high).tdiv 2 ∧ (low + high).tdiv 2 ≤ hi := by
  constructor
  · calc lo = (lo * 2).tdiv 2 := (Int.mul_tdiv_cancel lo two_ne_zero).symm
      _ ≤ (low + high).tdiv 2 := Int.tdiv_le_tdiv two_pos (by omega)
  · calc (low + high).tdiv 2 ≤ (hi * 2).tdiv 2 := Int.tdiv_le_tdiv two_pos (by omega)
      _ = hi := Int.mul_tdiv_cancel hi two_ne_zero

/-- The middle values of the sorted list, of which the result is the mean. -/
theorem middle_spec {sorted : List Int} (h : middle sorted.length sorted = .ok m) :
    (sorted.length % 2 = 1 ∧ sorted[sorted.length / 2]? = some m) ∨
      (sorted.length % 2 = 0 ∧ 0 < sorted.length ∧ ∃ low high,
        sorted[sorted.length / 2 - 1]? = some low ∧ sorted[sorted.length / 2]? = some high ∧
        m = (low + high).tdiv 2) := by
  unfold middle at h
  split at h
  · exact .inl ⟨‹_›, expect_ok.mp h⟩
  · rename_i hodd
    simp only [bind_ok, u32Sub_ok, expect_ok, i128Add_ok, i128Div_ok] at h
    obtain ⟨_, ⟨hle, rfl⟩, low, hlow, high, hhigh, _, ⟨_, rfl⟩, _, _, rfl⟩ := h
    exact .inr ⟨by omega, by omega, low, high, hlow, hhigh, rfl⟩

theorem middle_mem {sorted : List Int} (hs : sorted.Pairwise (· ≤ ·))
    (h : middle sorted.length sorted = .ok m)
    (hmaj : sorted.length < 2 * sorted.countP fun v => lo ≤ v ∧ v ≤ hi) : lo ≤ m ∧ m ≤ hi := by
  rcases middle_spec h with ⟨_, hm⟩ | ⟨_, _, low, high, hlow, hhigh, rfl⟩
  · exact middle_mem_of_majority hs hm (by omega) (by omega) hmaj
  · exact mean_mem (middle_mem_of_majority hs hlow (by omega) (by omega) hmaj)
      (middle_mem_of_majority hs hhigh (by omega) (by omega) hmaj)

theorem median_mem {values : List Int} (hmax : ∀ v ∈ values, v ≤ i128Max)
    (h : median values = .ok m)
    (hmaj : values.length < 2 * values.countP fun v => lo ≤ v ∧ v ≤ hi) : lo ≤ m ∧ m ≤ hi := by
  have hperm : values.mergeSort.Perm values := List.mergeSort_perm values _
  rw [median_eq hmax, ← hperm.length_eq] at h
  rw [← hperm.length_eq, ← hperm.countP_eq] at hmaj
  exact middle_mem (mergeSort_sorted values) h hmaj

theorem median_spec {values : List Int} (hv : ∀ v ∈ values, InI128 v)
    (hfit : values.length % 2 = 1 ∨ MiddleFits values.mergeSort) :
    ∃ m, median values = .ok m ∧ IsMedian values m := by
  have hmax : ∀ v ∈ values, v ≤ i128Max := fun v hmem => le_i128Max (hv v hmem)
  have hlen : values.mergeSort.length = values.length := List.length_mergeSort values
  rw [← hlen] at hfit
  obtain ⟨m, hm⟩ := middle_ok.mpr hfit
  have hmedian : median values = .ok m := by rw [median_eq hmax, ← hlen, hm]
  have hspec := middle_spec hm
  rw [hlen] at hspec
  refine ⟨m, hmedian, ?_⟩
  constructor
  · intro hodd
    rcases hspec with ⟨_, h⟩ | ⟨heven, _⟩
    · exact h
    · omega
  · intro heven
    rcases hspec with ⟨hodd, _⟩ | ⟨_, _, h⟩
    · omega
    · exact h
  · intro values' hperm
    have hmax' : ∀ v ∈ values', v ≤ i128Max := fun v hmem => hmax v (hperm.subset hmem)
    rw [median_eq hmax', hperm.length_eq, mergeSort_congr hperm, ← hlen, hm]
  · intro lo hi hlo hhi
    apply median_mem hmax hmedian
    have hall : values.countP (fun v => lo ≤ v ∧ v ≤ hi) = values.length := by
      apply List.countP_eq_length.mpr
      intro v hmem
      exact decide_eq_true ⟨(List.min?_eq_some_iff.mp hlo).2 v hmem,
        (List.max?_eq_some_iff.mp hhi).2 v hmem⟩
    have hpos := List.length_pos_of_mem (List.min?_eq_some_iff.mp hlo).1
    omega
  · exact fun lo hi => median_mem hmax hmedian

/-! The sources -/

/-- The sources whose prices are fresh. -/
def reporting (env : Env own) (pair : Symbol) (s : State) : List Address :=
  (getSources s pair).filter fun src => (freshPrice env s pair src).isSome

theorem length_freshPrices (env : Env own) (pair : Symbol) (s : State) :
    (freshPrices env pair s).length = (reporting env pair s).length := by
  rw [freshPrices, List.length_filterMap_eq_countP, reporting, List.countP_eq_length_filter]

theorem countP_fresh_le {env : Env own} {bad : Address → Bool}
    (h : ∀ src ∈ getSources s pair, bad src = false → ∀ p, freshPrice env s pair src = some p →
      lo ≤ p ∧ p ≤ hi) :
    (reporting env pair s).countP (fun src => !bad src) ≤
      (freshPrices env pair s).countP fun p => lo ≤ p ∧ p ≤ hi := by
  rw [reporting, List.countP_filter, freshPrices, List.countP_filterMap]
  apply List.countP_mono_left
  intro src hmem hsrc
  rw [Bool.and_eq_true, Bool.not_eq_true'] at hsrc
  obtain ⟨p, hp⟩ := Option.isSome_iff_exists.mp hsrc.2
  rw [hp]
  exact decide_eq_true (h src hmem hsrc.1 p hp)

/-- Fewer than half of the fresh sources leave the price in the range of the others. -/
theorem price_mem {env : Env own} {bad : Address → Bool} (h : (machine own).Reachable .fresh s)
    (hs : getSources s pair ≠ []) (hok : getPrice env pair s = .ok feed)
    (hminority : 2 * (reporting env pair s).countP bad < (reporting env pair s).length)
    (hrange : ∀ src ∈ getSources s pair, bad src = false → ∀ p,
      freshPrice env s pair src = some p → lo ≤ p ∧ p ≤ hi) :
    lo ≤ feed.price ∧ feed.price ≤ hi := by
  have hbound : ∀ v ∈ freshPrices env pair s, v ≤ i128Max := fun v hv =>
    le_i128Max (freshPrices_bounded h v hv)
  rw [getPrice_multi env hs] at hok
  simp only [bind_ok, pure_ok] at hok
  obtain ⟨_, _, m, hm, rfl⟩ := hok
  apply median_mem hbound hm
  have hle := countP_fresh_le hrange
  have hsplit := List.length_eq_countP_add_countP bad (l := reporting env pair s)
  simp only [Bool.not_eq_true, Bool.decide_eq_false] at hsplit
  rw [length_freshPrices]
  omega

/-- The median is that of the prices, whatever their order, and a minority of the fresh sources
does not move the price out of the range of the others. -/
structure Resists (own : Address) : Prop where
  median : ∀ values : List Int, (∀ v ∈ values, InI128 v) →
    (values.length % 2 = 1 ∨ MiddleFits values.mergeSort) →
    ∃ m, median values = .ok m ∧ IsMedian values m
  price : ∀ s, (machine own).Reachable .fresh s →
    ∀ (env : Env own) pair feed (bad : Address → Bool) lo hi,
    getSources s pair ≠ [] → getPrice env pair s = .ok feed →
    2 * (reporting env pair s).countP bad < (reporting env pair s).length →
    (∀ src ∈ getSources s pair, bad src = false → ∀ p, freshPrice env s pair src = some p →
      lo ≤ p ∧ p ≤ hi) →
    lo ≤ feed.price ∧ feed.price ≤ hi

theorem manipulation_resisted (own : Address) : Resists own where
  median _ := median_spec
  price _ h _ _ _ _ _ _ hs hok := price_mem h hs hok

def sourcesOfThree : List (Env ⟨0⟩ × Call) :=
  [(.signed ⟨0⟩ 0, .init ⟨1⟩ ⟨2⟩ 600 500), (.signed ⟨0⟩ 1, .addSource ⟨1⟩ [1] ⟨5⟩),
    (.signed ⟨0⟩ 1, .addSource ⟨1⟩ [1] ⟨6⟩), (.signed ⟨0⟩ 1, .addSource ⟨1⟩ [1] ⟨7⟩)]

/-- One source of three submits the largest price there is. -/
def liedCalls : List (Env ⟨0⟩ × Call) :=
  sourcesOfThree ++ [(.signed ⟨0⟩ 2, .updatePrice ⟨5⟩ [1] hundred 1),
    (.signed ⟨0⟩ 3, .updatePrice ⟨6⟩ [1] hundredFive 1),
    (.signed ⟨0⟩ 4, .updatePrice ⟨7⟩ [1] ⟨i128Max, by decide⟩ 1)]

theorem manipulation_resisted_lied : ∃ feed,
    getPrice (.signed ⟨0⟩ 4) [1] (perform liedCalls).2 = .ok feed ∧
      100 ≤ feed.price ∧ feed.price ≤ 105 := by
  have hsources : getSources (perform liedCalls).2 [1] = [⟨5⟩, ⟨6⟩, ⟨7⟩] := by decide
  have hprice : getPrice (.signed ⟨0⟩ 4) [1] (perform liedCalls).2 =
      .ok ⟨[1], 105, priceDecimals, 4, 0⟩ := by rfl
  refine ⟨_, hprice, (manipulation_resisted ⟨0⟩).price (perform liedCalls).2
    ⟨_, (machine ⟨0⟩).run_replay .fresh liedCalls⟩ _ [1] _ (· = ⟨7⟩) 100 105 ?_ hprice
    (by decide) ?_⟩
  · rw [hsources]
    exact List.cons_ne_nil _ _
  · intro src hsrc hbad p hp
    rw [hsources] at hsrc
    simp only [List.mem_cons, List.not_mem_nil, or_false] at hsrc
    rcases hsrc with rfl | rfl | rfl
    · cases hp
      decide
    · cases hp
      decide
    · cases hbad

/-- Two sources of three agreed on a price that has become stale. -/
def outdatedCalls : List (Env ⟨0⟩ × Call) :=
  sourcesOfThree ++ [(.signed ⟨0⟩ 2, .updatePrice ⟨5⟩ [1] hundred 1),
    (.signed ⟨0⟩ 3, .updatePrice ⟨6⟩ [1] hundred 1),
    (.signed ⟨0⟩ 1000, .updatePrice ⟨7⟩ [1] hundredFive 1)]

theorem fresh_minority_moves :
    ¬ ∀ s, (machine ⟨0⟩).Reachable .fresh s →
      ∀ (env : Env ⟨0⟩) pair feed (bad : Address → Bool) (lo hi : Int),
      getSources s pair ≠ [] → getPrice env pair s = .ok feed →
      2 * (getSources s pair).countP bad < (getSources s pair).length →
      (∀ src ∈ getSources s pair, bad src = false →
        ∃ data, s.sourceData.get (pair, src) = some data ∧ lo ≤ data.price ∧ data.price ≤ hi) →
      lo ≤ feed.price ∧ feed.price ≤ hi := by
  intro hall
  have hsources : getSources (perform outdatedCalls).2 [1] = [⟨5⟩, ⟨6⟩, ⟨7⟩] := by decide
  have hprice : getPrice (.signed ⟨0⟩ 1000) [1] (perform outdatedCalls).2 =
      .ok ⟨[1], 105, priceDecimals, 1000, 0⟩ := by rfl
  have hmoved := hall (perform outdatedCalls).2
    ⟨_, (machine ⟨0⟩).run_replay .fresh outdatedCalls⟩ _ [1] _ (· = ⟨7⟩) 100 100
    (by rw [hsources]; exact List.cons_ne_nil _ _) hprice (by decide) ?_
  · exact absurd hmoved.2 (by decide)
  · intro src hsrc hbad
    rw [hsources] at hsrc
    simp only [List.mem_cons, List.not_mem_nil, or_false] at hsrc
    rcases hsrc with rfl | rfl | rfl
    · exact ⟨_, rfl, by decide, by decide⟩
    · exact ⟨_, rfl, by decide, by decide⟩
    · cases hbad

end Shelterflex.OraclePriceFeeds
