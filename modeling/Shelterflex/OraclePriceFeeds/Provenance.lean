import Shelterflex.Lib.Since
import Shelterflex.OraclePriceFeeds.Majority

/-! Where a price comes from: the calls of a run that stand behind it. -/

namespace Shelterflex.OraclePriceFeeds
open Lib
set_option autoImplicit true

abbrev Step (own : Address) := Event State (Env own × Call) Unit

/-- What a call records as the price of a source. -/
def reportBy (pair : Symbol) (src : Address) (e : Step own) : Option SourceData :=
  match e.input.2 with
  | .updatePrice caller pair' price sequence =>
    if pair = pair' ∧ src = caller then some ⟨price.1, e.input.1.timestamp, sequence⟩ else none
  | _ => none

/-- The feed that a call announces, which it does while the pair has no sources. -/
def announcedBy (pair : Symbol) (e : Step own) : Option PriceFeed :=
  match e.input.2 with
  | .updatePrice _ pair' price sequence =>
    if pair = pair' ∧ getSources e.pre pair' = [] then
      some ⟨pair', price.1, priceDecimals, e.input.1.timestamp, sequence⟩
    else none
  | _ => none

/-- A source reported a price, and signed the report. -/
structure Reported (pair : Symbol) (src : Address) (data : SourceData) (e : Step own) : Prop where
  written : reportBy pair src e = some data
  signed : e.input.1.authorized src = true

/-- The admin or the operator announced a price, and signed it. -/
structure Announced (pair : Symbol) (feed : PriceFeed) (e : Step own) : Prop where
  written : announcedBy pair e = some feed
  signed : ∃ caller, (e.pre.admin = some caller ∨ e.pre.operator = some caller) ∧
    e.input.1.authorized caller = true

def Reports (pair : Symbol) (src : Address) (e : Step own) : Prop := (reportBy pair src e).isSome

def Announces (pair : Symbol) (e : Step own) : Prop := (announcedBy pair e).isSome

section
variable {env : Env own}

theorem reportBy_update (price : I128) (sequence : Nat) :
    reportBy pair src ⟨s, (env, .updatePrice caller pair' price sequence), o, s'⟩ =
      if pair = pair' ∧ src = caller then some ⟨price.1, env.timestamp, sequence⟩ else none := rfl

theorem announcedBy_update (price : I128) (sequence : Nat) :
    announcedBy pair ⟨s, (env, .updatePrice caller pair' price sequence), o, s'⟩ =
      if pair = pair' ∧ getSources s pair' = [] then
        some ⟨pair', price.1, priceDecimals, env.timestamp, sequence⟩ else none := rfl

theorem Changes.sourceData (h : Changes env s s' c) (pair : Symbol) (src : Address) :
    s'.sourceData.get (pair, src) =
      ((reportBy pair src ⟨s, (env, c), (), s'⟩).map some).getD
        (s.sourceData.get (pair, src)) := by
  cases h with
  | manage hc _ _ hd =>
    rw [hd]
    cases c with
    | updatePrice _ _ _ _ => cases hc
    | _ => rfl
  | update caller pair' price sequence h =>
    rw [h.sourceData, Store.get_set, reportBy_update]
    by_cases hk : pair = pair' ∧ src = caller
    · rw [if_pos (Prod.ext hk.1 hk.2), if_pos hk]
      rfl
    · rw [if_neg fun he => hk (Prod.mk.inj he), if_neg hk]
      rfl

theorem Changes.feed (h : Changes env s s' c) (pair : Symbol) :
    s'.feed.get pair =
      ((announcedBy pair ⟨s, (env, c), (), s'⟩).map some).getD (s.feed.get pair) := by
  cases h with
  | manage hc hf _ _ =>
    rw [hf]
    cases c with
    | updatePrice _ _ _ _ => cases hc
    | _ => rfl
  | update caller pair' price sequence h =>
    rw [announcedBy_update]
    by_cases hs : getSources s pair' = []
    · rw [(h.single hs).feed, Store.get_set]
      by_cases hp : pair = pair'
      · rw [if_pos hp, if_pos ⟨hp, hs⟩]
        rfl
      · rw [if_neg hp, if_neg fun hk => hp hk.1]
        rfl
    · rw [(h.multi hs).1, if_neg fun hk => hs hk.2]
      rfl

end

/-- Who may report: the admin or the operator while there are no sources, else a source; and the
reporter has signed. -/
theorem updatePrice_signed {env : Env own} {sequence : Nat}
    (h : updatePrice env caller pair price sequence s = .ok s') :
    env.authorized caller = true ∧
      (getSources s pair = [] → s.admin = some caller ∨ s.operator = some caller) := by
  simp only [updatePrice, bind_ok] at h
  obtain ⟨_, hr, _⟩ := h
  rw [requireReporter] at hr
  split at hr
  · simp only [bind_ok, getAdmin, getOperator, expect_ok, requireAdminOrOperatorPermission,
      requireAuth_ok, require_ok] at hr
    obtain ⟨admin, hadmin, operator, hoperator, _, ha, hc⟩ := hr
    refine ⟨ha, fun _ => ?_⟩
    rcases hc with rfl | hc
    · exact .inl hadmin
    · exact .inr (hoperator.trans hc)
  · rename_i hs
    simp only [bind_ok, require_ok, requireAuth_ok] at hr
    obtain ⟨_, _, ha⟩ := hr
    exact ⟨ha, fun h => absurd h hs⟩

theorem committed_reported {e : Step own}
    (h : (machine own).step e.pre e.input = some (e.post, e.output))
    (hw : reportBy pair src e = some data) : Reported pair src data e := by
  refine ⟨hw, ?_⟩
  obtain ⟨s, ⟨env, c⟩, o, s'⟩ := e
  rw [reportBy] at hw
  split at hw
  · rename_i caller pair' price sequence hc
    split at hw
    · rename_i hk
      cases hk.1
      cases hk.2
      cases (show c = _ from hc)
      obtain ⟨_, hs, _⟩ := commit_some.mp h
      exact (updatePrice_signed hs).1
    · cases hw
  · cases hw

theorem committed_published {e : Step own}
    (h : (machine own).step e.pre e.input = some (e.post, e.output))
    (hw : announcedBy pair e = some feed) : Announced pair feed e := by
  refine ⟨hw, ?_⟩
  obtain ⟨s, ⟨env, c⟩, o, s'⟩ := e
  rw [announcedBy] at hw
  split at hw
  · rename_i caller pair' price sequence hc
    split at hw
    · rename_i hk
      cases (show c = _ from hc)
      obtain ⟨_, hs, _⟩ := commit_some.mp h
      obtain ⟨ha, hr⟩ := updatePrice_signed hs
      exact ⟨caller, hr hk.2, ha⟩
    · cases hw
  · cases hw

section
variable {t : History own}

theorem sourceData_iff (h : (machine own).Run .fresh t s) :
    s.sourceData.get (pair, src) = some data ↔
      Since (Reported pair src data) (Reports pair src) t := by
  rw [h.register_iff (fun s => s.sourceData.get (pair, src))
    (fun e => (reportBy pair src e).map some) rfl
    fun hs => (invoke_ok hs).1.sourceData pair src]
  constructor
  · intro hsince
    refine hsince.imp (fun e he hw => ?_) fun e _ hr => ?_
    · obtain ⟨_, hw, he'⟩ := Option.map_eq_some_iff.mp hw
      cases he'
      exact committed_reported (h.committed he).2 hw
    · simpa [Reports] using hr
  · intro hsince
    refine hsince.imp (fun e _ hr => ?_) fun e _ hw => ?_
    · rw [hr.written]
      rfl
    · simpa [Reports] using hw

theorem feed_iff (h : (machine own).Run .fresh t s) :
    s.feed.get pair = some feed ↔ Since (Announced pair feed) (Announces pair) t := by
  rw [h.register_iff (fun s => s.feed.get pair)
    (fun e => (announcedBy pair e).map some) rfl
    fun hs => (invoke_ok hs).1.feed pair]
  constructor
  · intro hsince
    refine hsince.imp (fun e he hw => ?_) fun e _ hr => ?_
    · obtain ⟨_, hw, he'⟩ := Option.map_eq_some_iff.mp hw
      cases he'
      exact committed_published (h.committed he).2 hw
    · simpa [Announces] using hr
  · intro hsince
    refine hsince.imp (fun e _ hr => ?_) fun e _ hw => ?_
    · rw [hr.written]
      rfl
    · simpa [Announces] using hw

end

theorem freshPrice_some {env : Env own} (h : freshPrice env s pair src = some p) :
    ∃ data, s.sourceData.get (pair, src) = some data ∧ data.price = p ∧
      env.timestamp ≤ data.timestamp + getStalenessThreshold s := by
  unfold freshPrice at h
  split at h
  · rename_i data hdata
    split at h
    · rename_i hfresh
      exact ⟨data, hdata, Option.some.inj h, by omega⟩
    · cases h
  · cases h

/-- The last report of a source that is registered and not bad, made within the threshold. -/
def Vouched (env : Env own) (bad : Address → Bool) (pair : Symbol) (t : History own) (s : State)
    (price : Int) : Prop :=
  ∃ src ∈ getSources s pair, bad src = false ∧ ∃ data, data.price = price ∧
    Since (Reported pair src data) (Reports pair src) t ∧
    env.timestamp ≤ data.timestamp + getStalenessThreshold s

/-- The fresh prices of the sources that are not bad. -/
def goodPrices (env : Env own) (bad : Address → Bool) (pair : Symbol) (s : State) : List Int :=
  ((getSources s pair).filter fun src => !bad src).filterMap (freshPrice env s pair)

section
variable {t : History own} {env : Env own} {bad : Address → Bool}

theorem mem_goodPrices : p ∈ goodPrices env bad pair s ↔
    ∃ src ∈ getSources s pair, bad src = false ∧ freshPrice env s pair src = some p := by
  simp only [goodPrices, List.mem_filterMap, List.mem_filter, Bool.not_eq_true', and_assoc]

theorem goodPrices_vouched (h : (machine own).Run .fresh t s)
    (hp : p ∈ goodPrices env bad pair s) : Vouched env bad pair t s p := by
  obtain ⟨src, hsrc, hgood, hfresh⟩ := mem_goodPrices.mp hp
  obtain ⟨data, hdata, hprice, hlate⟩ := freshPrice_some hfresh
  exact ⟨src, hsrc, hgood, data, hprice, (sourceData_iff h).mp hdata, hlate⟩

/-- A quorum of fresh sources has a good one among them, and a majority of good ones. -/
theorem goodPrices_majority (hq : getQuorum s pair ≤ (reporting env pair s).length)
    (hbad : 2 * (getSources s pair).countP bad < getQuorum s pair) :
    goodPrices env bad pair s ≠ [] ∧
      2 * (reporting env pair s).countP bad < (reporting env pair s).length := by
  have hle : (reporting env pair s).countP bad ≤ (getSources s pair).countP bad :=
    List.filter_sublist.countP_le
  refine ⟨fun hnil => ?_, by omega⟩
  have hall : ∀ src ∈ reporting env pair s, bad src = true := by
    intro src hsrc
    obtain ⟨hmem, hsome⟩ := List.mem_filter.mp hsrc
    obtain ⟨p, hp⟩ := Option.isSome_iff_exists.mp hsome
    by_contra hgood
    have hmem' : p ∈ goodPrices env bad pair s :=
      mem_goodPrices.mpr ⟨src, hmem, eq_false_of_ne_true hgood, hp⟩
    rw [hnil] at hmem'
    cases hmem'
  have hcount := List.countP_eq_length.mpr hall
  omega

end

/-- As long as fewer than half of a quorum of its sources are bad, a price lies between two fresh
ones that good sources have signed, whatever the bad ones report. Without sources it is the last
one that the admin or the operator has signed, and it is fresh. -/
theorem prices_vouched {env : Env own} (h : (machine own).Run .fresh t s)
    (hok : getPrice env pair s = .ok feed) :
    (getSources s pair = [] → Since (Announced pair feed) (Announces pair) t ∧
      env.timestamp ≤ feed.updatedAt + getStalenessThreshold s) ∧
    ∀ bad : Address → Bool, getSources s pair ≠ [] →
      2 * (getSources s pair).countP bad < getQuorum s pair →
      ∃ low high, Vouched env bad pair t s low ∧ Vouched env bad pair t s high ∧
        low ≤ feed.price ∧ feed.price ≤ high := by
  constructor
  · intro hs
    rw [getPrice, if_neg (not_not.mpr hs)] at hok
    simp only [getPriceUnsafe, bind_ok, okOr_ok, require_ok, pure_ok] at hok
    obtain ⟨_, hfeed, _, hfresh, rfl⟩ := hok
    exact ⟨(feed_iff h).mp hfeed, by omega⟩
  · intro bad hs hbad
    have hq : getQuorum s pair ≤ (reporting env pair s).length := by
      rw [getPrice_multi env hs] at hok
      simp only [bind_ok, require_ok] at hok
      obtain ⟨_, hq, _⟩ := hok
      rw [← length_freshPrices]
      exact not_lt.mp hq
    obtain ⟨hne, hminority⟩ := goodPrices_majority hq hbad
    obtain ⟨low, hlow⟩ := Option.isSome_iff_exists.mp (List.isSome_min?_of_ne_nil hne)
    obtain ⟨high, hhigh⟩ := Option.isSome_iff_exists.mp (List.isSome_max?_of_ne_nil hne)
    obtain ⟨hlowmem, hlowle⟩ := List.min?_eq_some_iff.mp hlow
    obtain ⟨hhighmem, hlehigh⟩ := List.max?_eq_some_iff.mp hhigh
    refine ⟨low, high, goodPrices_vouched h hlowmem, goodPrices_vouched h hhighmem, ?_⟩
    refine price_mem ⟨t, h⟩ hs hok hminority fun src hsrc hgood p hp => ?_
    have hmem : p ∈ goodPrices env bad pair s := mem_goodPrices.mpr ⟨src, hsrc, hgood, hp⟩
    exact ⟨hlowle p hmem, hlehigh p hmem⟩

/-- Three sources make a quorum, and one of them lies. -/
def outvotedCalls : List (Env ⟨0⟩ × Call) :=
  (.signed ⟨0⟩ 0, .init ⟨1⟩ ⟨2⟩ 600 500) :: (.signed ⟨0⟩ 1, .setQuorum ⟨1⟩ [1] 3) :: liedCalls

theorem prices_vouched_outvoted : ∃ feed,
    getPrice (.signed ⟨0⟩ 4) [1] (perform outvotedCalls).2 = .ok feed ∧
      ∃ low high,
        Vouched (.signed ⟨0⟩ 4) (· = ⟨7⟩) [1] (perform outvotedCalls).1
          (perform outvotedCalls).2 low ∧
        Vouched (.signed ⟨0⟩ 4) (· = ⟨7⟩) [1] (perform outvotedCalls).1
          (perform outvotedCalls).2 high ∧
        low ≤ feed.price ∧ feed.price ≤ high := by
  have hsources : getSources (perform outvotedCalls).2 [1] = [⟨5⟩, ⟨6⟩, ⟨7⟩] := by decide
  have hprice : getPrice (.signed ⟨0⟩ 4) [1] (perform outvotedCalls).2 =
      .ok ⟨[1], 105, priceDecimals, 4, 0⟩ := by rfl
  obtain ⟨_, hall⟩ := prices_vouched ((machine ⟨0⟩).run_replay .fresh outvotedCalls) hprice
  refine ⟨_, hprice, hall _ ?_ (by decide)⟩
  rw [← perform, hsources]
  exact List.cons_ne_nil _ _

end Shelterflex.OraclePriceFeeds
