import Shelterflex.Lib.Since
import Shelterflex.RentToOwn.Deals

/-! The equity of a deal: its payments, its status and its settlement. -/

namespace Shelterflex.RentToOwn
open Lib
set_option autoImplicit true

/-- The equity amount of a stored payment. -/
def Entry.paid (e : Entry) (n : Nat) : Int :=
  match e.payment n with
  | some p => p.equityAmount
  | none => 0

def Entry.paymentsMade (e : Entry) : Nat :=
  match e.deal with
  | some deal => deal.paymentsMade
  | none => 0

theorem paymentsMade_of {e : Entry} (hd : e.deal = some deal) :
    e.paymentsMade = deal.paymentsMade := by
  rw [Entry.paymentsMade, hd]

theorem paid_of {e : Entry} (hp : e.payment n = some p) : e.paid n = p.equityAmount := by
  rw [Entry.paid, hp]

theorem paid_none {e : Entry} (hp : e.payment n = none) : e.paid n = 0 := by
  rw [Entry.paid, hp]

/-- The settlement splits the equity of its deal. -/
structure Splits (r : DefaultSettlementRecord) (deal : RentToOwnDeal) : Prop where
  refundable : 0 ≤ r.refundableUsdc
  forfeited : 0 ≤ r.forfeitedUsdc
  total : r.refundableUsdc + r.forfeitedUsdc = deal.equityAccumulatedUsdc

structure Sound (d : BytesN 32) (e : Entry) : Prop where
  numbered : ∀ n, e.payment n ≠ none ↔ 1 ≤ n ∧ n ≤ e.paymentsMade
  labelled : ∀ n p, e.payment n = some p → p.dealId = d ∧ p.paymentNumber = n
  positive : ∀ n p, e.payment n = some p → 0 < p.equityAmount
  equity : ∀ deal, e.deal = some deal → deal.equityAccumulatedUsdc = ∑ᶠ n, e.paid n
  capped : ∀ deal, e.deal = some deal → deal.equityAccumulatedUsdc ≤ deal.propertyValueUsdc
  split : ∀ r, e.settlement = some r →
    ∃ deal, e.deal = some deal ∧ deal.status = .defaulted ∧ Splits r deal

theorem Sound.paid_nonneg (h : Sound d e) (n : Nat) : 0 ≤ e.paid n := by
  unfold Entry.paid
  split
  · exact (h.positive _ _ ‹_›).le
  · exact le_rfl

theorem Sound.support_finite (h : Sound d e) : e.paid.support.Finite := by
  apply (Set.finite_le_nat e.paymentsMade).subset
  intro n hn
  exact ((h.numbered n).mp fun hp => hn (paid_none hp)).2

theorem Sound.equity_nonneg (h : Sound d e) (hd : e.deal = some deal) :
    0 ≤ deal.equityAccumulatedUsdc := by
  rw [h.equity deal hd]
  exact finsum_nonneg h.paid_nonneg

/-- The forfeited part rounds down, and the refundable part is the rest. -/
theorem equitySplit_splits (he : 0 ≤ deal.equityAccumulatedUsdc) (hb : bps ≤ 10000)
    (h : (equitySplit deal.equityAccumulatedUsdc bps : Outcome ε (Int × Int)) =
      .ok (refundable, forfeited)) : Splits ⟨refundable, forfeited, settled⟩ deal := by
  simp only [equitySplit, bind_ok, i128Mul_ok, i128Div_ok, i128Sub_ok, pure_ok,
    Prod.mk.injEq] at h
  obtain ⟨_, ⟨_, rfl⟩, _, ⟨_, _, rfl⟩, _, ⟨_, rfl⟩, rfl, rfl⟩ := h
  have hproduct : 0 ≤ deal.equityAccumulatedUsdc * (bps : Int) :=
    mul_nonneg he (Int.natCast_nonneg _)
  have hle :
      (deal.equityAccumulatedUsdc * (bps : Int)).tdiv 10000 ≤ deal.equityAccumulatedUsdc := by
    rw [Int.tdiv_eq_ediv_of_nonneg hproduct]
    apply Int.ediv_le_of_le_mul (by decide)
    exact mul_le_mul_of_nonneg_left (by exact_mod_cast hb) he
  exact ⟨sub_nonneg.mpr hle, Int.tdiv_nonneg hproduct (by decide), sub_add_cancel _ _⟩

section
variable {e e' : Entry}

theorem Sound.of_deal (h : Sound d e) (hd : e.deal = some deal)
    (he : x.equityAccumulatedUsdc = deal.equityAccumulatedUsdc)
    (hv : x.propertyValueUsdc = deal.propertyValueUsdc) (hm : x.paymentsMade = deal.paymentsMade)
    (hs : ∀ r, settlement = some r → x.status = .defaulted ∧ Splits r x) :
    Sound d ⟨some x, e.payment, settlement⟩ where
  numbered n := by
    have hn := h.numbered n
    rw [paymentsMade_of hd, ← hm] at hn
    exact hn
  labelled := h.labelled
  positive := h.positive
  equity y hy := by
    cases hy
    exact he.trans (h.equity deal hd)
  capped y hy := by
    cases hy
    rw [he, hv]
    exact h.capped deal hd
  split r hr := ⟨x, rfl, hs r hr⟩

theorem Sound.no_settlement (h : Sound d e) (hd : e.deal = some deal)
    (hst : deal.status = .active) : e.settlement = none := by
  cases hr : e.settlement with
  | none => rfl
  | some r =>
    obtain ⟨deal', hd', hst', _⟩ := h.split r hr
    cases hd.symm.trans hd'
    cases hst.symm.trans hst'

theorem Sound.register (h : Sound d e) (hn : e.deal = none) (hv : 0 < value) :
    Sound d { e with deal := some (.opening d tenant value monthly total) } := by
  have hnone (n : Nat) : e.payment n = none := by
    by_contra hp
    have hle := (h.numbered n).mp hp
    simp only [Entry.paymentsMade, hn] at hle
    omega
  constructor
  · intro n
    constructor
    · exact fun hp => absurd (hnone n) hp
    · exact fun ⟨hl, hu⟩ => absurd (hl.trans hu) (Nat.not_succ_le_zero 0)
  · exact h.labelled
  · exact h.positive
  · intro deal hd
    cases hd
    have hzero : e.paid = fun _ => 0 := funext fun n => paid_none (hnone n)
    change 0 = ∑ᶠ n, e.paid n
    rw [hzero, finsum_zero]
  · intro deal hd
    cases hd
    exact hv.le
  · intro r hr
    obtain ⟨deal, hd, _⟩ := h.split r hr
    cases hn.symm.trans hd

theorem Sound.pay (h : Sound d e) (hd : e.deal = some deal) (hst : deal.status = .active)
    (he : 0 < amount) (hle : deal.equityAccumulatedUsdc + amount ≤ deal.propertyValueUsdc) :
    Sound d { e with
      deal := some (deal.pay amount)
      payment := Function.update e.payment (deal.paymentsMade + 1)
        (some ⟨d, deal.paymentsMade + 1, amount, rent, now⟩) } := by
  have hm := paymentsMade_of hd
  have hfree : e.payment (deal.paymentsMade + 1) = none := by
    by_contra hp
    have hn := (h.numbered _).mp hp
    omega
  have hstored {P : Nat → EquityPayment → Prop} (hold : ∀ n p, e.payment n = some p → P n p)
      (hnew : P (deal.paymentsMade + 1) ⟨d, deal.paymentsMade + 1, amount, rent, now⟩) :
      ∀ n p, Function.update e.payment (deal.paymentsMade + 1)
        (some ⟨d, deal.paymentsMade + 1, amount, rent, now⟩) n = some p → P n p := by
    intro n p hp
    rw [Function.update_apply] at hp
    split at hp
    · cases hp
      exact ‹n = _› ▸ hnew
    · exact hold n p hp
  constructor
  · intro n
    have hn := h.numbered n
    rw [paymentsMade_of rfl]
    simp only [Function.update_apply, RentToOwnDeal.pay]
    split
    · simp only [ne_eq, reduceCtorEq, not_false_eq_true, true_iff]
      omega
    · rw [hn]
      omega
  · exact hstored h.labelled ⟨rfl, rfl⟩
  · exact hstored h.positive he
  · intro deal' hd'
    cases hd'
    rw [finsum_change h.support_finite (deal.paymentsMade + 1), paid_none hfree,
      paid_of (Function.update_self _ _ _), ← h.equity deal hd, sub_zero]
    · rfl
    · intro n hn
      simp only [Entry.paid, Function.update_of_ne hn]
  · intro deal' hd'
    cases hd'
    exact hle
  · intro r hr
    cases (h.no_settlement hd hst).symm.trans hr

theorem Moves.sound (hm : Moves d bps e c e') (hb : bps ≤ 10000) (h : Sound d e) : Sound d e' := by
  cases hm with
  | other => exact h
  | register hv hn => exact h.register hn hv
  | pay hd hst he hle => exact h.pay hd hst he hle
  | complete hd hst | transfer hd hst =>
    refine h.of_deal hd rfl rfl rfl fun r hr => ?_
    cases (h.no_settlement hd hst).symm.trans hr
  | default hd _ hp =>
    have hsplit : Splits ⟨_, _, false⟩ _ := equitySplit_splits (h.equity_nonneg hd) hb hp
    refine h.of_deal hd rfl rfl rfl fun r hr => ⟨rfl, ?_⟩
    cases hr
    exact ⟨hsplit.refundable, hsplit.forfeited, hsplit.total⟩
  | settle hd hst hr =>
    obtain ⟨deal, hd', _, hs⟩ := h.split _ hr
    cases hd.symm.trans hd'
    rw [hd]
    refine h.of_deal hd rfl rfl rfl fun r' hr' => ⟨hst, ?_⟩
    cases hr'
    exact ⟨hs.refundable, hs.forfeited, hs.total⟩

end

theorem Changes.forfeitureBps (h : Changes env s s' c o) (hb : getForfeitureBps s ≤ 10000) :
    getForfeitureBps s' ≤ 10000 := by
  cases h with
  | init hle hf => exact hf ▸ hle
  | manage _ hf _ =>
    rw [getForfeitureBps, hf]
    exact hb
  | register _ _ _ hs | complete _ _ _ _ hs | transfer _ _ _ _ _ hs => exact hs ▸ hb
  | pay _ _ _ _ _ hs | settle _ _ _ _ _ hs => exact hs ▸ hb
  | default _ _ _ _ hs => exact hs ▸ hb

theorem run_sound (h : (machine own).Run .fresh t s) :
    getForfeitureBps s ≤ 10000 ∧ ∀ d, Sound d (entry s d) := by
  apply h.invariant (P := fun _ s => getForfeitureBps s ≤ 10000 ∧ ∀ d, Sound d (entry s d))
  · refine ⟨Nat.zero_le _, fun d => ?_⟩
    have hnone (n : Nat) : (entry State.fresh d).payment n ≠ none ↔ 1 ≤ n ∧ n ≤ 0 :=
      ⟨fun hp => absurd rfl hp, fun ⟨hl, hu⟩ => absurd (hl.trans hu) (Nat.not_succ_le_zero 0)⟩
    exact ⟨hnone, nofun, nofun, nofun, nofun, nofun⟩
  · rintro t s i s' o ⟨hb, hd⟩ he
    have hc := invoke_changes he
    exact ⟨hc.forfeitureBps hb, fun d => (hc.moves d).sound hb (hd d)⟩

def Entry.equity (e : Entry) : Option Int := e.deal.map (·.equityAccumulatedUsdc)

def Entry.active (e : Entry) : Bool :=
  match e.deal with
  | some deal => deal.status = .active
  | none => false

/-- The deal was active, and is not any more. -/
def leavesActive (d : BytesN 32) (e : Step own) : Bool :=
  (entry e.pre d).active && !(entry e.post d).active

def Call.settles (d : BytesN 32) : Call → Bool
  | .settleDefault _ d' => d' = d
  | _ => false

def Call.transfers : Call → Bool
  | .transferPosition _ _ _ _ => true
  | _ => false

/-- A deal that is over stays as it is. -/
theorem Moves.final (h : Moves d bps e c e') (hd : e.deal = some deal)
    (hst : deal.status ≠ .active) : e'.deal = some deal := by
  cases h with
  | other | settle => exact hd
  | register _ hn => cases hn.symm.trans hd
  | pay hd' hst' | complete hd' hst' | default hd' hst' | transfer hd' hst' =>
    cases hd.symm.trans hd'
    exact absurd hst' hst

theorem Moves.stored (h : Moves d bps e c e') (hd : e.deal = some deal) :
    ∃ deal', e'.deal = some deal' := by
  cases h with
  | other | settle => exact ⟨deal, hd⟩
  | register | pay | complete | default | transfer => exact ⟨_, rfl⟩

theorem active_iff {e : Entry} :
    e.active = true ↔ ∃ deal, e.deal = some deal ∧ deal.status = .active := by
  unfold Entry.active
  split <;> simp_all

theorem leavesActive_once (own : Address) (d : BytesN 32) :
    (machine own).Closes .fresh (leavesActive d)
      fun s => ∃ deal, (entry s d).deal = some deal ∧ deal.status ≠ .active where
  stays := by
    rintro s i s' o _ he ⟨deal, hd, hst⟩
    exact ⟨deal, ((invoke_changes he).moves d).final hd hst, hst⟩
  needs := by
    rintro s i s' o _ _ hp ⟨deal, hd, hst⟩
    obtain ⟨deal', hd', hst'⟩ := active_iff.mp (Bool.and_eq_true_iff.mp hp).1
    cases hd.symm.trans hd'
    exact hst hst'
  sets := by
    intro s i s' o _ he hp
    obtain ⟨ha, hn⟩ := Bool.and_eq_true_iff.mp hp
    obtain ⟨deal, hd, _⟩ := active_iff.mp ha
    obtain ⟨deal', hd'⟩ := ((invoke_changes he).moves d).stored hd
    refine ⟨deal', hd', fun hst => ?_⟩
    rw [active_iff.mpr ⟨deal', hd', hst⟩] at hn
    cases hn

theorem Call.settles_eq {c : Call} (h : c.settles d = true) :
    ∃ admin, c = .settleDefault admin d := by
  cases c with
  | settleDefault admin d' => exact ⟨admin, by rw [of_decide_eq_true h]⟩
  | _ => cases h

theorem Moves.settled (h : Moves d bps e c e') (hs : Sound d e) (hr : e.settlement = some r)
    (hset : r.settled = true) : c.settles d = false ∧ e'.settlement = some r := by
  cases h with
  | other hc =>
    refine ⟨Bool.eq_false_iff.mpr fun hx => ?_, hr⟩
    obtain ⟨admin, rfl⟩ := Call.settles_eq hx
    exact hc rfl
  | register | pay | complete | transfer => exact ⟨rfl, hr⟩
  | default hd hst => cases (hs.no_settlement hd hst).symm.trans hr
  | settle _ _ hr' hn =>
    cases hr.symm.trans hr'
    cases hset.symm.trans hn

theorem Changes.settlement (h : Changes env s s' (.settleDefault admin d) o) :
    ∃ r, o = .settlement r ∧ r.settled = true ∧ (entry s' d).settlement = some r := by
  cases h with
  | manage hc => cases hc
  | settle _ _ _ _ _ hs =>
    rw [hs, entry_putSettlement]
    exact ⟨_, rfl, rfl, rfl⟩

theorem settles_once (own : Address) (d : BytesN 32) :
    (machine own).Closes .fresh (fun e => e.input.2.settles d)
      fun s => ∃ r, (entry s d).settlement = some r ∧ r.settled = true where
  stays := by
    rintro s i s' o ⟨t, hr⟩ he ⟨r, hs, hset⟩
    exact ⟨r, (((invoke_changes he).moves d).settled ((run_sound hr).2 d) hs hset).2, hset⟩
  needs := by
    rintro s i s' o ⟨t, hr⟩ he hp ⟨r, hs, hset⟩
    cases hp.symm.trans (((invoke_changes he).moves d).settled ((run_sound hr).2 d) hs hset).1
  sets := by
    rintro s ⟨env, c⟩ s' o _ he hp
    obtain ⟨admin, rfl⟩ := Call.settles_eq hp
    have hc : Changes env s s' (.settleDefault admin d) o := invoke_changes he
    obtain ⟨r, _, hset, hr⟩ := hc.settlement
    exact ⟨r, hr, hset⟩

/-- The equity of every deal is that of its payments, and is settled at most once. -/
structure Conserved (t : History own) (s : State) : Prop where
  sound : ∀ d, Sound d (entry s d)
  transfers : ∀ e ∈ t, e.input.2.transfers = true → ∀ d,
    (entry e.post d).equity = (entry e.pre d).equity ∧
      (entry e.post d).payment = (entry e.pre d).payment
  leaves : ∀ d, t.countP (leavesActive d) ≤ 1
  final : ∀ e ∈ t, ∀ d deal, (entry e.pre d).deal = some deal → deal.status ≠ .active →
    (entry e.post d).deal = some deal
  settled : ∀ d, t.countP (fun e => e.input.2.settles d) ≤ 1
  settlement : ∀ e ∈ t, ∀ d, e.input.2.settles d = true → ∃ r deal, e.output = .settlement r ∧
    (entry e.post d).deal = some deal ∧ Splits r deal

theorem Moves.transfer_keeps (h : Moves d bps e c e') (ht : c.transfers = true) :
    e'.equity = e.equity ∧ e'.payment = e.payment := by
  cases h with
  | other => exact ⟨rfl, rfl⟩
  | transfer hd => exact ⟨by rw [Entry.equity, Entry.equity, hd]; rfl, rfl⟩
  | register | pay | complete | default | settle => cases ht

/-- In every run, the equity of the deals is conserved. -/
theorem equity_conserved (h : (machine own).Run .fresh t s) : Conserved t s where
  sound := (run_sound h).2
  transfers e he ht d := ((invoke_changes (h.committed he).2).moves d).transfer_keeps ht
  leaves d := (h.once (leavesActive_once own d)).1
  final e he d _ hd hst := ((invoke_changes (h.committed he).2).moves d).final hd hst
  settled d := (h.once (settles_once own d)).1
  settlement := by
    intro e he d hx
    obtain ⟨later, earlier, rfl⟩ := List.append_of_mem he
    obtain ⟨hrun, hs⟩ := h.upTo
    obtain ⟨pre, ⟨env, c⟩, o, post⟩ := e
    obtain ⟨admin, rfl⟩ := Call.settles_eq hx
    have hc : Changes env pre post (.settleDefault admin d) o := invoke_changes hs
    obtain ⟨r, ho, _, hr⟩ := hc.settlement
    obtain ⟨deal, hd, _, hsplit⟩ := ((run_sound (hrun.commit hs)).2 d).split r hr
    exact ⟨r, deal, ho, hd, hsplit⟩

def settledCalls : List (Env ⟨0⟩ × Call) :=
  [(.signed ⟨0⟩ 0, .init ⟨1⟩ 2000),
    (.signed ⟨0⟩ 1, .registerDeal ⟨1⟩ (.replicate 32 7) ⟨2⟩ 100 10 5),
    (.signed ⟨0⟩ 2, .recordEquityPayment ⟨1⟩ (.replicate 32 7) 15 13),
    (.signed ⟨0⟩ 3, .transferPosition ⟨1⟩ ⟨2⟩ ⟨3⟩ (.replicate 32 7)),
    (.signed ⟨0⟩ 4, .defaultDeal ⟨1⟩ (.replicate 32 7)),
    (.signed ⟨0⟩ 5, .settleDefault ⟨1⟩ (.replicate 32 7))]

theorem equity_conserved_settled :
    Conserved ((machine ⟨0⟩).replay .fresh settledCalls).1
      ((machine ⟨0⟩).replay .fresh settledCalls).2 :=
  equity_conserved ((machine ⟨0⟩).run_replay .fresh settledCalls)

theorem getEquityPercentage_le (h : (machine own).Run .fresh t s)
    (hq : (getEquityPercentage d s : Outcome ε Nat) = .ok n) : n ≤ 10000 := by
  unfold getEquityPercentage at hq
  split at hq
  · cases hq
    exact Nat.zero_le _
  rename_i deal hd
  split at hq
  · cases hq
    exact Nat.zero_le _
  rename_i hv
  simp only [bind_ok, i128Mul_ok, i128Div_ok, pure_ok] at hq
  obtain ⟨_, ⟨_, rfl⟩, _, ⟨_, _, rfl⟩, rfl⟩ := hq
  have hs := (run_sound h).2 d
  have hn := hs.equity_nonneg hd
  have hcap := hs.capped deal hd
  have hpos : 0 < deal.propertyValueUsdc := lt_of_le_of_ne (hn.trans hcap) (Ne.symm hv)
  have hle : (deal.equityAccumulatedUsdc * 10000).tdiv deal.propertyValueUsdc ≤ 10000 := by
    rw [Int.tdiv_eq_ediv_of_nonneg (by omega)]
    apply Int.ediv_le_of_le_mul hpos
    omega
  have hge : 0 ≤ (deal.equityAccumulatedUsdc * 10000).tdiv deal.propertyValueUsdc :=
    Int.tdiv_nonneg (by omega) hpos.le
  rw [Int.emod_eq_of_lt hge (by omega)]
  exact Int.toNat_le.mpr hle

end Shelterflex.RentToOwn
