import Shelterflex.RentToOwn.Model

/-! What each call does to the deals. -/

namespace Shelterflex.RentToOwn
open Lib UpgradeGovernance
set_option autoImplicit true

abbrev Step (own : Address) := Event State (Env own × Call) Output

abbrev History (own : Address) := List (Step own)

/-- The admin has signed, and the contract is not paused. -/
structure Permitted (env : Env own) (s : State) (admin : Address) : Prop where
  current : s.gov.admin = some admin
  signed : env.authorized admin = true
  running : getPausedState s = false

/-- The deal that a call is about to write. -/
def Call.subject : Call → Option (BytesN 32)
  | .registerDeal _ dealId _ _ _ _ => dealId
  | .recordEquityPayment _ dealId _ _ => dealId
  | .completeDeal _ dealId => dealId
  | .defaultDeal _ dealId => dealId
  | .settleDefault _ dealId => dealId
  | .transferPosition _ _ _ dealId => dealId
  | _ => none

/-- The deal as it is registered. -/
def RentToOwnDeal.opening (dealId : BytesN 32) (tenant : Address)
    (propertyValueUsdc monthlyEquityUsdc : Int) (totalPaymentsRequired : Nat) : RentToOwnDeal :=
  ⟨dealId, tenant, propertyValueUsdc, 0, monthlyEquityUsdc, 0, totalPaymentsRequired, .active⟩

/-- What a payment makes of a deal. -/
def RentToOwnDeal.pay (equityAmount : Int) (deal : RentToOwnDeal) : RentToOwnDeal :=
  { deal with
    equityAccumulatedUsdc := deal.equityAccumulatedUsdc + equityAmount
    paymentsMade := deal.paymentsMade + 1 }

/-- The entries of the deals and of their payments and settlements. -/
structure SameDeals (s s' : State) : Prop where
  deal : s'.deal = s.deal
  payment : s'.payment = s.payment
  settlement : s'.defaultSettlement = s.defaultSettlement

inductive Changes (env : Env own) (s s' : State) : Call → Output → Prop where
  | init (hb : bps ≤ 10000) (hf : getForfeitureBps s' = bps) (hs : SameDeals s s') :
      Changes env s s' (.init admin bps) o
  | register (ha : Permitted env s admin) (hv : 0 < value) (hn : s.deal.get d = none)
      (hs : s' = putDeal d (.opening d tenant value monthly total) s) :
      Changes env s s' (.registerDeal admin d tenant value monthly total) o
  | pay (ha : Permitted env s admin) (hd : s.deal.get d = some deal) (hst : deal.status = .active)
      (he : 0 < equity) (hle : deal.equityAccumulatedUsdc + equity ≤ deal.propertyValueUsdc)
      (hs : s' = { putDeal d (deal.pay equity) s with
        payment := s.payment.set (d, deal.paymentsMade + 1)
          ⟨d, deal.paymentsMade + 1, equity, rent, env.timestamp⟩ }) :
      Changes env s s' (.recordEquityPayment admin d rent equity) o
  | complete (ha : Permitted env s admin) (hd : s.deal.get d = some deal)
      (hst : deal.status = .active) (hm : deal.paymentsMade = deal.totalPaymentsRequired)
      (hs : s' = putDeal d { deal with status := .completed } s) :
      Changes env s s' (.completeDeal admin d) o
  | default (ha : Permitted env s admin) (hd : s.deal.get d = some deal)
      (hst : deal.status = .active)
      (hp : (equitySplit deal.equityAccumulatedUsdc (getForfeitureBps s) :
        Outcome ContractError (Int × Int)) = .ok (refundable, forfeited))
      (hs : s' = { putDeal d { deal with status := .defaulted } s with
        defaultSettlement := s.defaultSettlement.set d ⟨refundable, forfeited, false⟩ }) :
      Changes env s s' (.defaultDeal admin d) o
  | settle (ha : Permitted env s admin) (hd : s.deal.get d = some deal)
      (hst : deal.status = .defaulted) (hr : s.defaultSettlement.get d = some r)
      (hn : r.settled = false)
      (hs : s' = { s with
        defaultSettlement := s.defaultSettlement.set d { r with settled := true } }) :
      Changes env s s' (.settleDefault admin d) (.settlement { r with settled := true })
  | transfer (ha : Permitted env s admin) (hf : env.authorized fromParty = true)
      (hd : s.deal.get d = some deal) (ht : deal.tenant = fromParty)
      (hst : deal.status = .active) (hs : s' = putDeal d { deal with tenant := toParty } s) :
      Changes env s s' (.transferPosition admin fromParty toParty d) o
  | manage (hc : c.subject = none) (hf : s'.forfeitureBps = s.forfeitureBps)
      (hs : SameDeals s s') : Changes env s s' c o

theorem requireAdmin_ok : requireAdmin env admin s = .ok u ↔
    s.gov.admin = some admin ∧ env.authorized admin = true := by
  simp only [requireAdmin, requireAdminPermission, bind_ok, expect_ok, requireAuth_ok, require_ok]
  constructor
  · rintro ⟨a, ha, _, hs, rfl⟩
    exact ⟨ha, hs⟩
  · rintro ⟨ha, hs⟩
    exact ⟨admin, ha, (), hs, rfl⟩

/-- The two guards that most calls begin with. -/
theorem guards_ok {f : Outcome ContractError α} :
    (do requireNotPaused s; requireAdmin env admin s; f) = .ok r ↔
      Permitted env s admin ∧ f = .ok r := by
  simp only [requireNotPaused, bind_ok, require_ok, requireAdmin_ok, exists_const]
  constructor
  · rintro ⟨hp, ⟨ha, hs⟩, hf⟩
    exact ⟨⟨ha, hs, hp⟩, hf⟩
  · rintro ⟨⟨ha, hs, hp⟩, hf⟩
    exact ⟨hp, ⟨ha, hs⟩, hf⟩

theorem no_deal {s : State} (h : s.deal.has d = false) : s.deal.get d = none :=
  Option.isNone_iff_eq_none.mp (Option.isSome_eq_false_iff.mp h)

theorem registerDeal_changes
    (h : registerDeal env admin d tenant value monthly total s = .ok s') :
    Changes env s s' (.registerDeal admin d tenant value monthly total) o := by
  obtain ⟨ha, h⟩ := guards_ok.mp h
  simp only [bind_ok, require_ok, pure_ok] at h
  obtain ⟨_, hv, _, hn, rfl⟩ := h
  exact .register ha (not_le.mp (not_or.mp hv).1) (no_deal hn) rfl

theorem recordEquityPayment_changes
    (h : recordEquityPayment env admin d rent equity s = .ok s') :
    Changes env s s' (.recordEquityPayment admin d rent equity) o := by
  obtain ⟨ha, h⟩ := guards_ok.mp h
  simp only [loadDeal, bind_ok, require_ok, okOr_ok, i128Add_ok, u32Add_ok, pure_ok] at h
  obtain ⟨_, hv, deal, hd, _, hst, _, ⟨_, rfl⟩, _, hle, _, ⟨_, rfl⟩, rfl⟩ := h
  exact .pay ha hd hst (not_le.mp (not_or.mp hv).2) hle rfl

theorem completeDeal_ok : completeDeal env admin d s = .ok s' ↔
    Permitted env s admin ∧ ∃ deal, s.deal.get d = some deal ∧ deal.status = .active ∧
      deal.paymentsMade = deal.totalPaymentsRequired ∧
      s' = putDeal d { deal with status := .completed } s := by
  rw [completeDeal, guards_ok]
  simp only [loadDeal, bind_ok, require_ok, okOr_ok, pure_ok]
  constructor
  · rintro ⟨ha, deal, hd, _, hst, _, hm, rfl⟩
    exact ⟨ha, deal, hd, hst, hm, rfl⟩
  · rintro ⟨ha, deal, hd, hst, hm, rfl⟩
    exact ⟨ha, deal, hd, (), hst, (), hm, rfl⟩

theorem defaultDeal_changes (h : defaultDeal env admin d s = .ok s') :
    Changes env s s' (.defaultDeal admin d) o := by
  obtain ⟨ha, h⟩ := guards_ok.mp h
  simp only [loadDeal, bind_ok, require_ok, okOr_ok, pure_ok] at h
  obtain ⟨deal, hd, _, hst, ⟨refundable, forfeited⟩, hp, rfl⟩ := h
  exact .default ha hd hst hp rfl

theorem settleDefault_changes (h : settleDefault env admin d s = .ok (s', r)) :
    Changes env s s' (.settleDefault admin d) (.settlement r) := by
  obtain ⟨ha, h⟩ := guards_ok.mp h
  simp only [loadDeal, bind_ok, require_ok, okOr_ok, pure_ok, Prod.mk.injEq] at h
  obtain ⟨deal, hd, _, hst, r, hr, _, hn, rfl, rfl⟩ := h
  exact .settle ha hd hst hr hn rfl

theorem transferPosition_changes
    (h : transferPosition env admin fromParty toParty d s = .ok s') :
    Changes env s s' (.transferPosition admin fromParty toParty d) o := by
  obtain ⟨ha, h⟩ := guards_ok.mp h
  simp only [loadDeal, bind_ok, requireAuth_ok, require_ok, okOr_ok, pure_ok] at h
  obtain ⟨_, hf, deal, hd, _, ht, _, hst, _, _, rfl⟩ := h
  exact .transfer ha hf hd ht hst rfl

theorem init_changes (h : init admin bps s = .ok s') : Changes env s s' (.init admin bps) o := by
  simp only [init, bind_ok, require_ok, pure_ok] at h
  obtain ⟨_, _, _, hb, rfl⟩ := h
  exact .init hb rfl ⟨rfl, rfl, rfl⟩

theorem invoke_changes (h : invoke env s c = some (s', o)) : Changes env s s' c o := by
  cases c with
  | init admin bps =>
    obtain ⟨_, hs, he⟩ := commit_some.mp h
    cases he
    exact init_changes hs
  | registerDeal admin d tenant value monthly total =>
    obtain ⟨_, hs, he⟩ := commit_some.mp h
    cases he
    exact registerDeal_changes hs
  | recordEquityPayment admin d rent equity =>
    obtain ⟨_, hs, he⟩ := commit_some.mp h
    cases he
    exact recordEquityPayment_changes hs
  | completeDeal admin d =>
    obtain ⟨_, hs, he⟩ := commit_some.mp h
    cases he
    obtain ⟨ha, deal, hd, hst, hm, rfl⟩ := completeDeal_ok.mp hs
    exact .complete ha hd hst hm rfl
  | defaultDeal admin d =>
    obtain ⟨_, hs, he⟩ := commit_some.mp h
    cases he
    exact defaultDeal_changes hs
  | settleDefault admin d =>
    obtain ⟨_, hs, he⟩ := commit_some.mp h
    cases he
    exact settleDefault_changes hs
  | transferPosition admin fromParty toParty d =>
    obtain ⟨_, hs, he⟩ := commit_some.mp h
    cases he
    exact transferPosition_changes hs
  | getEquityPercentage d =>
    obtain ⟨_, _, he⟩ := commit_some.mp h
    cases he
    exact .manage rfl rfl ⟨rfl, rfl, rfl⟩
  | pause admin | unpause admin | setGuardian admin guardian | setUpgradeDelay admin delay
  | proposeUpgrade admin hash version | cancelUpgrade admin =>
    obtain ⟨_, hs, he⟩ := commit_some.mp h
    cases he
    simp only [pause, unpause, setGuardian, setUpgradeDelay, proposeUpgrade, cancelUpgrade, bind_ok,
      pure_ok] at hs
    first
    | obtain ⟨_, _, rfl⟩ := hs
      exact .manage rfl rfl ⟨rfl, rfl, rfl⟩
    | obtain ⟨_, _, _, _, rfl⟩ := hs
      exact .manage rfl rfl ⟨rfl, rfl, rfl⟩
  | executeUpgrade admin hash | emergencyUpgrade admin hash version =>
    obtain ⟨_, hs, he⟩ := commit_some.mp h
    cases he
    simp only [executeUpgrade, emergencyUpgrade, bind_ok, pure_ok] at hs
    obtain ⟨_, _, rfl⟩ := hs
    exact .manage rfl rfl ⟨rfl, rfl, rfl⟩

/-- A deal, its payments and its settlement. -/
structure Entry where
  deal : Option RentToOwnDeal
  payment : Nat → Option EquityPayment
  settlement : Option DefaultSettlementRecord

def entry (s : State) (d : BytesN 32) : Entry :=
  ⟨s.deal.get d, fun n => s.payment.get (d, n), s.defaultSettlement.get d⟩

/-- What a call makes of the entry of one deal. -/
inductive Moves (d : BytesN 32) (bps : Nat) (e : Entry) : Call → Entry → Prop where
  | other (hc : c.subject ≠ some d) : Moves d bps e c e
  | register (hv : 0 < value) (hn : e.deal = none) :
      Moves d bps e (.registerDeal admin d tenant value monthly total)
        { e with deal := some (.opening d tenant value monthly total) }
  | pay (hd : e.deal = some deal) (hst : deal.status = .active) (he : 0 < equity)
      (hle : deal.equityAccumulatedUsdc + equity ≤ deal.propertyValueUsdc) :
      Moves d bps e (.recordEquityPayment admin d rent equity)
        { e with
          deal := some (deal.pay equity)
          payment := Function.update e.payment (deal.paymentsMade + 1)
            (some ⟨d, deal.paymentsMade + 1, equity, rent, now⟩) }
  | complete (hd : e.deal = some deal) (hst : deal.status = .active)
      (hm : deal.paymentsMade = deal.totalPaymentsRequired) :
      Moves d bps e (.completeDeal admin d)
        { e with deal := some { deal with status := .completed } }
  | default (hd : e.deal = some deal) (hst : deal.status = .active)
      (hp : (equitySplit deal.equityAccumulatedUsdc bps :
        Outcome ContractError (Int × Int)) = .ok (refundable, forfeited)) :
      Moves d bps e (.defaultDeal admin d)
        { e with
          deal := some { deal with status := .defaulted }
          settlement := some ⟨refundable, forfeited, false⟩ }
  | settle (hd : e.deal = some deal) (hst : deal.status = .defaulted)
      (hr : e.settlement = some r) (hn : r.settled = false) :
      Moves d bps e (.settleDefault admin d)
        { e with settlement := some { r with settled := true } }
  | transfer (hd : e.deal = some deal) (hst : deal.status = .active) :
      Moves d bps e (.transferPosition admin fromParty toParty d)
        { e with deal := some { deal with tenant := toParty } }

theorem SameDeals.entry_eq (h : SameDeals s s') : entry s' d = entry s d := by
  rw [entry, h.deal, h.payment, h.settlement, entry]

theorem entry_putPayment (s : State) (d : BytesN 32) (n : Nat) (p : EquityPayment) :
    entry { s with payment := s.payment.set (d, n) p } d =
      { entry s d with payment := Function.update (entry s d).payment n (some p) } := by
  simp only [entry, Entry.mk.injEq, true_and, and_true]
  funext k
  rw [Store.get_set, Function.update_apply]
  simp only [Prod.mk.injEq, true_and]

theorem putDeal_payment : (putDeal d deal s).payment = s.payment := rfl

theorem putDeal_settlement : (putDeal d deal s).defaultSettlement = s.defaultSettlement := rfl

theorem entry_putDeal : entry (putDeal d deal s) d = { entry s d with deal := some deal } := by
  rw [entry, putDeal, Store.get_set_self]
  rfl

theorem entry_putSettlement :
    entry { s with defaultSettlement := s.defaultSettlement.set d r } d =
      { entry s d with settlement := some r } := by
  rw [entry, Store.get_set_self]
  rfl

/-- A call leaves every deal alone that it is not about. -/
theorem Changes.frame (h : Changes env s s' c o) (hc : c.subject ≠ some d) :
    entry s' d = entry s d := by
  cases h with
  | init _ _ hs | manage _ _ hs => exact hs.entry_eq
  | register _ _ _ hs | complete _ _ _ _ hs | transfer _ _ _ _ _ hs =>
    have hne : d ≠ _ := fun he => hc (congrArg some he.symm)
    simp only [hs, entry, putDeal, Store.get_set_of_ne _ _ hne]
  | settle _ _ _ _ _ hs =>
    have hne : d ≠ _ := fun he => hc (congrArg some he.symm)
    simp only [hs, entry, Store.get_set_of_ne _ _ hne]
  | default _ _ _ _ hs =>
    have hne : d ≠ _ := fun he => hc (congrArg some he.symm)
    simp only [hs, entry, putDeal, Store.get_set_of_ne _ _ hne]
  | pay _ _ _ _ _ hs =>
    have hne : d ≠ _ := fun he => hc (congrArg some he.symm)
    have hp (n k : Nat) : (d, n) ≠ (_, k) := fun he => hne (Prod.mk.inj he).1
    simp only [hs, entry, putDeal, Store.get_set_of_ne _ _ hne, Store.get_set_of_ne _ _ (hp _ _)]

theorem Changes.moves (h : Changes env s s' c o) (d : BytesN 32) :
    Moves d (getForfeitureBps s) (entry s d) c (entry s' d) := by
  by_cases hc : c.subject = some d
  · cases h with
    | init => cases hc
    | manage hn _ _ => cases hn.symm.trans hc
    | register _ hv hn hs =>
      cases hc
      rw [hs, entry_putDeal]
      exact .register hv hn
    | pay _ hd hst he hle hs =>
      cases hc
      rw [hs, ← putDeal_payment, entry_putPayment, entry_putDeal]
      exact .pay hd hst he hle
    | complete _ hd hst hm hs =>
      cases hc
      rw [hs, entry_putDeal]
      exact .complete hd hst hm
    | default _ hd hst hp hs =>
      cases hc
      rw [hs, ← putDeal_settlement, entry_putSettlement, entry_putDeal]
      exact .default hd hst hp
    | settle _ hd hst hr hn hs =>
      cases hc
      rw [hs, entry_putSettlement]
      exact .settle hd hst hr hn
    | transfer _ _ hd _ hst hs =>
      cases hc
      rw [hs, entry_putDeal]
      exact .transfer hd hst
  · rw [h.frame hc]
    exact .other hc

end Shelterflex.RentToOwn
