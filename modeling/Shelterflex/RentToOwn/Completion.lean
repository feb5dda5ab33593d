import Shelterflex.RentToOwn.Deals

/-! When a deal that has had all its payments can be completed. -/

namespace Shelterflex.RentToOwn
open Lib
set_option autoImplicit true

def Bounded (s : State) : Prop :=
  ∀ d deal, s.deal.get d = some deal → deal.paymentsMade ≤ deal.totalPaymentsRequired

/-- No deal has had more payments than it requires, and one that has had them all can be
completed. -/
structure Completable (own : Address) (s : State) : Prop where
  bounded : Bounded s
  completes : ∀ (env : Env own) admin d deal, Permitted env s admin → s.deal.get d = some deal →
    deal.status = .active → deal.totalPaymentsRequired ≤ deal.paymentsMade →
      completeDeal env admin d s = .ok (putDeal d { deal with status := .completed } s)

/-- A payment is recorded only while the deal still requires one. -/
def StillRequired (e : Step own) : Prop :=
  match e.input.2 with
  | .recordEquityPayment _ d _ _ =>
    ∀ deal, e.pre.deal.get d = some deal → deal.paymentsMade < deal.totalPaymentsRequired
  | _ => True

theorem Bounded.completable (h : Bounded s) : Completable own s where
  bounded := h
  completes env admin d deal ha hd hst hm := by
    have hle := h d deal hd
    exact completeDeal_ok.mpr ⟨ha, deal, hd, hst, le_antisymm hle hm, rfl⟩

theorem Moves.bounded (h : Moves d bps e c e')
    (hb : ∀ deal, e.deal = some deal → deal.paymentsMade ≤ deal.totalPaymentsRequired)
    (hr : ∀ {admin rent equity}, c = .recordEquityPayment admin d rent equity →
      ∀ deal, e.deal = some deal → deal.paymentsMade < deal.totalPaymentsRequired) :
    ∀ deal, e'.deal = some deal → deal.paymentsMade ≤ deal.totalPaymentsRequired := by
  intro deal' hd'
  cases h with
  | other | settle => exact hb _ hd'
  | register =>
    cases hd'
    exact Nat.zero_le _
  | pay hd =>
    cases hd'
    exact hr rfl _ hd
  | complete hd | default hd | transfer hd =>
    have hle := hb _ hd
    cases hd'
    exact hle

theorem Changes.bounded {e : Step own} (h : Changes e.input.1 e.pre e.post e.input.2 e.output)
    (hb : Bounded e.pre) (hr : StillRequired e) : Bounded e.post := by
  intro d
  apply (h.moves d).bounded (hb d)
  intro admin rent equity hc
  rw [StillRequired, hc] at hr
  exact hr

theorem Moves.required (h : Moves d bps e (.recordEquityPayment admin d rent equity) e')
    (hb : ∀ deal, e'.deal = some deal → deal.paymentsMade ≤ deal.totalPaymentsRequired)
    (hd : e.deal = some deal) : deal.paymentsMade < deal.totalPaymentsRequired := by
  cases h with
  | other hc => exact absurd rfl hc
  | pay hd' =>
    cases hd.symm.trans hd'
    exact hb _ rfl

theorem Changes.stillRequired {e : Step own}
    (h : Changes e.input.1 e.pre e.post e.input.2 e.output) (hb : Bounded e.post) :
    StillRequired e := by
  obtain ⟨pre, ⟨env, c⟩, o, post⟩ := e
  cases c with
  | recordEquityPayment admin d rent equity => exact fun deal hd => (h.moves d).required (hb d) hd
  | _ => trivial

theorem Moves.beyond (h : Moves d bps e c e') (hd : e.deal = some deal)
    (hlt : deal.totalPaymentsRequired < deal.paymentsMade) :
    ∃ deal', e'.deal = some deal' ∧ deal'.totalPaymentsRequired < deal'.paymentsMade := by
  cases h with
  | other | settle => exact ⟨deal, hd, hlt⟩
  | register _ hn => cases hn.symm.trans hd
  | pay hd' =>
    cases hd.symm.trans hd'
    exact ⟨_, rfl, Nat.lt_succ_of_lt hlt⟩
  | complete hd' | default hd' | transfer hd' =>
    cases hd.symm.trans hd'
    exact ⟨_, rfl, hlt⟩

/-- A deal that has had more payments than it requires is never completed. -/
theorem overpaid_forever (h : (machine own).Run s t s') (hd : s.deal.get d = some deal)
    (hlt : deal.totalPaymentsRequired < deal.paymentsMade) (env : Env own) :
    completeDeal env admin d s' ≠ .ok s'' := by
  have hkeep : ∃ deal, s'.deal.get d = some deal ∧
      deal.totalPaymentsRequired < deal.paymentsMade := by
    apply h.invariant (P := fun _ s => ∃ deal, s.deal.get d = some deal ∧
      deal.totalPaymentsRequired < deal.paymentsMade) ⟨deal, hd, hlt⟩
    rintro _ _ _ _ _ ⟨deal, hd, hlt⟩ he
    exact ((invoke_changes he).moves d).beyond hd hlt
  intro hc
  obtain ⟨_, deal₁, hd₁, _, heq, _⟩ := completeDeal_ok.mp hc
  obtain ⟨deal₂, hd₂, hlt₂⟩ := hkeep
  cases hd₁.symm.trans hd₂
  exact absurd heq (ne_of_gt hlt₂)

/-- All the states of a run are completable exactly when every payment of it was still
required. -/
theorem completable_iff (h : (machine own).Run .fresh t s) :
    (∀ e ∈ t, Completable own e.post) ↔ ∀ e ∈ t, StillRequired e := by
  constructor
  · exact fun hc e he => (invoke_changes (h.committed he).2).stillRequired (hc e he).bounded
  · intro hr e he
    obtain ⟨later, earlier, rfl⟩ := List.append_of_mem he
    obtain ⟨hrun, hs⟩ := h.upTo
    have hpre : Bounded e.pre := by
      apply hrun.invariant_of (P := fun _ => Bounded) (C := StillRequired)
      · exact fun e' he' => hr e' (List.mem_append_right _ (List.mem_cons_of_mem _ he'))
      · exact fun d deal hd => nomatch hd
      · exact fun hb he hr => (invoke_changes he).bounded (e := ⟨_, _, _, _⟩) hb hr
    exact ((invoke_changes hs).bounded hpre (hr e he)).completable

/-- The admin registers a deal of one payment. -/
def registeredCalls : List (Env ⟨0⟩ × Call) :=
  [(.signed ⟨0⟩ 0, .init ⟨1⟩ 2000),
    (.signed ⟨0⟩ 1, .registerDeal ⟨1⟩ (.replicate 32 7) ⟨2⟩ 100 10 1)]

def paidCalls : List (Env ⟨0⟩ × Call) :=
  registeredCalls ++ [(.signed ⟨0⟩ 2, .recordEquityPayment ⟨1⟩ (.replicate 32 7) 15 10)]

def overpaidCalls : List (Env ⟨0⟩ × Call) :=
  paidCalls ++ [(.signed ⟨0⟩ 3, .recordEquityPayment ⟨1⟩ (.replicate 32 7) 15 10)]

def after (cs : List (Env ⟨0⟩ × Call)) : History ⟨0⟩ × State := (machine ⟨0⟩).replay .fresh cs

theorem completable_iff_paid :
    (∀ e ∈ (after paidCalls).1, Completable ⟨0⟩ e.post) ↔
      ∀ e ∈ (after paidCalls).1, StillRequired e :=
  completable_iff ((machine ⟨0⟩).run_replay .fresh paidCalls)

/-- A second payment of a deal of one payment is recorded, and the deal is never completed. -/
theorem overpaid_not_completable :
    ¬ ∀ (t : History ⟨0⟩) s, (machine ⟨0⟩).Run .fresh t s → ∀ e ∈ t, Completable ⟨0⟩ e.post := by
  intro hall
  have hc := hall _ _ ((machine ⟨0⟩).run_replay .fresh overpaidCalls) _ List.mem_cons_self
  exact absurd (hc.bounded (.replicate 32 7) _ rfl) (by decide)

end Shelterflex.RentToOwn
