import Shelterflex.RentToOwn.Equity

/-! Who holds the position of a deal, and who gave it to them. -/

namespace Shelterflex.RentToOwn
open Lib
set_option autoImplicit true

def holder (d : BytesN 32) (s : State) : Option Address := (s.deal.get d).map (·.tenant)

/-- The tenant whom a call puts into the position. -/
def Call.names (d : BytesN 32) : Call → Option Address
  | .registerDeal _ d' tenant _ _ _ => if d' = d then some tenant else none
  | .transferPosition _ _ toParty d' => if d' = d then some toParty else none
  | _ => none

def Call.registers (d : BytesN 32) : Call → Bool
  | .registerDeal _ d' _ _ _ _ => d' = d
  | _ => false

/-- The calls that end a deal. -/
def Call.closes (d : BytesN 32) : Call → Bool
  | .completeDeal _ d' | .defaultDeal _ d' => d' = d
  | _ => false

/-- The outgoing tenant and the admin hand the position of an active deal over. -/
structure Conveys (d : BytesN 32) (outgoing incoming : Address) (e : Step own) : Prop where
  held : holder d e.pre = some outgoing
  active : (entry e.pre d).active = true
  call : ∃ admin, e.input.2 = .transferPosition admin outgoing incoming d ∧
    Permitted e.input.1 e.pre admin
  signed : e.input.1.authorized outgoing = true

theorem Call.names_none {c : Call} (h : c.subject ≠ some d) : c.names d = none := by
  cases c with
  | registerDeal => exact if_neg fun hd => h (congrArg some hd)
  | transferPosition => exact if_neg fun hd => h (congrArg some hd)
  | _ => rfl

theorem Moves.holder (h : Moves d bps e c e') :
    e'.deal.map (·.tenant) = ((c.names d).map some).getD (e.deal.map (·.tenant)) := by
  cases h with
  | other hc =>
    rw [Call.names_none hc]
    rfl
  | register | transfer =>
    rw [Call.names, if_pos rfl]
    rfl
  | pay hd | complete hd | default hd =>
    rw [hd]
    rfl
  | settle => rfl

theorem Changes.conveys (h : Changes env s s' (.transferPosition admin fromParty toParty d) o) :
    Conveys d fromParty toParty ⟨s, (env, .transferPosition admin fromParty toParty d), o, s'⟩ := by
  cases h with
  | manage hc => cases hc
  | transfer ha hf hd ht hst =>
    exact ⟨by rw [holder, hd, ← ht]; rfl, active_iff.mpr ⟨_, hd, hst⟩, ⟨admin, rfl, ha⟩, hf⟩

theorem Call.registers_eq {c : Call} (h : c.registers d = true) :
    ∃ admin tenant value monthly total, c = .registerDeal admin d tenant value monthly total := by
  cases c with
  | registerDeal admin d' tenant value monthly total =>
    exact ⟨admin, tenant, value, monthly, total, by rw [of_decide_eq_true h]⟩
  | _ => cases h

theorem Call.names_some {c : Call} (h : c.names d = some b) :
    c.registers d = true ∨ ∃ admin fromParty, c = .transferPosition admin fromParty b d := by
  cases c with
  | registerDeal admin d' =>
    by_cases hd : d' = d
    · exact .inl (decide_eq_true hd)
    · cases (if_neg hd).symm.trans h
  | transferPosition admin fromParty toParty d' =>
    by_cases hd : d' = d
    · cases (if_pos hd).symm.trans h
      exact .inr ⟨admin, fromParty, by rw [hd]⟩
    · cases (if_neg hd).symm.trans h
  | _ => cases h

theorem Moves.unregistered (h : Moves d bps e c e') (hr : c.registers d = true) :
    e.deal = none := by
  obtain ⟨admin, tenant, value, monthly, total, rfl⟩ := Call.registers_eq hr
  cases h with
  | other hc => exact absurd rfl hc
  | register _ hn => exact hn

theorem Moves.registered (h : Moves d bps e c e') (hr : c.registers d = true) :
    ∃ deal, e'.deal = some deal := by
  obtain ⟨admin, tenant, value, monthly, total, rfl⟩ := Call.registers_eq hr
  cases h with
  | other hc => exact absurd rfl hc
  | register => exact ⟨_, rfl⟩

/-- Nobody leaves a position except by handing it over. -/
theorem Changes.kept (h : Changes env s s' c o) (ha : holder d s = some a) :
    holder d s' = some a ∨ ∃ b, Conveys d a b ⟨s, (env, c), o, s'⟩ := by
  have hm : holder d s' = ((c.names d).map some).getD (holder d s) := (h.moves d).holder
  cases hc : c.names d with
  | none =>
    left
    rw [hm, hc]
    exact ha
  | some b =>
    rcases Call.names_some hc with hr | ⟨admin, fromParty, rfl⟩
    · have hn : s.deal.get d = none := (h.moves d).unregistered hr
      rw [holder, hn] at ha
      cases ha
    · have hv := h.conveys
      cases ha.symm.trans hv.held
      exact .inr ⟨b, hv⟩

theorem Moves.closed (h : Moves d bps e c e') (hc : c.closes d = true) :
    ∃ deal, e'.deal = some deal ∧ deal.status ≠ .active := by
  cases c with
  | completeDeal admin d' =>
    cases of_decide_eq_true hc
    cases h with
    | other hn => exact absurd rfl hn
    | complete => exact ⟨_, rfl, nofun⟩
  | defaultDeal admin d' =>
    cases of_decide_eq_true hc
    cases h with
    | other hn => exact absurd rfl hn
    | default => exact ⟨_, rfl, nofun⟩
  | _ => cases hc

section
variable {t : History own}

theorem closed_of_mem (h : (machine own).Run .fresh t s) :
    (∃ e ∈ t, e.input.2.closes d = true) →
      ∃ deal, (entry s d).deal = some deal ∧ deal.status ≠ .active := by
  apply h.invariant (P := fun t s => (∃ e ∈ t, e.input.2.closes d = true) →
    ∃ deal, (entry s d).deal = some deal ∧ deal.status ≠ .active)
  · rintro ⟨e, he, _⟩
    cases he
  · rintro t s i s' o ih hs ⟨e, he, hc⟩
    have hm := (invoke_changes hs).moves d
    rcases List.mem_cons.mp he with rfl | he
    · exact hm.closed hc
    · obtain ⟨deal, hd, hst⟩ := ih ⟨e, he, hc⟩
      exact ⟨deal, hm.final hd hst, hst⟩

theorem open_before (h : (machine own).Run .fresh t s) (ha : (entry s d).active = true) :
    ∀ e ∈ t, e.input.2.closes d = false := by
  intro e he
  by_contra hc
  obtain ⟨deal, hd, hst⟩ := closed_of_mem h ⟨e, he, Bool.not_eq_false _ ▸ hc⟩
  obtain ⟨deal', hd', hst'⟩ := active_iff.mp ha
  cases hd.symm.trans hd'
  exact hst hst'

theorem registers_once (own : Address) (d : BytesN 32) :
    (machine own).Closes .fresh (fun e => e.input.2.registers d)
      fun s => ∃ deal, (entry s d).deal = some deal where
  stays _ he := fun ⟨_, hd⟩ => ((invoke_changes he).moves d).stored hd
  needs _ he hp := by
    rintro ⟨deal, hd⟩
    cases hd.symm.trans (((invoke_changes he).moves d).unregistered hp)
  sets _ he hp := ((invoke_changes he).moves d).registered hp

/-- The position of a deal belongs to whom the calls about it have last put into it, and passes
on only while the deal is active, with the signatures of the outgoing tenant and of the admin. -/
structure Titled (d : BytesN 32) (t : History own) (s : State) : Prop where
  holder : ∀ a, holder d s = some a ↔ Since (fun e => e.input.2.names d = some a)
    (fun e => (e.input.2.names d).isSome = true) t
  kept : ∀ e ∈ t, ∀ a, RentToOwn.holder d e.pre = some a →
    RentToOwn.holder d e.post = some a ∨ ∃ b, Conveys d a b e
  transfers : ∀ later e earlier admin a b, t = later ++ e :: earlier →
    e.input.2 = .transferPosition admin a b d → Conveys d a b e ∧
      Since (fun e => e.input.2.names d = some a)
        (fun e => (e.input.2.names d).isSome = true) earlier ∧
      ∀ e ∈ earlier, e.input.2.closes d = false
  registered : t.countP (fun e => e.input.2.registers d) ≤ 1

theorem holder_iff (h : (machine own).Run .fresh t s) (a : Address) :
    holder d s = some a ↔ Since (fun e => e.input.2.names d = some a)
      (fun e => (e.input.2.names d).isSome = true) t := by
  rw [h.register_iff (holder d) (fun e => (e.input.2.names d).map some) rfl
    fun hs => ((invoke_changes hs).moves d).holder]
  simp only [Option.map_eq_some_iff, Option.some.injEq, exists_eq_right, Option.isSome_map]

theorem titles_conveyed (h : (machine own).Run .fresh t s) (d : BytesN 32) : Titled d t s where
  holder := holder_iff h
  kept e he _ ha := (invoke_changes (h.committed he).2).kept ha
  transfers := by
    rintro later ⟨pre, ⟨env, c⟩, o, post⟩ earlier admin a b rfl hc
    obtain ⟨hrun, hs⟩ := h.upTo
    cases hc
    have hch : Changes env pre post (.transferPosition admin a b d) o := invoke_changes hs
    have hv := hch.conveys
    exact ⟨hv, (holder_iff hrun a).mp hv.held, open_before hrun hv.active⟩
  registered := (h.once (registers_once own d)).1

end

/-- The position passes from the second account to the third, and the deal is settled. -/
theorem titles_conveyed_settled :
    Titled (.replicate 32 7) ((machine ⟨0⟩).replay .fresh settledCalls).1
        ((machine ⟨0⟩).replay .fresh settledCalls).2 ∧
      holder (.replicate 32 7) ((machine ⟨0⟩).replay .fresh settledCalls).2 = some ⟨3⟩ :=
  ⟨titles_conveyed ((machine ⟨0⟩).run_replay .fresh settledCalls) _, by decide +kernel⟩

end Shelterflex.RentToOwn
