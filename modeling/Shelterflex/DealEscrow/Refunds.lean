import Shelterflex.DealEscrow.Protocol

namespace Shelterflex.DealEscrow
open Lib
set_option autoImplicit true

/-- What a step pays into a deal from an account. -/
def deposited (dealId : Bytes) (a : Address) (e : Step own T) : Int :=
  match e.input with
  | .call _ (.deposit source d amount) => if d = dealId ∧ source = a then amount else 0
  | _ => 0

/-- What a step refunds to an account from a deal. -/
def refunded (dealId : Bytes) (a : Address) (e : Step own T) : Int :=
  match settlement dealId e with
  | some ⟨recipient, amount, .refundToDepositor⟩ => if recipient = a then amount else 0
  | _ => 0

def totalDeposited (dealId : Bytes) (a : Address) (t : List (Step own T)) : Int :=
  (t.map (deposited dealId a)).sum

def totalRefunded (dealId : Bytes) (a : Address) (t : List (Step own T)) : Int :=
  (t.map (refunded dealId a)).sum

/-- A deposit into a deal that has another depositor on record. -/
def pools (dealId : Bytes) (e : Step own T) : Bool :=
  match e.input with
  | .call _ (.deposit source d _) =>
    decide (d = dealId) && (e.pre.escrow.dealDepositor.get d).any fun a => decide (a ≠ source)
  | _ => false

/-- The deal still holds what its depositor has paid in and not got back. -/
structure Deal.Owes (dealId : Bytes) (t : List (Step own T)) (v : Deal) : Prop where
  backed : v.Backed
  positive : ∀ p, v.pending = some p → 0 < p.amount
  vacant : v.depositor = none → v.balance = 0
  paid : ∀ a, (if v.depositor = some a then v.balance else 0) + totalRefunded dealId a t ≤
    totalDeposited dealId a t

section
variable {tok : Token T} {env : Env own} {w w' : World T}

theorem totalDeposited_cons (e : Step own T) (t : List (Step own T)) :
    totalDeposited dealId a (e :: t) = deposited dealId a e + totalDeposited dealId a t := rfl

theorem totalRefunded_cons (e : Step own T) (t : List (Step own T)) :
    totalRefunded dealId a (e :: t) = refunded dealId a e + totalRefunded dealId a t := rfl

theorem refunded_of_refund {e : Step own T}
    (h : settlement dealId e = some ⟨b, n, .refundToDepositor⟩) (a : Address) :
    refunded dealId a e = if b = a then n else 0 := by
  simp only [refunded, h]

theorem refunded_of_release {e : Step own T}
    (h : settlement dealId e = some ⟨b, n, .releaseToRecipient⟩) (a : Address) :
    refunded dealId a e = 0 := by
  simp only [refunded, h]

theorem Deal.Owes.skip {v : Deal} {e : Step own T} (hv : v.Owes dealId t)
    (hd : ∀ a, deposited dealId a e = 0) (hr : ∀ a, refunded dealId a e = 0)
    (hb : v'.Backed) (hp : ∀ p, v'.pending = some p → 0 < p.amount)
    (ho : v'.depositor = v.depositor) (hle : v'.balance ≤ v.balance) :
    Deal.Owes dealId (e :: t) v' := by
  refine ⟨hb, hp, fun hn => ?_, fun a => ?_⟩
  · have hz := hv.vacant (ho ▸ hn)
    have hb' := hb.nonneg
    omega
  · rw [totalDeposited_cons, totalRefunded_cons, hd, hr, zero_add, zero_add, ho]
    apply le_trans _ (hv.paid a)
    split
    · exact add_le_add_left hle _
    · exact le_rfl

/-- The depositor on record, if any, pays into the deal. -/
theorem Deal.Owes.deposit {v : Deal} {e : Step own T} (hv : v.Owes dealId t)
    (hd : ∀ a, deposited dealId a e = if source = a then amount else 0)
    (hr : ∀ a, refunded dealId a e = 0) (hs : ∀ a, v.depositor = some a → a = source)
    (hb : v'.Backed) (hp : ∀ p, v'.pending = some p → 0 < p.amount)
    (ho : v'.depositor = some source) (hbal : v'.balance = v.balance + amount) :
    Deal.Owes dealId (e :: t) v' := by
  refine ⟨hb, hp, fun hn => ?_, fun a => ?_⟩
  · rw [ho] at hn
    cases hn
  · have hle := hv.paid a
    rw [totalDeposited_cons, totalRefunded_cons, hd, hr, zero_add, ho, hbal]
    by_cases he : source = a
    · subst he
      cases hn : v.depositor with
      | none =>
        have hz := hv.vacant hn
        simp only [hn, reduceCtorEq, if_false, if_true] at hle ⊢
        omega
      | some b =>
        cases hs b hn
        simp only [hn, if_true] at hle ⊢
        omega
    · have hn : ¬ v.depositor = some a := fun h => he (hs a h).symm
      rw [if_neg hn] at hle
      rw [if_neg (fun h => he (Option.some.inj h)), if_neg he]
      omega

theorem Deal.Owes.refund {v : Deal} {e : Step own T} {b : Address} (hv : v.Owes dealId t)
    (hd : ∀ a, deposited dealId a e = 0)
    (hr : ∀ a, refunded dealId a e = if b = a then amount else 0)
    (hb : v'.Backed) (hp : ∀ p, v'.pending = some p → 0 < p.amount)
    (ho : v.depositor = some b) (ho' : v'.depositor = v.depositor)
    (hbal : v'.balance = v.balance - amount) :
    Deal.Owes dealId (e :: t) v' := by
  refine ⟨hb, hp, fun hn => ?_, fun a => ?_⟩
  · rw [ho', ho] at hn
    cases hn
  · have hle := hv.paid a
    rw [totalDeposited_cons, totalRefunded_cons, hd, hr, zero_add, ho', ho, hbal]
    rw [ho] at hle
    by_cases he : b = a
    · simp only [he, if_true] at hle ⊢
      omega
    · rw [if_neg (fun h => he (Option.some.inj h))] at hle ⊢
      rw [if_neg he]
      omega

theorem Changes.owes (hc : Changes w w' dealId c o) (ha : c.dealId = some dealId)
    (h : invoke tok env w c = some (w', o)) (hv : (deal w.escrow dealId).Owes dealId t)
    (hC : pools dealId ⟨w, .call env c, o, w'⟩ = false) :
    (deal w'.escrow dealId).Owes dealId (⟨w, .call env c, o, w'⟩ :: t) := by
  obtain ⟨v, hd, hv', _⟩ := hc
  have he : deal w'.escrow dealId = v := by rw [hd, Function.update_self]
  have hb := hv'.backed hv.backed
  have hp := hv'.positive hv.positive
  rw [he]
  cases hv' with
  | @deposit amount source hpos _ _ _ =>
    have hs : ∀ a, (deal w.escrow dealId).depositor = some a → a = source := by
      intro a hn
      have hn' : w.escrow.dealDepositor.get dealId = some a := hn
      simpa [pools, hn'] using hC
    refine hv.deposit (fun a => by simp [deposited]) (fun _ => rfl) hs hb hp ?_ rfl
    cases hn : (deal w.escrow dealId).depositor with
    | none => rfl
    | some a =>
      cases hs a hn
      rfl
  | release hpos => exact hv.skip (fun _ => rfl) (fun _ => rfl) hb hp rfl hpos.le
  | request _ _ _ => exact hv.skip (fun _ => rfl) (fun _ => rfl) hb hp rfl le_rfl
  | challenge _ _ _ => exact hv.skip (fun _ => rfl) (fun _ => rfl) hb hp rfl le_rfl
  | settle hpe _ _ _ _ hc =>
    have hin (a o) : deposited dealId a ⟨w, .call env c, o, w'⟩ = 0 := by
      rcases hc with rfl | rfl | ⟨_, _, _, rfl⟩
      · rfl
      · rfl
      · rfl
    obtain ⟨d, outcome, hd', hs⟩ := invoke_settled h
    cases ha.symm.trans hd'
    obtain ⟨p, b, hpe', hdep, hr, _⟩ := settleReleaseInner_ok hs
    obtain rfl := Option.some.inj (hpe'.symm.trans hpe)
    rw [hr]
    have hset : settlement dealId ⟨w, .call env c, .settled ⟨outcome.recipient p b, p.amount,
        outcome⟩, w'⟩ = some _ := settlement_of_settled rfl rfl ha
    have hpos := hv.positive _ hpe
    have htot := hv.backed.total
    cases outcome with
    | releaseToRecipient =>
      refine hv.skip (fun a => hin a _) (refunded_of_release hset) hb hp rfl ?_
      dsimp only
      omega
    | refundToDepositor =>
      refine hv.refund (fun a => hin a _) (refunded_of_refund hset) hb hp hdep rfl ?_
      dsimp only
      omega

theorem Deal.Owes.other {v : Deal} {e : Step own T} (hv : v.Owes dealId t)
    (hd : ∀ a, deposited dealId a e = 0) (hs : settlement dealId e = none) :
    v.Owes dealId (e :: t) :=
  hv.skip hd (fun a => by simp only [refunded, hs]) hv.backed hv.positive rfl le_rfl

theorem act_owes {a : Action own T} (hr : Ready w.escrow)
    (hv : (deal w.escrow dealId).Owes dealId t) (h : act tok w a = some (w', o))
    (hC : pools dealId ⟨w, a, o, w'⟩ = false) :
    (deal w'.escrow dealId).Owes dealId (⟨w, a, o, w'⟩ :: t) := by
  cases a with
  | traffic t' =>
    simp only [act, Option.ite_none_right_eq_some, Option.some.injEq, Prod.mk.injEq] at h
    obtain ⟨_, rfl, rfl⟩ := h
    exact hv.other (fun _ => rfl) rfl
  | call env c =>
    by_cases hc : c.dealId = some dealId
    · rcases invoke_deals hr h with ⟨hn, _⟩ | ⟨dealId', hc', hch⟩
      · cases hn.symm.trans hc
      · cases hc'.symm.trans hc
        exact hch.owes hc h hv hC
    · rw [invoke_others hr h hc]
      apply hv.other
      · intro a
        cases c with
        | deposit _ d _ => exact if_neg fun he => hc (congrArg some he.1)
        | _ => rfl
      · cases o with
        | settled r => exact if_neg hc
        | _ => rfl

/-- Refunds of a deal give an account at most what it paid in, as long as no one else than the
depositor on record pays into the deal. -/
theorem refunds_within_deposits
    (h : (machine tok own).Run ⟨initialized admin operator token receiptContract, t₀⟩ t w)
    (dealId : Bytes) (hC : ∀ e ∈ t, pools dealId e = false) (a : Address) :
    totalRefunded dealId a t ≤ totalDeposited dealId a t := by
  have hP := h.invariant_of (P := fun t w => (Ready w.escrow ∧ Positive w.escrow) ∧
    (deal w.escrow dealId).Owes dealId t) hC ⟨⟨?_, ?_⟩, ?_⟩
    fun hp hs hc => ⟨act_ready hp.1.1 hp.1.2 hs, act_owes hp.1.1 hp.2 hs hc⟩
  · have hle := hP.2.paid a
    have hn := hP.2.backed.nonneg
    split at hle <;> omega
  · exact ⟨by simp [initialized], rfl, by simp [initialized], rfl⟩
  · intro dealId p hp
    cases hp
  · refine ⟨⟨rfl, le_rfl⟩, fun p hp => ?_, fun _ => rfl, fun a => le_rfl⟩
    cases hp

end

/-- A stranger opens deal `1` with a deposit of `10`, the tenant pays `100`, and the release of the
rent is challenged by the stranger and not resolved in time. -/
def strangerFirst : List (Action ⟨0⟩ (Address → Int)) :=
  [.call (.signed ⟨0⟩ 0) (.deposit ⟨7⟩ [1] 10),
    .call (.signed ⟨0⟩ 1) (.deposit ⟨3⟩ [1] 100),
    .call (.signed ⟨0⟩ 2) (.requestRentRelease ⟨2⟩ [1] ⟨4⟩ 110 [1] [1]),
    .call (.signed ⟨0⟩ 3) (.challengeRentRelease ⟨7⟩ [1] [1]),
    .call (.signed ⟨0⟩ 172803) (.settleDisputeTimeout [1])]

/-- The same with the deposit of the stranger in another deal. -/
def strangerApart : List (Action ⟨0⟩ (Address → Int)) :=
  [.call (.signed ⟨0⟩ 0) (.deposit ⟨7⟩ [2] 10),
    .call (.signed ⟨0⟩ 1) (.deposit ⟨3⟩ [1] 100),
    .call (.signed ⟨0⟩ 2) (.requestRentRelease ⟨2⟩ [1] ⟨4⟩ 100 [1] [1]),
    .call (.signed ⟨0⟩ 3) (.challengeRentRelease ⟨3⟩ [1] [1]),
    .call (.signed ⟨0⟩ 172803) (.settleDisputeTimeout [1])]

theorem refunds_within_deposits_apart :
    totalRefunded [1] ⟨3⟩ ((machine plainToken ⟨0⟩).replay fundedStart strangerApart).1 = 100 ∧
      totalRefunded [1] ⟨3⟩ ((machine plainToken ⟨0⟩).replay fundedStart strangerApart).1 ≤
        totalDeposited [1] ⟨3⟩ ((machine plainToken ⟨0⟩).replay fundedStart strangerApart).1 :=
  ⟨by decide, refunds_within_deposits
    ((machine plainToken ⟨0⟩).run_replay fundedStart strangerApart) [1] (by decide) ⟨3⟩⟩

theorem refunds_exceed_deposits :
    ¬ ∀ t w, (machine plainToken ⟨0⟩).Run fundedStart t w →
      ∀ dealId a, totalRefunded dealId a t ≤ totalDeposited dealId a t := by
  intro hall
  have hr := (machine plainToken ⟨0⟩).run_replay fundedStart strangerFirst
  exact absurd (hall _ _ hr [1] ⟨7⟩) (by decide)

end Shelterflex.DealEscrow
