import Shelterflex.DealEscrow.CircuitBreaker
import Shelterflex.DealEscrow.Custody
import Shelterflex.Lib.Session

namespace Shelterflex.DealEscrow
open Lib
set_option autoImplicit true

/-- A committed step of the escrow. -/
abbrev Step (own : Address) (T : Type) := Event (World T) (Action own T) Output

/-- The release that a step requests for a deal. -/
def request (dealId : Bytes) (e : Step own T) : Option PendingRentRelease :=
  match e.input with
  | .call env (.requestRentRelease caller d target amount externalRefSource externalRef) =>
    if d = dealId then
      some ⟨target, amount, caller, env.timestamp,
        env.timestamp + getChallengeWindowSeconds e.pre.escrow, externalRefSource, externalRef⟩
    else none
  | _ => none

/-- The time at which a step challenges the release of a deal. -/
def challenge (dealId : Bytes) (e : Step own T) : Option Nat :=
  match e.input with
  | .call env (.challengeRentRelease _ d _) => if d = dealId then some env.timestamp else none
  | _ => none

/-- The settlement of a deal that a step makes. -/
def settlement (dealId : Bytes) (e : Step own T) : Option Settlement :=
  match e.input, e.output with
  | .call _ c, .settled r => if c.dealId = some dealId then some r else none
  | _, _ => none

def settles (dealId : Bytes) (e : Step own T) : Bool := (settlement dealId e).isSome

/-- The release of a deal that is open at the end of a history, and the steps since its request. -/
def openRelease (dealId : Bytes) (t : List (Step own T)) :
    Option (PendingRentRelease × List (Step own T)) :=
  openSession (request dealId) (settles dealId) t

/-- The time of the last challenge, latest step first. -/
def lastChallenge (dealId : Bytes) (since : List (Step own T)) : Option Nat :=
  since.findSome? (challenge dealId)

/-- The entries of a deal record the release that is open in its history. -/
structure Deal.Records (dealId : Bytes) (t : List (Step own T)) (v : Deal) : Prop where
  pending : v.pending = (openRelease dealId t).map Prod.fst
  dispute : v.dispute.map RentDispute.openedAt =
    (openRelease dealId t).bind fun r => lastChallenge dealId r.2

section
variable {tok : Token T} {env : Env own} {w w' : World T}

theorem requestRentRelease_pending
    (h : requestRentRelease env caller dealId target amount source externalRef s = .ok s') :
    s.pendingRentRelease.get dealId = none ∧
      s'.pendingRentRelease.get dealId = some ⟨target, amount, caller, env.timestamp,
        env.timestamp + getChallengeWindowSeconds s, source, externalRef⟩ := by
  simp only [requestRentRelease, bind_ok, require_ok, u64Add_ok, pure_ok] at h
  obtain ⟨_, _, _, _, _, _, _, _, _, _, _, hp, _, _, _, _, _, ⟨_, rfl⟩, rfl⟩ := h
  exact ⟨hp, Store.get_set_self _ _ _⟩

theorem challengeRentRelease_dispute
    (h : challengeRentRelease env caller dealId challengeEvidenceRef s = .ok s') :
    (s'.rentDispute.get dealId).map RentDispute.openedAt = some env.timestamp := by
  simp only [challengeRentRelease, bind_ok, pure_ok] at h
  obtain ⟨_, _, _, _, _, _, _, _, _, _, _, _, _, _, _, _, rfl⟩ := h
  rw [Store.get_set_self]
  rfl

theorem lastChallenge_cons_of_none {e : Step own T} (h : challenge dealId e = none)
    (since : List (Step own T)) :
    lastChallenge dealId (e :: since) = lastChallenge dealId since := by
  simp only [lastChallenge, List.findSome?_cons, h]

theorem lastChallenge_cons_of_some {e : Step own T} (h : challenge dealId e = some n)
    (since : List (Step own T)) : lastChallenge dealId (e :: since) = some n := by
  simp only [lastChallenge, List.findSome?_cons, h]

theorem Deal.Records.skip {v : Deal} {e : Step own T} (hv : v.Records dealId t)
    (hr : request dealId e = none) (hs : settles dealId e = false)
    (hc : challenge dealId e = none) (hp : v'.pending = v.pending) (hd : v'.dispute = v.dispute) :
    Deal.Records dealId (e :: t) v' := by
  have ho := openSession_of_neither hr hs t
  constructor
  · rw [hp, hv.pending, openRelease, openRelease, ho, Option.map_map]
    rfl
  · rw [hd, hv.dispute, openRelease, openRelease, ho, Option.bind_map]
    congr 1
    funext r
    exact (lastChallenge_cons_of_none hc r.2).symm

theorem Deal.Records.opened {v : Deal} {e : Step own T} (hv : v.Records dealId t)
    (hn : v.pending = none) (hr : request dealId e = some p) (hp : v'.pending = some p)
    (hd : v'.dispute = v.dispute) : Deal.Records dealId (e :: t) v' := by
  have ho : openRelease dealId (e :: t) = some (p, []) := openSession_of_opens hr t
  have hn' : openRelease dealId t = none := Option.map_eq_none_iff.mp (hv.pending ▸ hn)
  constructor
  · rw [ho, hp]
    rfl
  · rw [hd, hv.dispute, ho, hn']
    rfl

theorem Deal.Records.challenged {v : Deal} {e : Step own T} (hv : v.Records dealId t)
    (hp : v.pending = some p) (hr : request dealId e = none) (hs : settles dealId e = false)
    (hc : challenge dealId e = some n) (hp' : v'.pending = v.pending)
    (hd : v'.dispute.map RentDispute.openedAt = some n) : Deal.Records dealId (e :: t) v' := by
  obtain ⟨⟨_, since⟩, ho, _⟩ := Option.map_eq_some_iff.mp (hv.pending ▸ hp)
  have ho' : openRelease dealId (e :: t) = _ := openSession_of_neither hr hs t
  constructor
  · rw [ho', hp', hv.pending, Option.map_map]
    rfl
  · rw [hd, ho', show openSession _ _ t = _ from ho]
    exact (lastChallenge_cons_of_some hc since).symm

theorem Deal.Records.settled {v : Deal} {e : Step own T} (hr : request dealId e = none)
    (hs : settles dealId e = true) (hp : v.pending = none) (hd : v.dispute = none)
    (t : List (Step own T)) : Deal.Records dealId (e :: t) v := by
  have ho : openRelease dealId (e :: t) = none := openSession_of_closes hr hs t
  constructor
  · rw [ho, hp]
    rfl
  · rw [ho, hd]
    rfl

theorem settlement_of_settled {e : Step own T} (hi : e.input = .call env c)
    (ho : e.output = .settled r) (hc : c.dealId = some dealId) : settlement dealId e = some r := by
  simp only [settlement, hi, ho, hc, if_true]

theorem Changes.records (hc : Changes w w' dealId c o) (ha : c.dealId = some dealId)
    (h : invoke tok env w c = some (w', o)) (hv : (deal w.escrow dealId).Records dealId t) :
    (deal w'.escrow dealId).Records dealId (⟨w, .call env c, o, w'⟩ :: t) := by
  obtain ⟨v, hd, hv', _⟩ := hc
  have he : deal w'.escrow dealId = v := by rw [hd, Function.update_self]
  cases hv' with
  | deposit _ _ _ _ => exact he ▸ hv.skip rfl rfl rfl rfl rfl
  | release _ => exact he ▸ hv.skip rfl rfl rfl rfl rfl
  | request hn _ _ =>
    obtain ⟨_, hs, hw⟩ := commit_some.mp h
    cases hw
    have hp := (requestRentRelease_pending hs).2
    exact hv.opened hn (if_pos rfl) hp (by rw [he])
  | challenge hp _ _ =>
    obtain ⟨_, hs, hw⟩ := commit_some.mp h
    cases hw
    exact hv.challenged hp rfl rfl (if_pos rfl) (by rw [he]) (challengeRentRelease_dispute hs)
  | settle _ _ _ _ _ hc =>
    have hr (o) : request dealId ⟨w, .call env c, o, w'⟩ = none := by
      rcases hc with rfl | rfl | ⟨_, _, _, rfl⟩
      · rfl
      · rfl
      · rfl
    exact .settled (hr _) (Option.isSome_of_eq_some (settlement_of_settled rfl rfl ha))
      (by rw [he]) (by rw [he]) t

theorem Deal.Records.other {v : Deal} (hv : v.Records dealId t) (hc : c.dealId ≠ some dealId)
    (w : World T) (env : Env own) (o : Output) (w' : World T) :
    v.Records dealId (⟨w, .call env c, o, w'⟩ :: t) := by
  refine hv.skip ?_ ?_ ?_ rfl rfl
  · cases c with
    | requestRentRelease _ d _ _ _ _ => exact if_neg fun he => hc (congrArg some he)
    | _ => rfl
  · cases o with
    | settled r => exact Option.isSome_eq_false_iff.mpr (Option.isNone_iff_eq_none.mpr (if_neg hc))
    | _ => rfl
  · cases c with
    | challengeRentRelease _ d _ => exact if_neg fun he => hc (congrArg some he)
    | _ => rfl

theorem act_records {a : Action own T} (hr : Ready w.escrow)
    (hv : ∀ dealId, (deal w.escrow dealId).Records dealId t) (h : act tok w a = some (w', o)) :
    ∀ dealId, (deal w'.escrow dealId).Records dealId (⟨w, a, o, w'⟩ :: t) := by
  intro dealId
  cases a with
  | traffic t' =>
    simp only [act, Option.ite_none_right_eq_some, Option.some.injEq, Prod.mk.injEq] at h
    obtain ⟨_, rfl, rfl⟩ := h
    exact (hv dealId).skip rfl rfl rfl rfl rfl
  | call env c =>
    by_cases hc : c.dealId = some dealId
    · rcases invoke_deals hr h with ⟨hn, _⟩ | ⟨dealId', hc', hch⟩
      · cases hn.symm.trans hc
      · cases hc'.symm.trans hc
        exact hch.records hc h (hv dealId)
    · rw [invoke_others hr h hc]
      exact (hv dealId).other hc w env o w'

theorem run_records
    (h : (machine tok own).Run ⟨initialized admin operator token receiptContract, t₀⟩ t w) :
    ∀ dealId, (deal w.escrow dealId).Records dealId t := by
  have hP := h.invariant (P := fun t w => (Ready w.escrow ∧ Positive w.escrow) ∧
    ∀ dealId, (deal w.escrow dealId).Records dealId t) ⟨⟨?_, ?_⟩, ?_⟩
    fun hp hs => ⟨act_ready hp.1.1 hp.1.2 hs, act_records hp.1.1 hp.2 hs⟩
  · exact hP.2
  · exact ⟨by simp [initialized], rfl, by simp [initialized], rfl⟩
  · intro dealId p hp
    cases hp
  · exact fun _ => ⟨rfl, rfl⟩

end

/-- The resolver of the escrow ruled on a deal. -/
def Rules (dealId : Bytes) (outcome : SettlementOutcome) (e : Step own T) : Prop :=
  ∃ env resolver ref, e.input = .call env (.resolveRentDispute resolver dealId outcome ref) ∧
    e.pre.escrow.resolver = some resolver ∧ env.authorized resolver = true

/-- The settlements that a step may make of the release `p` after the steps `since`. -/
inductive Justified (dealId : Bytes) (p : PendingRentRelease) (since : List (Step own T))
    (e : Step own T) : Settlement → Prop where
  | unchallenged : lastChallenge dealId since = none →
      e.input = .call env (.settleRentReleaseTimeout dealId) → p.challengeEndAt ≤ env.timestamp →
      Justified dealId p since e ⟨p.target, p.amount, .releaseToRecipient⟩
  | released : lastChallenge dealId since = some challengedAt →
      Rules dealId .releaseToRecipient e →
      Justified dealId p since e ⟨p.target, p.amount, .releaseToRecipient⟩
  | refunded : lastChallenge dealId since = some challengedAt →
      Rules dealId .refundToDepositor e → e.pre.escrow.dealDepositor.get dealId = some depositor →
      Justified dealId p since e ⟨depositor, p.amount, .refundToDepositor⟩
  | expired : lastChallenge dealId since = some challengedAt →
      e.input = .call env (.settleDisputeTimeout dealId) →
      challengedAt + getDisputeTimeoutSeconds e.pre.escrow ≤ env.timestamp →
      e.pre.escrow.dealDepositor.get dealId = some depositor →
      Justified dealId p since e ⟨depositor, p.amount, .refundToDepositor⟩

/-- The step sends the settled amount to its receiver, in one transfer. -/
def Pays (tok : Token T) (e : Step own T) (r : Settlement) : Prop :=
  ∃ auth, tok.transfer e.pre.token auth own r.recipient r.amount = some e.post.token

section
variable {tok : Token T}

theorem Deal.Records.since {v : Deal} {t : List (Step own T)} (hv : v.Records dealId t)
    (hp : v.pending = some p) : ∃ since, openRelease dealId t = some (p, since) ∧
      lastChallenge dealId since = v.dispute.map RentDispute.openedAt := by
  obtain ⟨⟨_, since⟩, ho, rfl⟩ := Option.map_eq_some_iff.mp (hv.pending ▸ hp)
  refine ⟨since, ho, ?_⟩
  rw [hv.dispute, ho]
  rfl

theorem settleReleaseInner_justified {env : Env own} {a : Action own T}
    (hv : (deal w.escrow dealId).Records dealId t)
    (h : settleReleaseInner tok env dealId outcome w = .ok (w', r))
    (hj : ∀ p depositor since, w.escrow.pendingRentRelease.get dealId = some p →
      w.escrow.dealDepositor.get dealId = some depositor →
      lastChallenge dealId since = (w.escrow.rentDispute.get dealId).map RentDispute.openedAt →
      Justified dealId p since ⟨w, a, o, w'⟩ ⟨outcome.recipient p depositor, p.amount, outcome⟩) :
    ∃ p since, openRelease dealId t = some (p, since) ∧
      Justified dealId p since ⟨w, a, o, w'⟩ r ∧ Pays tok ⟨w, a, o, w'⟩ r := by
  obtain ⟨p, depositor, hp, hd, rfl, ht⟩ := settleReleaseInner_ok h
  obtain ⟨since, ho, hc⟩ := hv.since hp
  exact ⟨p, since, ho, hj p depositor since hp hd hc, _, ht⟩

/-- A settlement is one of the four that the open release allows. -/
theorem act_settles {e : Step own T} (hv : (deal e.pre.escrow dealId).Records dealId t)
    (h : act tok e.pre e.input = some (e.post, e.output)) (hs : settlement dealId e = some r) :
    ∃ p since, openRelease dealId t = some (p, since) ∧ Justified dealId p since e r ∧
      Pays tok e r := by
  obtain ⟨w, a, o, w'⟩ := e
  cases a with
  | traffic _ => cases hs
  | call env c =>
    cases o with
    | settled r' =>
      obtain ⟨hd, he⟩ := Option.ite_none_right_eq_some.mp hs
      cases he
      change invoke tok env w c = some (w', .settled r) at h
      cases c with
      | resolveRentDispute caller _ outcome _ =>
        cases hd
        obtain ⟨⟨_, _⟩, hi, he⟩ := commit_some.mp h
        cases he
        obtain ⟨hres, hauth, ⟨q, hq⟩, hi⟩ := resolveRentDispute_ok hi
        apply settleReleaseInner_justified hv hi
        intro p depositor since _ hdep hc
        rw [hq] at hc
        cases outcome with
        | releaseToRecipient => exact .released hc ⟨_, _, _, rfl, hres, hauth⟩
        | refundToDepositor => exact .refunded hc ⟨_, _, _, rfl, hres, hauth⟩ hdep
      | settleRentReleaseTimeout _ =>
        cases hd
        obtain ⟨⟨_, _⟩, hi, he⟩ := commit_some.mp h
        cases he
        obtain ⟨hn, ⟨p', hp', hle⟩, hi⟩ := settleRentReleaseTimeout_ok hi
        apply settleReleaseInner_justified hv hi
        intro p depositor since hp _ hc
        rw [hn] at hc
        cases hp'.symm.trans hp
        exact .unchallenged hc rfl hle
      | settleDisputeTimeout _ =>
        cases hd
        obtain ⟨⟨_, _⟩, hi, he⟩ := commit_some.mp h
        cases he
        obtain ⟨⟨q, hq, hle⟩, hi⟩ := settleDisputeTimeout_ok hi
        apply settleReleaseInner_justified hv hi
        intro p depositor since _ hdep hc
        rw [hq] at hc
        exact .expired hc rfl hle hdep
      | _ =>
        obtain ⟨_, _, he⟩ := commit_some.mp h
        cases he
    | _ => cases hs

/-- Every settlement answers the last request of its deal, which nothing has settled before. -/
theorem settlement_protocol
    (h : (machine tok own).Run ⟨initialized admin operator token receiptContract, t₀⟩ t w)
    (dealId : Bytes) :
    (∀ later since q before, t = later ++ (since ++ q :: before) →
      (∀ e ∈ since, request dealId e = none) → since.countP (settles dealId) ≤ 1) ∧
    ∀ later e earlier r, t = later ++ e :: earlier → settlement dealId e = some r →
      ∃ p since q before, earlier = since ++ q :: before ∧ request dealId q = some p ∧
        (∀ e ∈ since, request dealId e = none ∧ settles dealId e = false) ∧
        Justified dealId p since e r ∧ r.amount = p.amount ∧ Pays tok e r := by
  have hopen : ∀ later e earlier, t = later ++ e :: earlier → ∀ r, settlement dealId e = some r →
      ∃ p since, openRelease dealId earlier = some (p, since) ∧ Justified dealId p since e r ∧
        Pays tok e r := by
    rintro later e earlier rfl r hr
    obtain ⟨hrun, hs⟩ := h.upTo
    exact act_settles (run_records hrun dealId) hs hr
  constructor
  · intro later since q before ht hn
    refine countP_closes_le_one (fun later e earlier ht hc => ?_) ht hn
    obtain ⟨r, hr⟩ := Option.isSome_iff_exists.mp hc
    obtain ⟨p, since, ho, _⟩ := hopen later e earlier ht r hr
    exact Option.ne_none_iff_exists'.mpr ⟨_, ho⟩
  · intro later e earlier r ht hr
    obtain ⟨p, since, ho, hj, hp⟩ := hopen later e earlier ht r hr
    obtain ⟨q, before, he, hq, hs⟩ := openSession_split ho
    exact ⟨p, since, q, before, he, hq, hs, hj, by cases hj <;> rfl, hp⟩

end

theorem settlement_protocol_drained :
    (((machine plainToken ⟨0⟩).replay fundedStart drained).1.take 4).countP (settles [1]) ≤ 1 :=
  (settlement_protocol ((machine plainToken ⟨0⟩).run_replay fundedStart drained) [1]).1 [] _ _ _
    rfl (by decide)

end Shelterflex.DealEscrow
