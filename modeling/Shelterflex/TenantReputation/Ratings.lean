import Shelterflex.Lib.Since
import Shelterflex.TenantReputation.Decay

/-! What is read of a tenant, against the calls of a run. -/

namespace Shelterflex.TenantReputation
open Lib
set_option autoImplicit true

abbrev Step (own : Address) := Event State (Env own × Call) Unit

abbrev History (own : Address) := List (Step own)

/-- What a call leaves of a tenant: a record with its score cut to the bounds of that time, or
nothing. -/
def leaves (tenant : Address) (e : Step own) : Option (Option ReputationRecord) :=
  match e.input.2 with
  | .updateReputation _ tenant' record =>
    if tenant = tenant' then
      some (some { record with
        compositeScore := clampScore e.pre record.compositeScore
        lastUpdated := e.input.1.timestamp })
    else none
  | .revokeReputation _ tenant' => if tenant = tenant' then some none else none
  | _ => none

/-- The rate and the period of the decay that a call sets. -/
def decaySet (e : Step own) : Option (UInt32 × Nat) :=
  match e.input.2 with
  | .init _ _ => some (0, 86400)
  | .setDecayConfig _ rate period => some (rate, period)
  | _ => none

/-- The least and the greatest score that a call sets. -/
def boundsSet (e : Step own) : Option (UInt32 × UInt32) :=
  match e.input.2 with
  | .init _ _ => some (0, 1000)
  | .setScoreBounds _ least greatest => some (least, greatest)
  | _ => none

def SignedByAdmin (e : Step own) : Prop :=
  ∃ admin, e.pre.admin = some admin ∧ e.input.1.authorized admin = true

/-- A call of the admin or the operator, while the contract was not paused. -/
structure MayRate (e : Step own) : Prop where
  signed : SignedByAdmin e ∨
    ∃ operator, e.pre.operator = some operator ∧ e.input.1.authorized operator = true
  unpaused : e.pre.paused.getD false = false

structure Rates (tenant : Address) (rating : ReputationRecord) (e : Step own) : Prop where
  call : ∃ caller, e.input.2 = .updateReputation caller tenant rating
  allowed : MayRate e

/-- A call that rates the tenant, or revokes its record. -/
def Touches (tenant : Address) (e : Step own) : Prop :=
  match e.input.2 with
  | .updateReputation _ tenant' _ | .revokeReputation _ tenant' => tenant = tenant'
  | _ => False

/-- The last call about a tenant rates it; with the calls before that one. -/
structure RatedLast (tenant : Address) (rating : ReputationRecord) (t : History own) (e : Step own)
    (earlier : History own) : Prop where
  last : ∃ later, t = later ++ e :: earlier ∧ ∀ e' ∈ later, ¬ Touches tenant e'
  rates : Rates tenant rating e

/-- A score cut to a least and a greatest one, the greatest going before the least. -/
def cutTo (bounds : UInt32 × UInt32) (score : UInt32) : Nat :=
  min (max score.toNat bounds.1.toNat) bounds.2.toNat

/-- A score some seconds after it was given, by a rate for each period and a least score. -/
def decayedScore (decay : UInt32 × Nat) (least : UInt32) (score elapsed : Nat) : Nat :=
  if decay.1 = 0 ∨ decay.2 = 0 then score
  else scoreAfter score least.toNat decay.1.toNat (elapsed / decay.2)

def decayConfig (s : State) : UInt32 × Nat :=
  (s.decayRatePerPeriod.getD 0, s.decayPeriodSecs.getD 86400)

def scoreBounds (s : State) : UInt32 × UInt32 := (scoreMin s, scoreMax s)

/-- What a call does to what is read. -/
structure Writes (e : Step own) : Prop where
  reputation : ∀ tenant, e.post.reputation.get tenant =
    (leaves tenant e).getD (e.pre.reputation.get tenant)
  decay : decayConfig e.post = (decaySet e).getD (decayConfig e.pre)
  bounds : scoreBounds e.post = (boundsSet e).getD (scoreBounds e.pre)
  allowed : ∀ tenant record, leaves tenant e = some (some record) → MayRate e

section
variable {env : Env own}

theorem updateReputation_writes (h : updateReputation env caller tenant record s = .ok s') :
    Writes ⟨s, (env, .updateReputation caller tenant record), (), s'⟩ := by
  simp only [updateReputation, requireNotPaused, bind_ok, require_ok, getAdmin, getOperator,
    orPanic_ok, okOr_ok, requireAdminOrOperatorPermission, requireAuth_ok, pure_ok] at h
  obtain ⟨_, hopen, admin, hadmin, operator, hoperator, _, ⟨_, hauth, hcaller⟩, rfl⟩ := h
  refine ⟨fun tenant' => ?_, rfl, rfl, fun _ _ _ => ⟨?_, hopen⟩⟩
  · change (s.reputation.set tenant _).get tenant' =
      Option.getD (if tenant' = tenant then _ else _) _
    rw [Store.get_set]
    split <;> rfl
  · rcases hcaller with rfl | hcaller
    · exact .inl ⟨caller, hadmin, hauth⟩
    · cases hcaller
      exact .inr ⟨caller, hoperator, hauth⟩

theorem revokeReputation_writes (h : revokeReputation env caller tenant s = .ok s') :
    Writes ⟨s, (env, .revokeReputation caller tenant), (), s'⟩ := by
  simp only [revokeReputation, bind_ok, getAdmin, orPanic_ok, okOr_ok] at h
  obtain ⟨_, _, _, _, h⟩ := h
  have hget (tenant' : Address) : s'.reputation.get tenant' =
      if tenant' = tenant then none else s.reputation.get tenant' := by
    split at h
    · cases pure_ok.mp h
      exact Store.get_remove _ _ _
    · rename_i hn
      cases pure_ok.mp h
      split
      · rename_i he
        subst he
        simpa only [Store.has, Bool.not_eq_true, Option.isSome_eq_false_iff,
          Option.isNone_iff_eq_none] using hn
      · rfl
  have hrest : decayConfig s' = decayConfig s ∧ scoreBounds s' = scoreBounds s := by
    split at h <;> cases pure_ok.mp h <;> exact ⟨rfl, rfl⟩
  refine ⟨fun tenant' => ?_, hrest.1, hrest.2, fun tenant' record' hw => ?_⟩
  · rw [hget]
    change _ = Option.getD (if tenant' = tenant then _ else _) _
    split <;> rfl
  · change (if tenant' = tenant then _ else _) = _ at hw
    split at hw <;> cases hw

theorem Writes.of_config {c : Call} (hr : s'.reputation = s.reputation)
    (hd : decayConfig s' = (decaySet ⟨s, (env, c), (), s'⟩).getD (decayConfig s))
    (hb : scoreBounds s' = (boundsSet ⟨s, (env, c), (), s'⟩).getD (scoreBounds s))
    (hl : ∀ tenant, leaves tenant ⟨s, (env, c), (), s'⟩ = none) :
    Writes ⟨s, (env, c), (), s'⟩ := by
  refine ⟨fun tenant => ?_, hd, hb, fun tenant record hw => ?_⟩
  · rw [hl]
    exact congrArg (Store.get · tenant) hr
  · cases (hl tenant).symm.trans hw

theorem invoke_writes (h : invoke env s c = some (s', o)) : Writes ⟨s, (env, c), o, s'⟩ := by
  cases c with
  | updateReputation _ _ _ =>
    obtain ⟨_, hs, he⟩ := commit_some.mp h
    cases he
    exact updateReputation_writes hs
  | revokeReputation _ _ =>
    obtain ⟨_, hs, he⟩ := commit_some.mp h
    cases he
    exact revokeReputation_writes hs
  | init _ _ =>
    obtain ⟨_, hs, he⟩ := commit_some.mp h
    cases he
    simp only [init, bind_ok, pure_ok] at hs
    obtain ⟨_, _, rfl⟩ := hs
    exact .of_config rfl rfl rfl fun _ => rfl
  | setDecayConfig _ _ _ | setScoreBounds _ _ _ =>
    obtain ⟨_, hs, he⟩ := commit_some.mp h
    cases he
    simp only [setDecayConfig, setScoreBounds, bind_ok, pure_ok] at hs
    obtain ⟨_, _, _, _, rfl⟩ := hs
    exact .of_config rfl rfl rfl fun _ => rfl
  | pause _ | unpause _ =>
    obtain ⟨_, hs, he⟩ := commit_some.mp h
    cases he
    simp only [pause, unpause, bind_ok, pure_ok] at hs
    obtain ⟨_, _, _, _, rfl⟩ := hs
    exact .of_config rfl rfl rfl fun _ => rfl

end

/-- The decay that the last call to set it has set; before that scores do not decay. -/
def decayInForce (t : History own) : UInt32 × Nat := (t.filterMap decaySet).head?.getD (0, 86400)

def boundsInForce (t : History own) : UInt32 × UInt32 :=
  (t.filterMap boundsSet).head?.getD (0, 1000)

theorem head_filterMap_cons (f : α → Option β) (a : α) (l : List α) (d : β) :
    ((a :: l).filterMap f).head?.getD d = (f a).getD ((l.filterMap f).head?.getD d) := by
  rw [List.filterMap_cons]
  cases f a <;> rfl

section
variable {t : History own}

theorem config_inForce (h : (machine own).Run .fresh t s) :
    decayConfig s = decayInForce t ∧ scoreBounds s = boundsInForce t := by
  refine h.invariant (P := fun t s => decayConfig s = decayInForce t ∧
    scoreBounds s = boundsInForce t) ⟨rfl, rfl⟩ ?_
  rintro t s ⟨env, c⟩ s' o ⟨hdecay, hbounds⟩ hs
  have hw := invoke_writes hs
  constructor
  · rw [decayInForce, head_filterMap_cons, ← decayInForce, ← hdecay]
    exact hw.decay
  · rw [boundsInForce, head_filterMap_cons, ← boundsInForce, ← hbounds]
    exact hw.bounds

theorem toNat_clampScore (s : State) (score : UInt32) :
    (clampScore s score).toNat = cutTo (scoreBounds s) score := by
  rw [clampScore, toNat_min, toNat_max]
  rfl

theorem leaves_record {e : Step own} : leaves tenant e = some (some record) ↔
    ∃ caller rating, e.input.2 = .updateReputation caller tenant rating ∧
      record = { rating with
        compositeScore := clampScore e.pre rating.compositeScore
        lastUpdated := e.input.1.timestamp } := by
  rcases e with ⟨s, ⟨env, c⟩, o, s'⟩
  cases c with
  | updateReputation caller tenant' rating =>
    change (if tenant = tenant' then _ else _) = _ ↔ _
    constructor
    · intro h
      split at h
      · rename_i he
        subst he
        cases h
        exact ⟨caller, rating, rfl, rfl⟩
      · cases h
    · rintro ⟨_, _, hc, rfl⟩
      cases hc
      exact if_pos rfl
  | revokeReputation _ tenant' =>
    change (if tenant = tenant' then _ else _) = _ ↔ _
    refine iff_of_false (fun h => ?_) nofun
    split at h <;> cases h
  | _ => exact iff_of_false nofun nofun

theorem leaves_isSome (e : Step own) : (leaves tenant e).isSome ↔ Touches tenant e := by
  rcases e with ⟨s, ⟨env, c⟩, o, s'⟩
  cases c with
  | updateReputation _ tenant' _ | revokeReputation _ tenant' =>
    change ((if tenant = tenant' then some _ else none : Option _).isSome = true) ↔
      tenant = tenant'
    split <;> simp_all
  | _ => exact iff_of_false nofun id

/-- The record of a tenant is its last rating, cut to the bounds of that time. -/
theorem record_iff (h : (machine own).Run .fresh t s) : s.reputation.get tenant = some record ↔
    ∃ e earlier rating, RatedLast tenant rating t e earlier ∧
      record = { rating with
        compositeScore := record.compositeScore
        lastUpdated := e.input.1.timestamp } ∧
      record.compositeScore.toNat = cutTo (boundsInForce earlier) rating.compositeScore := by
  have hbounds {later : History own} {e : Step own} {earlier : History own}
      (ht : t = later ++ e :: earlier) : scoreBounds e.pre = boundsInForce earlier :=
    (config_inForce (Machine.Run.upTo (ht ▸ h)).1).2
  rw [h.register_iff (fun s => s.reputation.get tenant) (leaves tenant) rfl
    fun hs => (invoke_writes hs).reputation tenant, since_iff_append]
  constructor
  · rintro ⟨later, e, earlier, ht, he, hnone⟩
    obtain ⟨caller, rating, hc, rfl⟩ := leaves_record.mp he
    have hmem : e ∈ t := ht ▸ List.mem_append_right _ List.mem_cons_self
    refine ⟨e, earlier, rating, ⟨⟨later, ht, fun e' he' hq => hnone e' he' ?_⟩, ⟨caller, hc⟩,
      (invoke_writes (h.committed hmem).2).allowed tenant _ he⟩, rfl, ?_⟩
    · exact (leaves_isSome e').mpr hq
    · rw [toNat_clampScore, hbounds ht]
  · rintro ⟨e, earlier, rating, ⟨⟨later, ht, hnone⟩, ⟨caller, hc⟩, _⟩, hr, hscore⟩
    refine ⟨later, e, earlier, ht, leaves_record.mpr ⟨caller, rating, hc, ?_⟩,
      fun e' he' hq => hnone e' he' ((leaves_isSome e').mp hq)⟩
    have hclamp : record.compositeScore = clampScore e.pre rating.compositeScore := by
      apply UInt32.toNat_inj.mp
      rw [hscore, toNat_clampScore, hbounds ht]
    rw [hr, ← hclamp]

end

theorem toNat_computeDecayedScore (env : Env own) (s : State) (record : ReputationRecord)
    (hfew : (env.timestamp - record.lastUpdated) / (decayConfig s).2 < 2 ^ 32) :
    (computeDecayedScore env s record).1.toNat = decayedScore (decayConfig s) (scoreBounds s).1
      record.compositeScore.toNat (env.timestamp - record.lastUpdated) := by
  rw [decayedScore]
  split
  · rename_i hoff
    rw [decayedScore_off env hoff]
  · rename_i hon
    obtain ⟨hrate, hperiod⟩ := not_or.mp hon
    have hcount : periodsAt s record env.timestamp =
        (env.timestamp - record.lastUpdated) / (decayConfig s).2 := Nat.mod_eq_of_lt hfew
    rw [toNat_decayedScore env hrate hperiod, scoreAt, hcount]
    rfl

/-- What is read of a tenant at any time is the last rating, made by the admin or the operator and
not revoked since, cut to the bounds of when it was made and decayed from then on as the decay and
the least score in force at the reading say; and nothing is read where there is no such rating. The
decay is exact until `2 ^ 32` periods have passed. -/
theorem reputation_exact (h : (machine own).Run .fresh t s) (env : Env own) :
    (getReputation env tenant s = none ↔
      ∀ e earlier rating, ¬ RatedLast tenant rating t e earlier) ∧
    ∀ e earlier rating, RatedLast tenant rating t e earlier →
      (env.timestamp - e.input.1.timestamp) / (decayInForce t).2 < 2 ^ 32 →
      ∃ score, getReputation env tenant s = some { rating with
          compositeScore := score
          lastUpdated := e.input.1.timestamp } ∧
        score.toNat = decayedScore (decayInForce t) (boundsInForce t).1
          (cutTo (boundsInForce earlier) rating.compositeScore)
          (env.timestamp - e.input.1.timestamp) := by
  obtain ⟨hdecay, hbounds⟩ := config_inForce h
  have hstored {e : Step own} {earlier : History own} {rating : ReputationRecord}
      (hlast : RatedLast tenant rating t e earlier) : ∃ score : UInt32,
      score.toNat = cutTo (boundsInForce earlier) rating.compositeScore ∧
      s.reputation.get tenant = some { rating with
        compositeScore := score
        lastUpdated := e.input.1.timestamp } := by
    have hfits : cutTo (boundsInForce earlier) rating.compositeScore < 2 ^ 32 :=
      (Nat.min_le_right _ _).trans_lt (UInt32.toNat_lt _)
    have hscore : (UInt32.ofNat (cutTo (boundsInForce earlier) rating.compositeScore)).toNat =
        cutTo (boundsInForce earlier) rating.compositeScore := UInt32.toNat_ofNat_of_lt' hfits
    exact ⟨_, hscore, (record_iff h).mpr ⟨e, earlier, rating, hlast, rfl, hscore⟩⟩
  constructor
  · constructor
    · intro hr e earlier rating hlast
      obtain ⟨score, _, hget⟩ := hstored hlast
      rw [getReputation_some env hget] at hr
      cases hr
    · intro hnone
      cases hget : s.reputation.get tenant with
      | none => rw [getReputation, hget]
      | some record =>
        obtain ⟨e, earlier, rating, hlast, _⟩ := (record_iff h).mp hget
        exact absurd hlast (hnone e earlier rating)
  · intro e earlier rating hlast hfew
    obtain ⟨score, hscore, hget⟩ := hstored hlast
    rw [← hdecay] at hfew
    refine ⟨_, getReputation_some env hget, ?_⟩
    rw [toNat_computeDecayedScore env s _ hfew, hdecay, hbounds, hscore]

/-- The tenant is rated a second time, above the greatest score, and another one is revoked. -/
def reratedCalls : List (Env ⟨0⟩ × Call) :=
  ratedCalls 10 50 150 ++
    [(.signed ⟨0⟩ 200, .updateReputation ⟨1⟩ ⟨3⟩ ⟨5000, 60, 70, 90, 6, 0⟩),
      (.signed ⟨0⟩ 210, .revokeReputation ⟨1⟩ ⟨4⟩)]

def rerated : History ⟨0⟩ × State := (machine ⟨0⟩).replay .fresh reratedCalls

theorem reputation_exact_rerated :
    getReputation (.signed ⟨0⟩ 310) ⟨3⟩ rerated.2 = some ⟨980, 60, 70, 90, 6, 200⟩ ∧
      ∃ e earlier rating, RatedLast ⟨3⟩ rating rerated.1 e earlier ∧
        decayedScore (decayInForce rerated.1) (boundsInForce rerated.1).1
          (cutTo (boundsInForce earlier) rating.compositeScore)
          (310 - e.input.1.timestamp) = 980 := by
  have hr : getReputation (.signed ⟨0⟩ 310) ⟨3⟩ rerated.2 = some ⟨980, 60, 70, 90, 6, 200⟩ := by
    decide
  have hrun : (machine ⟨0⟩).Run .fresh rerated.1 rerated.2 :=
    (machine ⟨0⟩).run_replay .fresh reratedCalls
  obtain ⟨hnone, hread⟩ := reputation_exact hrun (.signed ⟨0⟩ 310)
  obtain ⟨e, earlier, rating, hlast⟩ : ∃ e earlier rating,
      RatedLast ⟨3⟩ rating rerated.1 e earlier := by
    by_contra hn
    rw [hnone.mpr fun e earlier rating hlast => hn ⟨e, earlier, rating, hlast⟩] at hr
    cases hr
  have hfew : (310 - e.input.1.timestamp) / (decayInForce rerated.1).2 < 2 ^ 32 :=
    (Nat.div_le_self _ _).trans_lt (by omega)
  obtain ⟨score, hscore, hn⟩ := hread e earlier rating hlast hfew
  rw [hr] at hscore
  obtain rfl : 980 = score := congrArg ReputationRecord.compositeScore (Option.some.inj hscore)
  exact ⟨hr, e, earlier, rating, hlast, hn.symm⟩

end Shelterflex.TenantReputation
