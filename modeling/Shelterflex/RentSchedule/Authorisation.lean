import Shelterflex.RentSchedule.Model

/-! Who changes a stored schedule. -/

namespace Shelterflex.RentSchedule
open Lib
set_option autoImplicit true

abbrev History (own : Address) := List (Event State (Env own × Call) Unit)

/-- The admin and the operator of the configuration. -/
def Officer (s : State) (a : Address) : Prop :=
  ∃ cfg, s.config = some cfg ∧ (a = cfg.admin ∨ a = cfg.operator)

/-- What a payment makes of an instalment. -/
def ScheduledInstalment.pay (amount : Int) (txId : BytesN 32) (paidAt : Nat)
    (inst : ScheduledInstalment) : ScheduledInstalment :=
  if inst.amountPaid + amount = inst.amountDue then
    { inst with
      amountPaid := inst.amountPaid + amount
      status := .paid
      paidAt := some paidAt
      lastTxId := some txId }
  else { inst with amountPaid := inst.amountPaid + amount, lastTxId := some txId }

/-- Neither paid in full nor waived. -/
def ScheduledInstalment.Open (inst : ScheduledInstalment) : Prop :=
  inst.status ≠ .paid ∧ inst.status ≠ .waived

/-- The first instalment with a number was replaced in the schedule of a deal. -/
structure Edits (dealId : Bytes) (n : Nat) (inst inst' : ScheduledInstalment) (s s' : State) :
    Prop where
  stored : ∃ schedule idx, s.schedule.get dealId = some schedule ∧
    schedule.findIdx? (·.instalmentNumber = n) = some idx ∧ schedule[idx]? = some inst ∧
    s'.schedule = s.schedule.set dealId (schedule.set idx inst')
  config : s'.config = s.config

inductive Changes (env : Env own) (s s' : State) : Call → Prop where
  | init (hn : s.config = none) (hs : s'.schedule = s.schedule) :
      Changes env s s' (.init admin operator)
  | pause (hs : s'.schedule = s.schedule) (hc : s'.config = s.config) :
      Changes env s s' (.pause caller)
  | unpause (hs : s'.schedule = s.schedule) (hc : s'.config = s.config) :
      Changes env s s' (.unpause caller)
  | create (ho : Officer s caller) (ha : env.authorized caller = true)
      (hn : s.schedule.get dealId = none) (hs : s'.schedule = s.schedule.set dealId instalments)
      (hc : s'.config = s.config) : Changes env s s' (.createSchedule caller dealId instalments)
  | pay (ha : env.authorized caller = true) (hpos : 0 < amount) (ho : inst.Open)
      (hle : amount ≤ inst.amountDue - inst.amountPaid)
      (he : Edits dealId n inst (inst.pay amount txId paidAt) s s') :
      Changes env s s' (.recordPayment caller dealId n amount txId paidAt)
  | overdue (ho : Officer s caller) (ha : env.authorized caller = true) (hop : inst.Open)
      (hlt : inst.amountPaid < inst.amountDue)
      (he : Edits dealId n inst { inst with status := .overdue } s s') :
      Changes env s s' (.markOverdue caller dealId n)
  | waive (ho : Officer s caller) (ha : env.authorized caller = true) (hop : inst.Open)
      (he : Edits dealId n inst { inst with status := .waived } s s') :
      Changes env s s' (.waiveInstalment caller dealId n reason)

theorem findInstalment_ok (h : findInstalment schedule n = .ok (idx, inst)) :
    schedule.findIdx? (·.instalmentNumber = n) = some idx ∧ schedule[idx]? = some inst := by
  simp only [findInstalment, bind_ok, expect_ok, pure_ok, Prod.mk.injEq] at h
  obtain ⟨_, hi, _, hx, rfl, rfl⟩ := h
  exact ⟨hi, hx⟩

theorem createSchedule_changes (h : createSchedule env caller dealId instalments s = .ok s') :
    Changes env s s' (.createSchedule caller dealId instalments) ∧ s'.waiver = s.waiver := by
  simp only [createSchedule, bind_ok, expect_ok, demand_ok, requireAuth_ok, pure_ok] at h
  obtain ⟨cfg, hc, _, ho, _, ha, _, hn, _, _, rfl⟩ := h
  have hnone : s.schedule.get dealId = none :=
    Option.isNone_iff_eq_none.mp (Option.isSome_eq_false_iff.mp hn)
  exact ⟨.create ⟨cfg, hc, ho⟩ ha hnone rfl rfl, rfl⟩

theorem recordPayment_changes
    (h : recordPayment env caller dealId n amount txId paidAt s = .ok s') :
    Changes env s s' (.recordPayment caller dealId n amount txId paidAt) ∧
      s'.waiver = s.waiver := by
  simp only [recordPayment, assertPositivePayment, instalmentRemaining, bind_ok, expect_ok,
    demand_ok, requireAuth_ok, i128Sub_ok, i128Add_ok] at h
  obtain ⟨_, _, _, _, _, ha, _, hpos, schedule, hs, ⟨idx, inst⟩, hf, _, ho, _, ⟨_, rfl⟩, _, hle, _,
    ⟨_, rfl⟩, h⟩ := h
  obtain ⟨hi, hx⟩ := findInstalment_ok hf
  have hpaid : s' = { s with
      schedule := s.schedule.set dealId (schedule.set idx (inst.pay amount txId paidAt)) } := by
    unfold ScheduledInstalment.pay
    split at h <;> rename_i hfull
    · rw [if_pos hfull, ← pure_ok.mp h]
      rfl
    · simp only [bind_ok, pure_ok] at h
      obtain ⟨_, _, rfl⟩ := h
      rw [if_neg hfull]
      rfl
  subst hpaid
  exact ⟨.pay ha hpos (not_or.mp ho) hle ⟨⟨schedule, idx, hs, hi, hx, rfl⟩, rfl⟩, rfl⟩

theorem markOverdue_changes (h : markOverdue env caller dealId n s = .ok s') :
    Changes env s s' (.markOverdue caller dealId n) ∧ s'.waiver = s.waiver := by
  simp only [markOverdue, instalmentRemaining, bind_ok, expect_ok, demand_ok, requireAuth_ok,
    i128Sub_ok, pure_ok] at h
  obtain ⟨_, _, cfg, hc, _, ho, _, ha, schedule, hs, ⟨idx, inst⟩, hf, _, hop, _, ⟨_, rfl⟩, _, hlt,
    rfl⟩ := h
  obtain ⟨hi, hx⟩ := findInstalment_ok hf
  exact ⟨.overdue ⟨cfg, hc, ho⟩ ha (not_or.mp hop) (sub_pos.mp hlt)
    ⟨⟨schedule, idx, hs, hi, hx, rfl⟩, rfl⟩, rfl⟩

theorem waiveInstalment_changes (h : waiveInstalment env caller dealId n reason s = .ok s') :
    Changes env s s' (.waiveInstalment caller dealId n reason) := by
  simp only [waiveInstalment, instalmentRemaining, bind_ok, expect_ok, demand_ok, requireAuth_ok,
    i128Sub_ok, pure_ok] at h
  obtain ⟨cfg, hc, _, ho, _, ha, schedule, hs, ⟨idx, inst⟩, hf, _, hw, _, hp, _, _, rfl⟩ := h
  obtain ⟨hi, hx⟩ := findInstalment_ok hf
  exact .waive ⟨cfg, hc, .inl ho⟩ ha ⟨hp, hw⟩ ⟨⟨schedule, idx, hs, hi, hx, rfl⟩, rfl⟩

theorem invoke_moves (h : invoke env s c = some (s', o)) : Changes env s s' c ∧
    ((∀ caller dealId n reason, c ≠ .waiveInstalment caller dealId n reason) →
      s'.waiver = s.waiver) := by
  cases c with
  | createSchedule caller dealId instalments =>
    obtain ⟨_, hs, he⟩ := commit_some.mp h
    cases he
    obtain ⟨hc, hw⟩ := createSchedule_changes hs
    exact ⟨hc, fun _ => hw⟩
  | recordPayment caller dealId n amount txId paidAt =>
    obtain ⟨_, hs, he⟩ := commit_some.mp h
    cases he
    obtain ⟨hc, hw⟩ := recordPayment_changes hs
    exact ⟨hc, fun _ => hw⟩
  | markOverdue caller dealId n =>
    obtain ⟨_, hs, he⟩ := commit_some.mp h
    cases he
    obtain ⟨hc, hw⟩ := markOverdue_changes hs
    exact ⟨hc, fun _ => hw⟩
  | waiveInstalment caller dealId n reason =>
    obtain ⟨_, hs, he⟩ := commit_some.mp h
    cases he
    exact ⟨waiveInstalment_changes hs, fun hne => absurd rfl (hne caller dealId n reason)⟩
  | init admin operator =>
    obtain ⟨_, hs, he⟩ := commit_some.mp h
    cases he
    simp only [init, bind_ok, demand_ok, pure_ok] at hs
    obtain ⟨_, hn, rfl⟩ := hs
    exact ⟨.init hn rfl, fun _ => rfl⟩
  | pause caller =>
    obtain ⟨_, hs, he⟩ := commit_some.mp h
    cases he
    simp only [pause, bind_ok, pure_ok] at hs
    obtain ⟨_, _, _, _, _, _, rfl⟩ := hs
    exact ⟨.pause rfl rfl, fun _ => rfl⟩
  | unpause caller =>
    obtain ⟨_, hs, he⟩ := commit_some.mp h
    cases he
    simp only [unpause, bind_ok, pure_ok] at hs
    obtain ⟨_, _, _, _, _, _, rfl⟩ := hs
    exact ⟨.unpause rfl rfl, fun _ => rfl⟩

theorem invoke_changes (h : invoke env s c = some (s', o)) : Changes env s s' c :=
  (invoke_moves h).1

theorem invoke_waiver (h : invoke env s c = some (s', o))
    (hc : ∀ caller dealId n reason, c ≠ .waiveInstalment caller dealId n reason) :
    s'.waiver = s.waiver :=
  (invoke_moves h).2 hc

def Call.caller : Call → Option Address
  | .init _ _ => none
  | .pause caller => caller
  | .unpause caller => caller
  | .createSchedule caller _ _ => caller
  | .recordPayment caller _ _ _ _ _ => caller
  | .markOverdue caller _ _ => caller
  | .waiveInstalment caller _ _ _ => caller

/-- The caller has signed, and is the admin or the operator at that moment. -/
def ByOfficer (e : Event State (Env own × Call) Unit) : Prop :=
  ∃ a, e.input.2.caller = some a ∧ e.input.1.authorized a = true ∧ Officer e.pre a

def instalmentAt (s : State) (dealId : Bytes) (i : Nat) : Option ScheduledInstalment :=
  (s.schedule.get dealId).bind (·[i]?)

/-- A step of an instalment towards being paid. -/
def Advances (inst inst' : ScheduledInstalment) : Prop :=
  inst.amountPaid < inst'.amountPaid ∨ inst.status ≠ .paid ∧ inst'.status = .paid

/-- Every change of a schedule is the doing of the admin or the operator. -/
structure Authorised (e : Event State (Env own × Call) Unit) : Prop where
  change : e.post.schedule ≠ e.pre.schedule → ByOfficer e
  payment : ∀ dealId i inst inst', instalmentAt e.pre dealId i = some inst →
    instalmentAt e.post dealId i = some inst' → Advances inst inst' → ByOfficer e

/-- The one mutating call that does not look at its caller. -/
def OfficerPays (e : Event State (Env own × Call) Unit) : Prop :=
  match e.input.2 with
  | .recordPayment caller _ _ _ _ _ => Officer e.pre caller
  | _ => True

theorem not_advances_self (inst : ScheduledInstalment) : ¬ Advances inst inst := by
  rintro (hlt | ⟨hne, he⟩)
  · exact absurd hlt (lt_irrefl _)
  · exact hne he

theorem authorised_of_change {e : Event State (Env own × Call) Unit}
    (h : e.post.schedule ≠ e.pre.schedule → ByOfficer e) : Authorised e where
  change := h
  payment dealId i inst inst' hi hi' ha := by
    apply h
    intro he
    rw [instalmentAt, he, ← instalmentAt, hi] at hi'
    exact not_advances_self inst (Option.some.inj hi' ▸ ha)

theorem Changes.authorised {e : Event State (Env own × Call) Unit}
    (h : Changes e.input.1 e.pre e.post e.input.2) (ho : OfficerPays e) : Authorised e := by
  obtain ⟨pre, ⟨env, c⟩, o, post⟩ := e
  apply authorised_of_change
  intro hne
  cases h with
  | init _ hs | pause hs _ | unpause hs _ => exact absurd hs hne
  | create hof ha _ _ _ => exact ⟨_, rfl, ha, hof⟩
  | pay ha _ _ _ _ => exact ⟨_, rfl, ha, ho⟩
  | overdue hof ha _ _ _ => exact ⟨_, rfl, ha, hof⟩
  | waive hof ha _ _ => exact ⟨_, rfl, ha, hof⟩

theorem pay_amountPaid (amount : Int) (txId : BytesN 32) (paidAt : Nat)
    (inst : ScheduledInstalment) :
    (inst.pay amount txId paidAt).amountPaid = inst.amountPaid + amount := by
  unfold ScheduledInstalment.pay
  split <;> rfl

theorem advances_pay (h : 0 < amount) : Advances inst (inst.pay amount txId paidAt) := by
  left
  rw [pay_amountPaid]
  exact lt_add_of_pos_right _ h

theorem Edits.at (h : Edits dealId n inst inst' s s') :
    ∃ i, instalmentAt s dealId i = some inst ∧ instalmentAt s' dealId i = some inst' := by
  obtain ⟨⟨schedule, i, hs, _, hx, hset⟩, _⟩ := h
  obtain ⟨hlt, _⟩ := List.getElem?_eq_some_iff.mp hx
  refine ⟨i, ?_, ?_⟩
  · rw [instalmentAt, hs]
    exact hx
  · rw [instalmentAt, hset, Store.get_set_self]
    exact List.getElem?_set_self hlt

/-- A payment never leaves the schedule as it was. -/
theorem Changes.officer_pays {e : Event State (Env own × Call) Unit}
    (h : Changes e.input.1 e.pre e.post e.input.2) (ha : Authorised e) : OfficerPays e := by
  obtain ⟨pre, ⟨env, c⟩, o, post⟩ := e
  cases h with
  | pay _ hpos _ _ he =>
    obtain ⟨i, hi, hi'⟩ := he.at
    obtain ⟨a, hc, _, ho⟩ := ha.payment _ i _ _ hi hi' (advances_pay hpos)
    exact Option.some.inj hc ▸ ho
  | init | pause | unpause | create | overdue | waive => trivial

/-- The changes of the schedules in a run are all authorised exactly when every payment of it was
recorded by the admin or the operator. -/
theorem changes_authorised_iff (h : (machine own).Run .fresh t s) :
    (∀ e ∈ t, Authorised e) ↔ ∀ e ∈ t, OfficerPays e := by
  constructor
  · exact fun ha e he => (invoke_changes (h.committed he).2).officer_pays (ha e he)
  · exact fun ho e he => (invoke_changes (h.committed he).2).authorised (ho e he)

/-- One instalment of a hundred. -/
def instalment : ScheduledInstalment :=
  ⟨1, 1000, 100, 0, .pending, none, none⟩

def scheduledCalls : List (Env ⟨0⟩ × Call) :=
  [(.signed ⟨0⟩ 0, .init ⟨1⟩ ⟨2⟩), (.signed ⟨0⟩ 0, .createSchedule ⟨1⟩ [1] [instalment])]

def paidBy (a : Address) : List (Env ⟨0⟩ × Call) :=
  scheduledCalls ++ [(.signed ⟨0⟩ 5, .recordPayment a [1] 1 100 (.replicate 32 7) 5)]

def after (cs : List (Env ⟨0⟩ × Call)) : History ⟨0⟩ × State := (machine ⟨0⟩).replay .fresh cs

theorem changes_authorised_iff_operator :
    (∀ e ∈ (after (paidBy ⟨2⟩)).1, Authorised e) ↔ ∀ e ∈ (after (paidBy ⟨2⟩)).1, OfficerPays e :=
  changes_authorised_iff ((machine ⟨0⟩).run_replay .fresh (paidBy ⟨2⟩))

/-- A stranger records the rent of a tenant as paid. -/
theorem stranger_pays :
    ¬ ∀ (t : History ⟨0⟩) s, (machine ⟨0⟩).Run .fresh t s → ∀ e ∈ t, Authorised e := by
  intro hall
  have hrun := (machine ⟨0⟩).run_replay .fresh (paidBy ⟨3⟩)
  have hpays : ∀ e ∈ (after (paidBy ⟨3⟩)).1, OfficerPays e := fun e he =>
    (invoke_changes (hrun.committed he).2).officer_pays (hall _ _ hrun e he)
  obtain ⟨cfg, hc, ho⟩ : Officer (after scheduledCalls).2 ⟨3⟩ := hpays _ List.mem_cons_self
  cases hc
  revert ho
  decide

end Shelterflex.RentSchedule
