import Mathlib.Data.List.Forall2
import Shelterflex.RentSchedule.Authorisation

/-! What payments and waivers make of the instalments of a deal. -/

namespace Shelterflex.RentSchedule
open Lib
set_option autoImplicit true

/-- A new entry, on which nothing has been paid. -/
structure ScheduledInstalment.Unpaid (inst : ScheduledInstalment) : Prop where
  due : 0 < inst.amountDue
  paid : inst.amountPaid = 0
  isOpen : inst.Open

/-- What no call changes of an instalment. -/
def ScheduledInstalment.terms (inst : ScheduledInstalment) : Nat × Nat × Int :=
  (inst.instalmentNumber, inst.dueTimestamp, inst.amountDue)

/-- The instalment that a call is about. -/
def Call.target : Call → Option (Bytes × Nat)
  | .recordPayment _ dealId n _ _ _ => some (dealId, n)
  | .markOverdue _ dealId n => some (dealId, n)
  | .waiveInstalment _ dealId n _ => some (dealId, n)
  | _ => none

/-- What a call pays on an instalment. -/
def paymentOn (key : Bytes × Nat) (e : Event State (Env own × Call) Unit) : Int :=
  match e.input.2 with
  | .recordPayment _ dealId n amount _ _ => if (dealId, n) = key then amount else 0
  | _ => 0

/-- What was paid on an instalment. -/
def paidOn (key : Bytes × Nat) (t : History own) : Int := (t.map (paymentOn key)).sum

def waives (key : Bytes × Nat) (e : Event State (Env own × Call) Unit) : Bool :=
  match e.input.2 with
  | .waiveInstalment _ dealId n _ => (dealId, n) = key
  | _ => false

/-- Never waived, or waived once with an audit of what was left to pay. -/
def Audited (key : Bytes × Nat) (t : History own) (s : State) (inst : ScheduledInstalment) : Prop :=
  inst.status ≠ .waived ∧ t.countP (waives key) = 0 ∧ s.waiver.get key = none ∨
    inst.status = .waived ∧ t.countP (waives key) = 1 ∧ ∃ audit, s.waiver.get key = some audit ∧
      audit.amountWaived = inst.amountDue - inst.amountPaid

/-- The amounts, the status and the waiver of an instalment agree with what happened to it. -/
structure Balanced (dealId : Bytes) (t : History own) (s : State) (inst : ScheduledInstalment) :
    Prop where
  nonneg : 0 ≤ inst.amountPaid
  le_due : inst.amountPaid ≤ inst.amountDue
  paid_iff : inst.status = .paid ↔ inst.amountPaid = inst.amountDue
  sum : inst.amountPaid = paidOn (dealId, inst.instalmentNumber) t
  audited : Audited (dealId, inst.instalmentNumber) t s inst

/-- The schedule of a deal is the one it was created with, and its instalments are balanced. -/
def Settled (dealId : Bytes) (instalments : List ScheduledInstalment) (t : History own)
    (s : State) : Prop :=
  ∃ schedule, s.schedule.get dealId = some schedule ∧
    schedule.map (·.terms) = instalments.map (·.terms) ∧
    ∀ inst ∈ schedule, Balanced dealId t s inst

/-- A call leaves alone what it is not about, and what is paid or waived. -/
structure Frames (e : Event State (Env own × Call) Unit) : Prop where
  schedule : ∀ dealId schedule, e.pre.schedule.get dealId = some schedule →
    ∃ schedule', e.post.schedule.get dealId = some schedule' ∧
      schedule'.map (·.terms) = schedule.map (·.terms) ∧
      ∀ (i : Nat) inst, schedule[i]? = some inst →
        e.input.2.target ≠ some (dealId, inst.instalmentNumber) ∨ ¬ inst.Open →
          schedule'[i]? = some inst
  waiver : ∀ key, e.input.2.target ≠ some key → e.post.waiver.get key = e.pre.waiver.get key

/-- What a call makes of an instalment of a deal. -/
inductive Moves (dealId : Bytes) (e : Event State (Env own × Call) Unit) :
    ScheduledInstalment → ScheduledInstalment → Prop where
  | keep (ht : e.input.2.target ≠ some (dealId, inst.instalmentNumber)) : Moves dealId e inst inst
  | pay (hin : e.input.2 = .recordPayment caller dealId inst.instalmentNumber amount txId paidAt)
      (ho : inst.Open) (hpos : 0 < amount) (hle : amount ≤ inst.amountDue - inst.amountPaid)
      (hw : e.post.waiver = e.pre.waiver) : Moves dealId e inst (inst.pay amount txId paidAt)
  | overdue (hin : e.input.2 = .markOverdue caller dealId inst.instalmentNumber) (ho : inst.Open)
      (hw : e.post.waiver = e.pre.waiver) : Moves dealId e inst { inst with status := .overdue }
  | waive (hin : e.input.2 = .waiveInstalment caller dealId inst.instalmentNumber reason)
      (ho : inst.Open)
      (hw : e.post.waiver = e.pre.waiver.set (dealId, inst.instalmentNumber)
        ⟨caller, reason, inst.amountDue - inst.amountPaid, e.input.1.timestamp⟩) :
      Moves dealId e inst { inst with status := .waived }

theorem waiveInstalment_waiver (h : waiveInstalment env caller dealId n reason s = .ok s') :
    ∃ schedule idx inst, s.schedule.get dealId = some schedule ∧
      schedule.findIdx? (·.instalmentNumber = n) = some idx ∧ schedule[idx]? = some inst ∧
      s'.waiver = s.waiver.set (dealId, n)
        ⟨caller, reason, inst.amountDue - inst.amountPaid, env.timestamp⟩ := by
  simp only [waiveInstalment, instalmentRemaining, bind_ok, expect_ok, demand_ok, requireAuth_ok,
    i128Sub_ok, pure_ok] at h
  obtain ⟨_, _, _, _, _, _, schedule, hs, ⟨idx, inst⟩, hf, _, _, _, _, _, ⟨_, rfl⟩, rfl⟩ := h
  obtain ⟨hi, hx⟩ := findInstalment_ok hf
  exact ⟨schedule, idx, inst, hs, hi, hx, rfl⟩

theorem waiver_scheduled (h : (machine own).Reachable .fresh s)
    (hn : s.schedule.get dealId = none) : s.waiver.get (dealId, n) = none := by
  revert dealId n
  apply h.invariant (P := fun s => ∀ {dealId n}, s.schedule.get dealId = none →
    s.waiver.get (dealId, n) = none)
  · intros
    rfl
  · intro s i s' o ih hs dealId n hn
    obtain ⟨env, c⟩ := i
    have hch := invoke_changes hs
    -- a schedule once stored stays
    have hkeep : s.schedule.get dealId = none := by
      cases hch with
      | init _ hs' | pause hs' _ | unpause hs' _ => rwa [hs'] at hn
      | create _ _ _ hs' _ =>
        rw [hs', Store.get_set] at hn
        split at hn
        · cases hn
        · exact hn
      | pay _ _ _ _ he | overdue _ _ _ _ he | waive _ _ _ he =>
        obtain ⟨_, _, _, _, _, hset⟩ := he.stored
        rw [hset, Store.get_set] at hn
        split at hn
        · cases hn
        · exact hn
    by_cases hc : ∃ caller dealId n reason, c = .waiveInstalment caller dealId n reason
    · obtain ⟨caller, dealId', n', reason, rfl⟩ := hc
      obtain ⟨_, hw, hcommit⟩ := commit_some.mp hs
      cases hcommit
      obtain ⟨_, _, _, hstored, _, _, hset⟩ := waiveInstalment_waiver hw
      have hne : (dealId, n) ≠ (dealId', n') := by
        rintro ⟨⟩
        cases hkeep.symm.trans hstored
      rw [hset, Store.get_set_of_ne _ _ hne]
      exact ih hkeep
    · rw [invoke_waiver hs fun caller d n r hcall => hc ⟨caller, d, n, r, hcall⟩]
      exact ih hkeep

theorem forall₂_set {R : α → α → Prop} (hi : l[i]? = some a) (hab : R a b)
    (hr : ∀ (j : Nat) c, j ≠ i → l[j]? = some c → R c c) : List.Forall₂ R l (l.set i b) := by
  induction l generalizing i with
  | nil => cases hi
  | cons x l ih =>
    cases i with
    | zero =>
      cases hi
      refine .cons hab (List.forall₂_same.mpr fun c hc => ?_)
      obtain ⟨j, hj⟩ := List.mem_iff_getElem?.mp hc
      exact hr (j + 1) c (Nat.succ_ne_zero j) hj
    | succ i =>
      refine .cons (hr 0 x (Nat.succ_ne_zero i).symm rfl) (ih hi fun j c hne hj => ?_)
      exact hr (j + 1) c (fun he => hne (Nat.succ.inj he)) hj

section
variable {schedule : List ScheduledInstalment}

theorem found_number (hi : schedule.findIdx? (·.instalmentNumber = n) = some idx)
    (hx : schedule[idx]? = some inst) : inst.instalmentNumber = n := by
  obtain ⟨hlt, hp, _⟩ := List.findIdx?_eq_some_iff_getElem.mp hi
  obtain ⟨_, rfl⟩ := List.getElem?_eq_some_iff.mp hx
  exact of_decide_eq_true hp

theorem forall₂_edit {R : ScheduledInstalment → ScheduledInstalment → Prop}
    (hn : (schedule.map (·.instalmentNumber)).Nodup)
    (hi : schedule.findIdx? (·.instalmentNumber = n) = some idx) (hx : schedule[idx]? = some inst)
    (hr : R inst inst') (hk : ∀ c, c.instalmentNumber ≠ n → R c c) :
    List.Forall₂ R schedule (schedule.set idx inst') := by
  refine forall₂_set hx hr fun j c hne hj => hk c fun he => hne ?_
  obtain ⟨hlt, _⟩ := List.getElem?_eq_some_iff.mp hj
  apply (List.getElem?_inj (by rwa [List.length_map]) hn).mp
  rw [List.getElem?_map, List.getElem?_map, hj, hx]
  exact congrArg some (he.trans (found_number hi hx).symm)

theorem edit_of_step {e : Event State (Env own × Call) Unit}
    (hs : (machine own).step e.pre e.input = some (e.post, e.output))
    (hstored : e.pre.schedule.get dealId = some schedule) :
    (e.post.schedule.get dealId = some schedule ∧ ∀ n, e.input.2.target ≠ some (dealId, n)) ∨
      ∃ idx inst inst', e.input.2.target = some (dealId, inst.instalmentNumber) ∧
        schedule.findIdx? (·.instalmentNumber = inst.instalmentNumber) = some idx ∧
        schedule[idx]? = some inst ∧ inst.Open ∧ Moves dealId e inst inst' ∧
        e.post.schedule.get dealId = some (schedule.set idx inst') := by
  obtain ⟨pre, ⟨env, c⟩, o, post⟩ := e
  change invoke env pre c = some (post, o) at hs
  change pre.schedule.get dealId = some schedule at hstored
  have hch := invoke_changes hs
  have hedit {dealId' n inst inst'} (he : Edits dealId' n inst inst' pre post)
      (ht : c.target = some (dealId', n)) (ho : inst.Open)
      (hm : dealId' = dealId → inst.instalmentNumber = n →
        Moves dealId ⟨pre, (env, c), o, post⟩ inst inst') :
      (post.schedule.get dealId = some schedule ∧ ∀ n, c.target ≠ some (dealId, n)) ∨
        ∃ idx inst inst', c.target = some (dealId, inst.instalmentNumber) ∧
          schedule.findIdx? (·.instalmentNumber = inst.instalmentNumber) = some idx ∧
          schedule[idx]? = some inst ∧ inst.Open ∧
          Moves dealId ⟨pre, (env, c), o, post⟩ inst inst' ∧
          post.schedule.get dealId = some (schedule.set idx inst') := by
    obtain ⟨schedule', idx, hget, hi, hx, hset⟩ := he.stored
    have hnum := found_number hi hx
    by_cases hd : dealId' = dealId
    · subst hd hnum
      cases hget.symm.trans hstored
      exact .inr ⟨idx, inst, inst', ht, hi, hx, ho, hm rfl rfl, by rw [hset, Store.get_set_self]⟩
    · refine .inl ⟨by rw [hset, Store.get_set_of_ne _ _ (Ne.symm hd), hstored], fun m hm' => ?_⟩
      cases ht.symm.trans hm'
      exact hd rfl
  cases hch with
  | init _ hset | pause hset _ | unpause hset _ =>
    exact .inl ⟨(congrArg (·.get dealId) hset).trans hstored, nofun⟩
  | @create _ dealId' _ _ _ hnone hset _ =>
    have hd : dealId ≠ dealId' := by
      rintro rfl
      cases hnone.symm.trans hstored
    exact .inl ⟨by rw [hset, Store.get_set_of_ne _ _ hd, hstored], nofun⟩
  | pay _ hpos ho hle he =>
    refine hedit he rfl ho fun hd hnum => ?_
    subst hd hnum
    exact .pay rfl ho hpos hle (invoke_waiver hs nofun)
  | overdue _ _ ho _ he =>
    refine hedit he rfl ho fun hd hnum => ?_
    subst hd hnum
    exact .overdue rfl ho (invoke_waiver hs nofun)
  | waive _ _ ho he =>
    refine hedit he rfl ho fun hd hnum => ?_
    subst hd hnum
    obtain ⟨_, hw, hcommit⟩ := commit_some.mp hs
    cases hcommit
    obtain ⟨_, _, _, hget, hi, hx, hset⟩ := waiveInstalment_waiver hw
    obtain ⟨_, _, hget', hi', hx', _⟩ := he.stored
    cases hget.symm.trans hget'
    cases hi.symm.trans hi'
    cases hx.symm.trans hx'
    exact .waive rfl ho hset

/-- Every instalment of a schedule with distinct numbers makes one move in a call. -/
theorem moves_of_step {e : Event State (Env own × Call) Unit}
    (hs : (machine own).step e.pre e.input = some (e.post, e.output))
    (hstored : e.pre.schedule.get dealId = some schedule)
    (hn : (schedule.map (·.instalmentNumber)).Nodup) :
    ∃ schedule', e.post.schedule.get dealId = some schedule' ∧
      List.Forall₂ (Moves dealId e) schedule schedule' := by
  rcases edit_of_step hs hstored with ⟨hget, ht⟩ | ⟨idx, inst, inst', ht, hi, hx, _, hm, hget⟩
  · exact ⟨schedule, hget, List.forall₂_same.mpr fun _ _ => .keep (ht _)⟩
  · refine ⟨_, hget, forall₂_edit hn hi hx hm fun c hne => .keep fun hc => ?_⟩
    exact hne (congrArg Prod.snd (Option.some.inj (hc.symm.trans ht)))

end

theorem pay_terms (amount : Int) (txId : BytesN 32) (paidAt : Nat) (inst : ScheduledInstalment) :
    (inst.pay amount txId paidAt).terms = inst.terms := by
  unfold ScheduledInstalment.pay
  split <;> rfl

theorem Moves.terms (h : Moves dealId e inst inst') : inst'.terms = inst.terms := by
  cases h with
  | keep | overdue | waive => rfl
  | pay => exact pay_terms _ _ _ _

theorem paidOn_cons (key : Bytes × Nat) (e : Event State (Env own × Call) Unit) (t : History own) :
    paidOn key (e :: t) = paymentOn key e + paidOn key t := by
  rw [paidOn, List.map_cons, List.sum_cons, paidOn]

section
variable {e : Event State (Env own × Call) Unit}

theorem paymentOn_of_target (h : e.input.2.target ≠ some key) : paymentOn key e = 0 := by
  obtain ⟨pre, ⟨env, c⟩, o, post⟩ := e
  cases c with
  | recordPayment caller dealId n amount txId paidAt => exact if_neg fun he => h (congrArg some he)
  | init | pause | unpause | createSchedule | markOverdue | waiveInstalment => rfl

theorem waives_of_target (h : e.input.2.target ≠ some key) : waives key e = false := by
  obtain ⟨pre, ⟨env, c⟩, o, post⟩ := e
  cases c with
  | waiveInstalment caller dealId n reason => exact decide_eq_false fun he => h (congrArg some he)
  | init | pause | unpause | createSchedule | markOverdue | recordPayment => rfl

theorem waiver_of_target (hs : (machine own).step e.pre e.input = some (e.post, e.output))
    (h : e.input.2.target ≠ some key) : e.post.waiver.get key = e.pre.waiver.get key := by
  obtain ⟨pre, ⟨env, c⟩, o, post⟩ := e
  change invoke env pre c = some (post, o) at hs
  by_cases hc : ∃ caller dealId n reason, c = .waiveInstalment caller dealId n reason
  · obtain ⟨caller, dealId, n, reason, rfl⟩ := hc
    obtain ⟨_, hw, hcommit⟩ := commit_some.mp hs
    cases hcommit
    obtain ⟨_, _, _, _, _, _, hset⟩ := waiveInstalment_waiver hw
    change post.waiver.get key = pre.waiver.get key
    rw [hset, Store.get_set_of_ne _ _ fun he => h (congrArg some he.symm)]
  · have hsame := invoke_waiver hs fun caller d n r hcall => hc ⟨caller, d, n, r, hcall⟩
    exact congrArg (·.get key) hsame

theorem Audited.of_open (h : Audited key t s inst) (ho : inst.Open) :
    t.countP (waives key) = 0 ∧ s.waiver.get key = none := by
  rcases h with ⟨_, hc, hn⟩ | ⟨hw, _⟩
  · exact ⟨hc, hn⟩
  · exact absurd hw ho.2

theorem Audited.unwaived (h : Audited key t e.pre inst) (ho : inst.Open) (hw : waives key e = false)
    (hs : e.post.waiver = e.pre.waiver) (hst : inst'.status ≠ .waived) :
    Audited key (e :: t) e.post inst' := by
  obtain ⟨hc, hn⟩ := h.of_open ho
  refine .inl ⟨hst, ?_, by rw [hs, hn]⟩
  rw [List.countP_cons_of_neg (by simp [hw]), hc]

theorem Balanced.pay (h : Balanced dealId t e.pre inst)
    (hin : e.input.2 = .recordPayment caller dealId inst.instalmentNumber amount txId paidAt)
    (ho : inst.Open) (hpos : 0 < amount) (hle : amount ≤ inst.amountDue - inst.amountPaid)
    (hw : e.post.waiver = e.pre.waiver) :
    Balanced dealId (e :: t) e.post (inst.pay amount txId paidAt) := by
  have hpaid := pay_amountPaid amount txId paidAt inst
  have hterms := pay_terms amount txId paidAt inst
  have hnum : (inst.pay amount txId paidAt).instalmentNumber = inst.instalmentNumber :=
    congrArg Prod.fst hterms
  have hdue : (inst.pay amount txId paidAt).amountDue = inst.amountDue := congrArg (·.2.2) hterms
  have hnn := h.nonneg
  refine ⟨by omega, by omega, ?_, ?_, ?_⟩
  · rw [hpaid, hdue]
    unfold ScheduledInstalment.pay
    split
    · exact iff_of_true rfl ‹_›
    · exact iff_of_false ho.1 ‹_›
  · rw [hnum, paidOn_cons, hpaid, h.sum, paymentOn, hin]
    simp only [if_true]
    exact add_comm _ _
  · rw [hnum]
    refine h.audited.unwaived ho (by simp [waives, hin]) hw ?_
    unfold ScheduledInstalment.pay
    split
    · exact nofun
    · exact ho.2

theorem Balanced.move (hs : (machine own).step e.pre e.input = some (e.post, e.output))
    (h : Balanced dealId t e.pre inst) (hm : Moves dealId e inst inst') :
    Balanced dealId (e :: t) e.post inst' := by
  cases hm with
  | keep ht =>
    refine ⟨h.nonneg, h.le_due, h.paid_iff, ?_, ?_⟩
    · rw [paidOn_cons, paymentOn_of_target ht, zero_add]
      exact h.sum
    · rw [Audited, List.countP_cons_of_neg (by simp [waives_of_target ht]), waiver_of_target hs ht]
      exact h.audited
  | pay hin ho hpos hle hw => exact h.pay hin ho hpos hle hw
  | overdue hin ho hw =>
    refine ⟨h.nonneg, h.le_due, ?_, ?_, ?_⟩
    · exact iff_of_false nofun fun hfull => ho.1 (h.paid_iff.mpr hfull)
    · rw [paidOn_cons, paymentOn, hin, zero_add]
      exact h.sum
    · exact h.audited.unwaived ho (by simp [waives, hin]) hw nofun
  | waive hin ho hw =>
    refine ⟨h.nonneg, h.le_due, ?_, ?_, ?_⟩
    · exact iff_of_false nofun fun hfull => ho.1 (h.paid_iff.mpr hfull)
    · rw [paidOn_cons, paymentOn, hin, zero_add]
      exact h.sum
    · refine .inr ⟨rfl, ?_, _, by rw [hw, Store.get_set_self], rfl⟩
      rw [List.countP_cons_of_pos (by simp [waives, hin]), (h.audited.of_open ho).1]

end

theorem map_terms_of_moves (h : List.Forall₂ (Moves dealId e) l l') :
    l'.map (·.terms) = l.map (·.terms) := by
  induction h with
  | nil => rfl
  | cons hm _ ih => rw [List.map_cons, List.map_cons, hm.terms, ih]

theorem numbers_of_terms {l l' : List ScheduledInstalment}
    (h : l.map (·.terms) = l'.map (·.terms)) :
    l.map (·.instalmentNumber) = l'.map (·.instalmentNumber) := by
  have h := congrArg (List.map Prod.fst) h
  rwa [List.map_map, List.map_map] at h

theorem Settled.step {e : Event State (Env own × Call) Unit}
    (hs : (machine own).step e.pre e.input = some (e.post, e.output))
    (hn : (instalments.map (·.instalmentNumber)).Nodup)
    (h : Settled dealId instalments t e.pre) : Settled dealId instalments (e :: t) e.post := by
  obtain ⟨schedule, hstored, hterms, hbal⟩ := h
  obtain ⟨schedule', hstored', hm⟩ := moves_of_step hs hstored (numbers_of_terms hterms ▸ hn)
  refine ⟨schedule', hstored', (map_terms_of_moves hm).trans hterms, fun inst' hmem => ?_⟩
  obtain ⟨i, hi⟩ := List.mem_iff_getElem?.mp hmem
  obtain ⟨hlt, hget⟩ := List.getElem?_eq_some_iff.mp hi
  have hlt' : i < schedule.length := hm.length_eq ▸ hlt
  have hmove := (List.forall₂_iff_get.mp hm).2 i hlt' hlt
  exact hget ▸ (hbal _ (List.getElem_mem hlt')).move hs hmove

theorem settled_of_unpaid (hstored : s.schedule.get dealId = some instalments)
    (hu : ∀ inst ∈ instalments, inst.Unpaid) (hw : ∀ n, s.waiver.get (dealId, n) = none) :
    Settled dealId instalments ([] : History own) s := by
  refine ⟨instalments, hstored, rfl, fun inst hmem => ?_⟩
  obtain ⟨hdue, hpaid, ho⟩ := hu inst hmem
  exact ⟨hpaid.ge, hpaid.trans_le hdue.le, iff_of_false ho.1 (hpaid.trans_ne hdue.ne), hpaid,
    .inl ⟨ho.2, rfl, hw _⟩⟩

theorem frames_of_step {e : Event State (Env own × Call) Unit}
    (hs : (machine own).step e.pre e.input = some (e.post, e.output)) : Frames e := by
  refine ⟨fun dealId schedule hstored => ?_, fun key hk => waiver_of_target hs hk⟩
  rcases edit_of_step hs hstored with ⟨hget, _⟩ | ⟨idx, inst, inst', ht, hi, hx, ho, hm, hget⟩
  · exact ⟨schedule, hget, rfl, fun _ _ hi _ => hi⟩
  · refine ⟨_, hget, ?_, fun i inst₀ hi₀ hor => ?_⟩
    · obtain ⟨hlt, rfl⟩ := List.getElem?_eq_some_iff.mp hx
      have hidx : idx < (schedule.map (·.terms)).length := by rwa [List.length_map]
      have hself := List.set_getElem_self hidx
      rwa [List.getElem_map, ← hm.terms, ← List.map_set] at hself
    · rw [List.getElem?_set_ne ?_, hi₀]
      rintro rfl
      cases hx.symm.trans hi₀
      rcases hor with hne | hno
      · exact hne ht
      · exact hno ho

/-- From its creation on, the schedule of a deal is settled, and no call touches anything but the
open instalment it is about. -/
theorem instalments_settled (h : (machine own).Run .fresh t s) (ht : t = later ++ e :: earlier)
    (hc : e.input.2 = .createSchedule caller dealId instalments)
    (hn : (instalments.map (·.instalmentNumber)).Nodup) (hu : ∀ inst ∈ instalments, inst.Unpaid) :
    Settled dealId instalments later s ∧ ∀ e' ∈ later, Frames e' := by
  subst ht
  obtain ⟨hpre, hs⟩ := h.upTo
  have hafter := h.after
  obtain ⟨pre, ⟨env, c⟩, o, post⟩ := e
  obtain rfl : c = .createSchedule caller dealId instalments := hc
  change invoke env pre (.createSchedule caller dealId instalments) = some (post, o) at hs
  have hch := invoke_changes hs
  have hcreated : Settled dealId instalments ([] : History own) post := by
    cases hch with
    | create _ _ hnone hset _ =>
      refine settled_of_unpaid (by rw [hset, Store.get_set_self]) hu fun n => ?_
      rw [invoke_waiver hs nofun]
      exact waiver_scheduled ⟨_, hpre⟩ hnone
  constructor
  · exact hafter.invariant hcreated fun hp hs' => Settled.step hs' hn hp
  · exact fun e' he' => frames_of_step (hafter.committed he').2

def twoInstalments : List ScheduledInstalment :=
  [instalment, { instalment with instalmentNumber := 2 }]

/-- The first instalment is waived after a part of it was paid late, the second is paid. -/
def settledCalls : List (Env ⟨0⟩ × Call) :=
  [(.signed ⟨0⟩ 0, .init ⟨1⟩ ⟨2⟩), (.signed ⟨0⟩ 0, .createSchedule ⟨1⟩ [1] twoInstalments),
    (.signed ⟨0⟩ 5, .recordPayment ⟨3⟩ [1] 1 40 (.replicate 32 7) 5),
    (.signed ⟨0⟩ 6, .markOverdue ⟨2⟩ [1] 1), (.signed ⟨0⟩ 7, .waiveInstalment ⟨1⟩ [1] 1 .hardship),
    (.signed ⟨0⟩ 8, .recordPayment ⟨3⟩ [1] 2 100 (.replicate 32 7) 8)]

theorem instalments_settled_two :
    Settled [1] twoInstalments ((after settledCalls).1.take 4) (after settledCalls).2 ∧
      ∀ e' ∈ (after settledCalls).1.take 4, Frames e' :=
  instalments_settled ((machine ⟨0⟩).run_replay .fresh settledCalls)
    (List.take_append_drop 4 (after settledCalls).1).symm rfl (by decide)
    (by
      intro inst hmem
      have hnew : inst.amountDue = 100 ∧ inst.amountPaid = 0 ∧ inst.status = .pending := by
        revert inst
        decide
      obtain ⟨hdue, hpaid, hst⟩ := hnew
      exact ⟨by omega, hpaid, by rw [hst]; nofun, by rw [hst]; nofun⟩)

end Shelterflex.RentSchedule
