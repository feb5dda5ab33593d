import Shelterflex.Lib.Listing
import Shelterflex.RentPayments.Model

/-! The receipts of a deal, their numbers and their references. -/

namespace Shelterflex.RentPayments
open Lib
set_option autoImplicit true

abbrev History (own : Address) := List (Event State (Env own × Call) (Option Receipt))

/-- The receipts a run created, latest last. -/
def created (t : History own) : List Receipt := (t.filterMap (·.output)).reverse

def createdFor (dealId : DealId) (t : History own) : List Receipt :=
  (created t).filter (·.dealId = dealId)

/-- How often the global counter was raised: twice for a receipt of its own deal id. -/
def bumps (t : History own) : Nat := (created t).length + (createdFor u64Max t).length

/-- What the creation of a receipt does. -/
structure Creates (env : Env own) (dealId : DealId) (reference : BytesN 32) (s s' : State)
    (r : Receipt) : Prop where
  number : r.id = getReceiptCount s dealId + 1
  bounded : getReceiptCount s dealId + 1 < 2 ^ 64
  deal : r.dealId = dealId
  timestamp : r.timestamp = env.timestamp
  named : r.reference = reference
  txId : r.txId = txIdBytes env.timestamp (getReceiptCount s' u64Max)
  fresh : isReferenceUsed s dealId reference = false
  counts : s'.receiptCount = (s.receiptCount.set dealId r.id).set u64Max
    (((s.receiptCount.set dealId r.id).getD u64Max 0 + 1) % 2 ^ 64)
  receipts : s'.receipts = s.receipts.set dealId (getReceipts s dealId ++ [r])
  used : s'.usedReference = s.usedReference.set (dealId, reference) true

/-- A call creates a receipt, or leaves the books alone. -/
inductive Changes (env : Env own) (s s' : State) : Call → Option Receipt → Prop where
  | quiet (hr : s'.receipts = s.receipts) (hc : s'.receiptCount = s.receiptCount)
      (hu : s'.usedReference = s.usedReference) : Changes env s s' c none
  | create (h : Creates env dealId reference s s' r) :
      Changes env s s' (.createReceipt dealId amount payer reference) (some r)

theorem createReceipt_creates
    (h : createReceipt env dealId amount payer reference s = .ok (r, s')) :
    Creates env dealId reference s s' r := by
  simp only [createReceipt, incrementReceiptCount, getTxId, pushBack, bind_ok, require_ok,
    u64Add_ok, pure_ok] at h
  obtain ⟨_, _, _, _, _, _, _, hf, ⟨n, s₁⟩, ⟨_, ⟨hlt, rfl⟩, hs₁⟩, _, ⟨_, _, rfl⟩, h⟩ := h
  cases hs₁
  obtain ⟨rfl, rfl⟩ := Prod.mk.inj h
  refine ⟨rfl, hlt, rfl, rfl, rfl, ?_, hf, rfl, rfl, rfl⟩
  simp only [getReceiptCount, markReferenceUsed, putReceipts, Store.getD_set_self]

theorem invoke_changes (h : invoke env s c = some (s', o)) : Changes env s s' c o := by
  cases c with
  | init admin =>
    obtain ⟨_, hs, he⟩ := commit_some.mp h
    cases he
    simp only [init, bind_ok, pure_ok] at hs
    obtain ⟨_, _, rfl⟩ := hs
    exact .quiet rfl rfl rfl
  | createReceipt dealId amount payer reference =>
    obtain ⟨⟨r, s''⟩, hs, he⟩ := commit_some.mp h
    cases he
    exact .create (createReceipt_creates hs)
  | pause admin =>
    obtain ⟨_, hs, he⟩ := commit_some.mp h
    cases he
    simp only [pause, bind_ok, pure_ok] at hs
    obtain ⟨_, _, _, _, rfl⟩ := hs
    exact .quiet rfl rfl rfl
  | unpause admin =>
    obtain ⟨_, hs, he⟩ := commit_some.mp h
    cases he
    simp only [unpause, bind_ok, pure_ok] at hs
    obtain ⟨_, _, _, _, rfl⟩ := hs
    exact .quiet rfl rfl rfl

section
variable {e : Event State (Env own × Call) (Option Receipt)}

theorem created_cons_none (h : e.output = none) (t : History own) :
    created (e :: t) = created t := by
  rw [created, List.filterMap_cons_none h, created]

theorem created_cons_some (h : e.output = some r) (t : History own) :
    created (e :: t) = created t ++ [r] := by
  rw [created, List.filterMap_cons_some h, List.reverse_cons, created]

theorem createdFor_cons_none (h : e.output = none) (dealId : DealId) (t : History own) :
    createdFor dealId (e :: t) = createdFor dealId t := by
  rw [createdFor, created_cons_none h, createdFor]

theorem createdFor_cons_self (h : e.output = some r) (hd : r.dealId = dealId) (t : History own) :
    createdFor dealId (e :: t) = createdFor dealId t ++ [r] := by
  rw [createdFor, created_cons_some h, List.filter_append, createdFor]
  simp [hd]

theorem createdFor_cons_other (h : e.output = some r) (hd : r.dealId ≠ dealId) (t : History own) :
    createdFor dealId (e :: t) = createdFor dealId t := by
  rw [createdFor, created_cons_some h, List.filter_append, createdFor]
  simp [hd]

theorem bumps_cons_none (h : e.output = none) (t : History own) : bumps (e :: t) = bumps t := by
  rw [bumps, created_cons_none h, createdFor_cons_none h, bumps]

theorem bumps_cons_some (h : e.output = some r) (t : History own) :
    bumps (e :: t) = bumps t + (if r.dealId = u64Max then 2 else 1) := by
  rw [bumps, created_cons_some h, List.length_append, List.length_singleton]
  split
  · rw [createdFor_cons_self h ‹_›, List.length_append, List.length_singleton, bumps]
    omega
  · rw [createdFor_cons_other h ‹_›, bumps]
    omega

theorem bumps_le_cons (e : Event State (Env own × Call) (Option Receipt)) (t : History own) :
    bumps t ≤ bumps (e :: t) := by
  cases h : e.output with
  | none => exact (bumps_cons_none h t).ge
  | some r =>
    rw [bumps_cons_some h]
    exact Nat.le_add_right _ _

end

theorem txIdBytes_toList (timestamp counter : Nat) : (txIdBytes timestamp counter).toList =
    bigEndian 8 timestamp ++ (bigEndian 8 counter ++ (fillBytes timestamp).toList) := by
  have h : (txIdBytes timestamp counter).toList =
      (u64Bytes timestamp ++ u64Bytes counter).toList ++ (fillBytes timestamp).toList :=
    Vector.toList_append
  rw [h, Vector.toList_append, List.append_assoc]
  rfl

theorem txIdBytes_counter (hn : n < 2 ^ 64) (hm : m < 2 ^ 64)
    (h : txIdBytes ts n = txIdBytes ts' m) : n = m := by
  have h := congrArg Vector.toList h
  rw [txIdBytes_toList, txIdBytes_toList] at h
  have h := (List.append_inj h (by rw [bigEndian_length, bigEndian_length])).2
  exact bigEndian_inj hn hm (List.append_inj h (by rw [bigEndian_length, bigEndian_length])).1

theorem txIdBytes_lt (hnm : n < m) (hm : m < 2 ^ 64) :
    (txIdBytes ts n).toList < (txIdBytes ts m).toList := by
  rw [txIdBytes_toList, txIdBytes_toList]
  exact List.append_left_lt (bigEndian_lt hnm hm _ _)

/-- What the store holds after a run whose global counter has not wrapped. -/
structure Ledger (t : History own) (s : State) : Prop where
  stored : ∀ dealId, getReceipts s dealId = createdFor dealId t
  count : ∀ dealId, dealId ≠ u64Max → getReceiptCount s dealId = (createdFor dealId t).length
  counter : getReceiptCount s u64Max = bumps t
  ids : ∀ dealId, dealId ≠ u64Max →
    (createdFor dealId t).map (·.id) = List.range' 1 (createdFor dealId t).length
  used : ∀ dealId reference, isReferenceUsed s dealId reference = true ↔
    ∃ r ∈ createdFor dealId t, r.reference = reference
  references : ∀ dealId, ((createdFor dealId t).map (·.reference)).Nodup
  numbered : ∀ r ∈ created t, ∃ c, c ≤ bumps t ∧ r.txId = txIdBytes r.timestamp c
  txIds : ((created t).map (·.txId)).Nodup

theorem ledger_fresh : Ledger ([] : History own) .fresh where
  stored _ := rfl
  count _ _ := rfl
  counter := rfl
  ids _ _ := rfl
  used _ _ := ⟨nofun, fun ⟨_, hr, _⟩ => nomatch hr⟩
  references _ := .nil
  numbered := nofun
  txIds := .nil

theorem Ledger.quiet {e : Event State (Env own × Call) (Option Receipt)} (h : Ledger t s)
    (he : e.output = none) (hr : s'.receipts = s.receipts) (hc : s'.receiptCount = s.receiptCount)
    (hu : s'.usedReference = s.usedReference) : Ledger (e :: t) s' := by
  obtain ⟨h₁, h₂, h₃, h₄, h₅, h₆, h₇, h₈⟩ := h
  constructor <;>
    simp only [createdFor_cons_none he, created_cons_none he, bumps_cons_none he, getReceipts,
      getReceiptCount, isReferenceUsed, hr, hc, hu] <;> assumption

section
variable {env : Env own} {e : Event State (Env own × Call) (Option Receipt)}

theorem Creates.count_other (h : Creates env dealId reference s s' r) (hd : d ≠ dealId)
    (hm : d ≠ u64Max) : getReceiptCount s' d = getReceiptCount s d := by
  rw [getReceiptCount, h.counts, Store.getD_set_of_ne _ _ _ hm, Store.getD_set_of_ne _ _ _ hd,
    getReceiptCount]

theorem Creates.count_self (h : Creates env dealId reference s s' r) (hm : dealId ≠ u64Max) :
    getReceiptCount s' dealId = getReceiptCount s dealId + 1 := by
  rw [getReceiptCount, h.counts, Store.getD_set_of_ne _ _ _ hm, Store.getD_set_self, h.number]

theorem Creates.counter_mod (h : Creates env dealId reference s s' r) :
    getReceiptCount s' u64Max =
      (getReceiptCount s u64Max + if dealId = u64Max then 2 else 1) % 2 ^ 64 := by
  rw [getReceiptCount, h.counts, Store.getD_set_self, Store.getD_set]
  by_cases hd : dealId = u64Max
  · subst hd
    rw [if_pos rfl, if_pos rfl, h.number]
  · rw [if_neg (Ne.symm hd), if_neg hd, getReceiptCount]

theorem Creates.counter (h : Creates env dealId reference s s' r)
    (hlt : getReceiptCount s u64Max + (if dealId = u64Max then 2 else 1) < 2 ^ 64) :
    getReceiptCount s' u64Max =
      getReceiptCount s u64Max + if dealId = u64Max then 2 else 1 := by
  rw [h.counter_mod, Nat.mod_eq_of_lt hlt]

theorem Creates.used_other (h : Creates env dealId reference s s' r)
    (hne : (d, ref) ≠ (dealId, reference)) :
    isReferenceUsed s' d ref = isReferenceUsed s d ref := by
  rw [isReferenceUsed, Store.has, h.used, Store.get_set_of_ne _ _ hne, ← Store.has, isReferenceUsed]

theorem Creates.stored_other (h : Creates env dealId reference s s' r) (hd : d ≠ dealId) :
    getReceipts s' d = getReceipts s d := by
  rw [getReceipts, h.receipts, Store.getD_set_of_ne _ _ _ hd, getReceipts]

theorem Creates.stored_self (h : Creates env dealId reference s s' r) :
    getReceipts s' dealId = getReceipts s dealId ++ [r] := by
  rw [getReceipts, h.receipts, Store.getD_set_self]

section
variable (h : Ledger t s) (hc : Creates env dealId reference s s' r) (he : e.output = some r)
  (hb : bumps (e :: t) < 2 ^ 64)
include h hc he hb

theorem Ledger.counter_step : getReceiptCount s' u64Max = bumps (e :: t) := by
  have hbumps := bumps_cons_some he t
  rw [hc.deal, ← h.counter] at hbumps
  rw [hbumps]
  exact hc.counter (hbumps ▸ hb)

/-- The id of a new receipt carries a counter above all earlier ones. -/
theorem Ledger.txId_step :
    r.txId = txIdBytes r.timestamp (bumps (e :: t)) ∧ bumps t < bumps (e :: t) := by
  constructor
  · rw [hc.txId, hc.timestamp, h.counter_step hc he hb]
  · rw [bumps_cons_some he t]
    split <;> omega

omit hb in
theorem Ledger.used_step (d : DealId) (ref : BytesN 32) : isReferenceUsed s' d ref = true ↔
    ∃ r ∈ createdFor d (e :: t), r.reference = ref := by
  have hself := createdFor_cons_self he hc.deal t
  rw [isReferenceUsed, Store.has, hc.used, Store.get_set]
  by_cases hd : (d, ref) = (dealId, reference)
  · cases hd
    rw [if_pos rfl, hself]
    exact iff_of_true rfl ⟨r, by simp, hc.named⟩
  · rw [if_neg hd, ← Store.has, ← isReferenceUsed, h.used]
    by_cases hdeal : d = dealId
    · subst hdeal
      have hne : r.reference ≠ ref := fun hr => hd (by rw [← hr, hc.named])
      simp [hself, hne]
    · rw [createdFor_cons_other he (hc.deal ▸ Ne.symm hdeal) t]

omit he hb in
theorem Ledger.reference_fresh : ∀ r' ∈ createdFor dealId t, r'.reference ≠ r.reference := by
  intro r' hr' hr
  have hused := (h.used dealId reference).mpr ⟨r', hr', hr.trans hc.named⟩
  exact Bool.false_ne_true (hc.fresh.symm.trans hused)

theorem Ledger.txId_fresh : ∀ r' ∈ created t, r'.txId ≠ r.txId := by
  obtain ⟨htx, hlt⟩ := h.txId_step hc he hb
  intro r' hr' hr
  obtain ⟨c, hle, htx'⟩ := h.numbered r' hr'
  have heq : txIdBytes r'.timestamp c = txIdBytes r.timestamp (bumps (e :: t)) := by
    rw [← htx', ← htx, hr]
  exact (hle.trans_lt hlt).ne (txIdBytes_counter ((hle.trans_lt hlt).trans hb) hb heq)

theorem Ledger.create : Ledger (e :: t) s' := by
  obtain ⟨htx, hlt⟩ := h.txId_step hc he hb
  have hself := createdFor_cons_self he hc.deal t
  have hother {d} (hd : d ≠ dealId) : createdFor d (e :: t) = createdFor d t :=
    createdFor_cons_other he (hc.deal ▸ Ne.symm hd) t
  refine ⟨fun d => ?_, fun d hm => ?_, h.counter_step hc he hb, fun d hm => ?_,
    h.used_step hc he, fun d => ?_, ?_, ?_⟩
  · by_cases hd : d = dealId
    · subst hd
      rw [hself, hc.stored_self, h.stored]
    · rw [hother hd, hc.stored_other hd, h.stored]
  · by_cases hd : d = dealId
    · subst hd
      rw [hself, hc.count_self hm, h.count d hm, List.length_append, List.length_singleton]
    · rw [hother hd, hc.count_other hd hm, h.count d hm]
  · by_cases hd : d = dealId
    · subst hd
      rw [hself, List.map_append, List.length_append, List.length_singleton, List.range'_1_concat,
        h.ids d hm, List.map_singleton, hc.number, h.count d hm, Nat.add_comm 1]
    · rw [hother hd, h.ids d hm]
  · by_cases hd : d = dealId
    · subst hd
      rw [hself]
      exact nodup_map_concat (h.references d) (h.reference_fresh hc)
    · rw [hother hd]
      exact h.references d
  · intro r' hr'
    rw [created_cons_some he, List.mem_append, List.mem_singleton] at hr'
    rcases hr' with hr' | rfl
    · obtain ⟨c, hle, htx'⟩ := h.numbered r' hr'
      exact ⟨c, hle.trans hlt.le, htx'⟩
    · exact ⟨_, le_rfl, htx⟩
  · rw [created_cons_some he]
    exact nodup_map_concat h.txIds (h.txId_fresh hc he hb)

end

end

theorem run_ledger (h : (machine own).Run .fresh t s) (hb : bumps t < 2 ^ 64) : Ledger t s := by
  revert hb
  apply h.invariant (P := fun t s => bumps t < 2 ^ 64 → Ledger t s)
  · exact fun _ => ledger_fresh
  · intro t s i s' o ih hs hb
    have hold := ih ((bumps_le_cons _ t).trans_lt hb)
    obtain ⟨env, c⟩ := i
    have hch : Changes env s s' c o := invoke_changes hs
    cases hch with
    | quiet hr hc hu => exact hold.quiet rfl hr hc hu
    | create hc => exact hold.create hc rfl hb

/-- The books of a deal agree with its stored receipts, and those with what was created. -/
structure Booked (dealId : DealId) (t : History own) (s : State) : Prop where
  stored : getReceipts s dealId = createdFor dealId t
  count : receiptCount s dealId = (getReceipts s dealId).length
  ids : (getReceipts s dealId).map (·.id) = List.range' 1 (receiptCount s dealId)
  references : ((getReceipts s dealId).map (·.reference)).Nodup
  separate : ∀ e ∈ t, ∀ r, e.output = some r → r.dealId ≠ dealId →
    receiptCount e.post dealId = receiptCount e.pre dealId
  txIds : ((created t).map (·.txId)).Nodup
  rejected : ∀ i, (machine own).step s i = none → (machine own).apply (t, s) i = (t, s)

theorem mem_created {t : History own} (he : e ∈ t) (hr : e.output = some r) : r ∈ created t :=
  List.mem_reverse.mpr (List.mem_filterMap.mpr ⟨e, he, hr⟩)

theorem booked_of_ne (h : (machine own).Run .fresh t s) (hb : bumps t < 2 ^ 64)
    (hd : dealId ≠ u64Max) : Booked dealId t s := by
  have hl := run_ledger h hb
  have hcount : receiptCount s dealId = (createdFor dealId t).length := hl.count dealId hd
  refine ⟨hl.stored dealId, by rw [hl.stored, hcount], ?_, ?_, fun e he r hr hne => ?_, hl.txIds,
    fun i => Machine.apply_of_none t⟩
  · rw [hl.stored, hcount, hl.ids dealId hd]
  · rw [hl.stored]
    exact hl.references dealId
  · obtain ⟨pre, ⟨env, c⟩, o, post⟩ := e
    cases hr
    have hch : Changes env pre post c (some r) := invoke_changes (h.committed he).2
    cases hch with
    | create hc => exact hc.count_other (fun heq => hne (hc.deal.trans heq.symm)) hd

theorem booked_of_none (h : (machine own).Run .fresh t s) (hn : created t = []) :
    Booked dealId t s := by
  have hfor (d : DealId) : createdFor d t = [] := by rw [createdFor, hn, List.filter_nil]
  have hb : bumps t = 0 := by rw [bumps, hn, hfor, List.length_nil]
  have hl := run_ledger h (by rw [hb]; decide)
  have hcount : receiptCount s dealId = 0 := by
    by_cases hd : dealId = u64Max
    · rw [hd, receiptCount, hl.counter, hb]
    · rw [receiptCount, hl.count dealId hd, hfor, List.length_nil]
  refine ⟨hl.stored dealId, ?_, ?_, ?_, fun e he r hr _ => ?_, hl.txIds,
    fun i => Machine.apply_of_none t⟩
  · rw [hcount, hl.stored, hfor, List.length_nil]
  · rw [hcount, hl.stored, hfor, List.map_nil, List.range'_zero]
  · rw [hl.stored]
    exact hl.references dealId
  · have hmem := mem_created he hr
    rw [hn] at hmem
    cases hmem

/-- While the global counter has not wrapped, the books are right for every deal except the one
whose count the counter is, and for that one only before the first receipt. -/
theorem booked_iff (h : (machine own).Run .fresh t s) (hb : bumps t < 2 ^ 64) :
    Booked dealId t s ↔ dealId ≠ u64Max ∨ created t = [] := by
  constructor
  · intro hbook
    by_cases hd : dealId = u64Max
    · subst hd
      have hcount := hbook.count
      rw [hbook.stored, receiptCount, (run_ledger h hb).counter, bumps] at hcount
      exact .inr (List.length_eq_zero_iff.mp (by omega))
    · exact .inl hd
  · rintro (hd | hn)
    · exact booked_of_ne h hb hd
    · exact booked_of_none h hn

def receiptCalls : List (Env ⟨0⟩ × Call) :=
  [(.signed ⟨0⟩ 0, .init ⟨1⟩), (.signed ⟨0⟩ 5, .createReceipt 1 100 ⟨4⟩ (.replicate 32 1)),
    (.signed ⟨0⟩ 6, .createReceipt 2 100 ⟨4⟩ (.replicate 32 1)),
    (.signed ⟨0⟩ 6, .createReceipt 1 100 ⟨4⟩ (.replicate 32 2))]

def perform (cs : List (Env ⟨0⟩ × Call)) : History ⟨0⟩ × State := (machine ⟨0⟩).replay .fresh cs

theorem booked_iff_receipts :
    Booked 1 (perform receiptCalls).1 (perform receiptCalls).2 ↔
      (1 : DealId) ≠ u64Max ∨ created (perform receiptCalls).1 = [] :=
  booked_iff ((machine ⟨0⟩).run_replay .fresh receiptCalls) (by decide)

/-- After one receipt of deal 1 the count of deal `u64::MAX` is one. -/
theorem reserved_miscounted :
    ¬ ∀ (t : History ⟨0⟩) s, (machine ⟨0⟩).Run .fresh t s → ∀ dealId, Booked dealId t s := by
  intro hall
  have hbook := hall _ _ ((machine ⟨0⟩).run_replay .fresh (receiptCalls.take 2)) u64Max
  exact absurd hbook.count (by decide)

end Shelterflex.RentPayments
