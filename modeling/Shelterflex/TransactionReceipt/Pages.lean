import Shelterflex.TransactionReceipt.Indexes

/-! The listings as slices of an index, and as pages that a client reads one after the other. -/

namespace Shelterflex.TransactionReceipt
open Lib
set_option autoImplicit true

/-- What receipts are listed by. -/
inductive Query where
  | deal (dealId : HostString)
  | user (user : Address)
deriving DecidableEq

def Query.list (q : Query) (limit : Nat) (cursor : Option Nat) (s : State) :
    Result (List Receipt) :=
  match q with
  | .deal dealId => listReceiptsByDeal dealId limit cursor s
  | .user addr => listReceiptsByUser addr limit cursor s

def Query.count (q : Query) (s : State) : Nat :=
  match q with
  | .deal dealId => s.dealCount.getD dealId 0
  | .user addr => s.userCount.getD addr 0

def Query.index (q : Query) (s : State) (i : Nat) : Option (BytesN 32) :=
  match q with
  | .deal dealId => s.dealIndex.get (dealId, i)
  | .user addr => s.userIndex.get (addr, i)

/-- The receipt at a position of an index. -/
def Query.receiptAt (q : Query) (s : State) (i : Nat) : Option Receipt :=
  (q.index s i).bind (getReceipt s)

/-- The receipts that a query is about. -/
def Query.receipts (q : Query) (l : List Receipt) : List Receipt :=
  match q with
  | .deal dealId => ofDeal dealId l
  | .user addr => ofUser addr l

/-- Both parties of the receipt are the user asked for. -/
def Query.SelfPaid (q : Query) (r : Receipt) : Prop :=
  match q with
  | .deal _ => False
  | .user addr => r.fromAddr = some addr ∧ r.toAddr = some addr

/-- The page is the window of the index that the caller asks for, without a gap. -/
def Slices (q : Query) (s : State) (limit : Nat) (cursor : Option Nat) : Prop :=
  ∃ page, q.list limit cursor s = .ok page ∧
    page.map some = (List.range' (cursor.getD 0)
      (min (cursor.getD 0 + limit) (q.count s) - cursor.getD 0)).map (q.receiptAt s)

/-- A client reads pages of some sizes, with the number of receipts read as the cursor. -/
def Query.read (q : Query) (s : State) (sizes : List Nat) : Result (List Receipt) :=
  readPages (fun n limit => q.list limit (some n) s) sizes []

/-- The pages hold every receipt asked for once, and no other. -/
def ReadsAll (q : Query) (t : History own) (s : State) (sizes : List Nat) : Prop :=
  ∃ all, q.read s sizes = .ok all ∧
    ∀ r, all.count r = if r ∈ q.receipts (recorded t) then 1 else 0

/-! The receipts in the order of an index. -/

def Query.entries (q : Query) (r : Receipt) : Nat :=
  match q with
  | .deal dealId => if r.dealId = dealId then 1 else 0
  | .user addr => TransactionReceipt.entries addr r

def Query.entered (q : Query) (l : List Receipt) : List Receipt :=
  l.flatMap fun r => List.replicate (q.entries r) r

theorem entered_deal (dealId : HostString) (l : List Receipt) :
    (Query.deal dealId).entered l = ofDeal dealId l := by
  induction l with
  | nil => rfl
  | cons r l ih =>
    rw [Query.entered, List.flatMap_cons, ← Query.entered, ih, Query.entries, ofDeal, ofDeal,
      List.filter_cons]
    by_cases hd : r.dealId = dealId <;> simp [hd]

theorem map_entered_user (user : Address) (l : List Receipt) :
    ((Query.user user).entered l).map (·.txId) = written user l := by
  rw [Query.entered, List.map_flatMap, written]
  simp only [List.map_replicate, Query.entries]

theorem Ledger.entered {t : History own} (h : Ledger t s) (q : Query) :
    q.count s = (q.entered (recorded t)).length ∧
      ∀ n, q.index s n = ((q.entered (recorded t)).map (·.txId))[n]? := by
  cases q with
  | deal dealId =>
    obtain ⟨hc, hi⟩ := h.deals dealId
    rw [List.length_map] at hc
    rw [entered_deal]
    exact ⟨hc, hi⟩
  | user user =>
    obtain ⟨hc, hi⟩ := h.users user
    simp only [← map_entered_user] at hc hi
    rw [List.length_map] at hc
    exact ⟨hc, hi⟩

theorem mem_of_entered {q : Query} (h : r ∈ q.entered l) : r ∈ l := by
  obtain ⟨r', hr', hr⟩ := List.mem_flatMap.mp h
  rwa [List.eq_of_mem_replicate hr]

theorem Ledger.receiptAt {t : History own} (h : Ledger t s) (q : Query) :
    q.receiptAt s = ((q.entered (recorded t))[·]?) := by
  funext i
  rw [Query.receiptAt, (h.entered q).2, List.getElem?_map]
  cases hr : (q.entered (recorded t))[i]? with
  | none => rfl
  | some r => exact h.stored r (mem_of_entered (List.mem_of_getElem? hr))

theorem Ledger.list_ok {t : History own} (h : Ledger t s) (q : Query) (cursor : Option Nat) :
    q.list limit cursor s = .ok listed ↔ cursor.getD 0 + limit < 2 ^ 32 ∧
      listed = ((q.entered (recorded t)).drop (cursor.getD 0)).take limit := by
  have hlist : q.list limit cursor s =
      listReceipts (q.count s) (q.index s) limit cursor s := by
    cases q <;> rfl
  have hfits (hb : cursor.getD 0 + limit < 2 ^ 32) : q.list limit cursor s =
      .ok (((q.entered (recorded t)).drop (cursor.getD 0)).take limit) := by
    rw [hlist]
    exact listReceipts_eq (h.entered q).1 (h.entered q).2
      (fun r hr => h.stored r (mem_of_entered hr)) hb
  constructor
  · intro hp
    have hb : cursor.getD 0 + limit < 2 ^ 32 := by
      rw [hlist, listReceipts, bind_ok] at hp
      obtain ⟨_, hadd, _⟩ := hp
      exact (u32Add_ok.mp hadd).1
    exact ⟨hb, Except.ok.inj (hp.symm.trans (hfits hb))⟩
  · rintro ⟨hb, rfl⟩
    exact hfits hb

theorem Ledger.slices_iff {t : History own} (h : Ledger t s) (q : Query) :
    Slices q s limit cursor ↔ cursor.getD 0 + limit < 2 ^ 32 := by
  constructor
  · rintro ⟨page, hp, _⟩
    exact ((h.list_ok q cursor).mp hp).1
  · intro hb
    refine ⟨_, (h.list_ok q cursor).mpr ⟨hb, rfl⟩, ?_⟩
    rw [h.receiptAt q, (h.entered q).1]
    rcases Nat.le_total (cursor.getD 0) (q.entered (recorded t)).length with hle | hge
    · rw [map_range' (by omega)]
      congr 1
      rw [List.take_eq_take_iff, List.length_drop]
      omega
    · rw [List.drop_eq_nil_of_le hge, Nat.sub_eq_zero_of_le ((Nat.min_le_right _ _).trans hge),
        List.take_nil]
      rfl

theorem Ledger.read_ok {t : History own} (h : Ledger t s) (q : Query)
    (hall : q.count s ≤ sizes.sum) : q.read s sizes = .ok all ↔
      PagesFit (2 ^ 32) (q.count s) 0 sizes ∧ q.entered (recorded t) = all := by
  have hpages := readPages_ok (fun n limit page => h.list_ok q (some n)) (Nat.zero_le _) sizes all
  rw [(h.entered q).1] at hall ⊢
  rwa [List.take_zero, Nat.zero_add, List.take_of_length_le hall] at hpages

/-! How often a receipt stands in an index. -/

theorem count_entered (q : Query) (l : List Receipt) (r : Receipt) :
    (q.entered l).count r = q.entries r * l.count r := by
  induction l with
  | nil => rfl
  | cons a l ih =>
    rw [Query.entered, List.flatMap_cons, List.count_append, ← Query.entered, ih,
      List.count_replicate, List.count_cons]
    by_cases ha : a = r
    · subst ha
      simp only [beq_self_eq_true, if_true]
      ring
    · simp [ha]

theorem mem_receipts {q : Query} : r ∈ q.receipts l ↔ r ∈ l ∧ 0 < q.entries r := by
  cases q with
  | deal dealId =>
    by_cases hd : r.dealId = dealId <;> simp [Query.receipts, ofDeal, Query.entries, hd]
  | user user =>
    by_cases hf : r.fromAddr = some user <;> by_cases ht : r.toAddr = some user <;>
      simp [Query.receipts, ofUser, Query.entries, entries, hf, ht]

theorem entries_le_one {q : Query} : q.entries r ≤ 1 ↔ ¬ q.SelfPaid r := by
  cases q with
  | deal dealId =>
    by_cases hd : r.dealId = dealId <;> simp [Query.entries, Query.SelfPaid, hd]
  | user user =>
    by_cases hf : r.fromAddr = some user <;> by_cases ht : r.toAddr = some user <;>
      simp [Query.entries, entries, Query.SelfPaid, hf, ht]

/-- Each receipt is entered once where the user asked for paid no receipt to itself. -/
theorem count_entered_iff {q : Query} (hl : l.Nodup) :
    (∀ r, (q.entered l).count r = if r ∈ q.receipts l then 1 else 0) ↔
      ∀ r ∈ l, ¬ q.SelfPaid r := by
  constructor
  · intro hall r hr
    have hcount := hall r
    rw [count_entered, List.count_eq_one_of_mem hl hr, Nat.mul_one] at hcount
    rw [← entries_le_one, hcount]
    split <;> decide
  · intro hn r
    rw [count_entered]
    by_cases hr : r ∈ l
    · have hle := entries_le_one.mpr (hn r hr)
      rw [List.count_eq_one_of_mem hl hr, Nat.mul_one]
      split
      · rename_i hm
        exact Nat.le_antisymm hle (mem_receipts.mp hm).2
      · rename_i hm
        by_contra hpos
        exact hm (mem_receipts.mpr ⟨hr, Nat.pos_of_ne_zero hpos⟩)
    · rw [List.count_eq_zero_of_not_mem hr, if_neg fun h => hr (mem_receipts.mp h).1, Nat.mul_zero]

section
variable {sha256 : Bytes → BytesN 32} {strkey : Address → HostString}

/-- A listing is the slice asked for exactly when the end of its window is a `u32`. The pages up to
the end hold each receipt once exactly when all their windows end so, and the user asked for paid
nothing to itself. -/
theorem listing_exact_iff (h : (machine sha256 strkey own).Run .fresh t s) (q : Query) :
    (∀ limit cursor, Slices q s limit cursor ↔ cursor.getD 0 + limit < 2 ^ 32) ∧
      ∀ sizes, q.count s ≤ sizes.sum → (ReadsAll q t s sizes ↔
        PagesFit (2 ^ 32) (q.count s) 0 sizes ∧ ∀ r ∈ recorded t, ¬ q.SelfPaid r) := by
  have hl := run_ledger h
  refine ⟨fun limit cursor => hl.slices_iff q, fun sizes hall => ?_⟩
  rw [← count_entered_iff (List.Nodup.of_map _ hl.ids)]
  constructor
  · rintro ⟨all, hread, hcount⟩
    obtain ⟨hfit, rfl⟩ := (hl.read_ok q hall).mp hread
    exact ⟨hfit, hcount⟩
  · rintro ⟨hfit, hcount⟩
    exact ⟨_, (hl.read_ok q hall).mpr ⟨hfit, rfl⟩, hcount⟩

end

/-- Two receipts of the deal `d`. -/
def twoReceipts : List (Env ⟨0⟩ × Call) :=
  recordedCalls (partyInput firstRef (some ⟨4⟩) (some ⟨5⟩)) (partyInput secondRef none none)

theorem listing_exact_iff_recorded :
    (∀ limit cursor, Slices (.deal deal) (perform twoReceipts).2 limit cursor ↔
        cursor.getD 0 + limit < 2 ^ 32) ∧
      ∀ sizes, (Query.deal deal).count (perform twoReceipts).2 ≤ sizes.sum →
        (ReadsAll (.deal deal) (perform twoReceipts).1 (perform twoReceipts).2 sizes ↔
          PagesFit (2 ^ 32) ((Query.deal deal).count (perform twoReceipts).2) 0 sizes ∧
            ∀ r ∈ recorded (perform twoReceipts).1, ¬ (Query.deal deal).SelfPaid r) :=
  listing_exact_iff ((machine refDigest addressText ⟨0⟩).run_replay .fresh twoReceipts) (.deal deal)

/-- After the first of two receipts of the deal `d` no page of the largest size can be read. -/
theorem largest_page_overflows :
    ¬ ∀ (t : History ⟨0⟩) s, (machine refDigest addressText ⟨0⟩).Run .fresh t s →
      ∀ (q : Query) (limit : Nat) (cursor : Option Nat), limit < 2 ^ 32 → cursor.getD 0 < 2 ^ 32 →
        Slices q s limit cursor := by
  intro hall
  obtain ⟨page, hp, _⟩ := hall _ _ ((machine refDigest addressText ⟨0⟩).run_replay .fresh
    twoReceipts) (.deal deal) (2 ^ 32 - 1) (some 1) (by decide) (by decide)
  have hover : listReceiptsByDeal deal (2 ^ 32 - 1) (some 1)
      ((machine refDigest addressText ⟨0⟩).replay .fresh twoReceipts).2 =
        .error (.trap .overflow) := rfl
  cases hover.symm.trans hp

end Shelterflex.TransactionReceipt
