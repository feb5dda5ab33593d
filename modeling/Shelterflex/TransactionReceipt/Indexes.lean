import Shelterflex.Lib.Listing
import Shelterflex.TransactionReceipt.Roles

/-! The receipts of a run, and the indexes over them. -/

namespace Shelterflex.TransactionReceipt
open Lib
set_option autoImplicit true

/-- The receipt that a call stores. -/
def Call.receipt (timestamp : Nat) : Call → Option (BytesN 32) → Option Receipt
  | .recordReceipt _ input, some txId => some (makeReceipt txId input timestamp)
  | _, _ => none

def recordedBy (e : Event State (Env own × Call) (Option (BytesN 32))) : Option Receipt :=
  e.input.2.receipt e.input.1.timestamp e.output

/-- The receipts a run recorded, latest last. -/
def recorded (t : History own) : List Receipt := (t.filterMap recordedBy).reverse

def ofDeal (dealId : HostString) (l : List Receipt) : List Receipt := l.filter (·.dealId = dealId)

def ofUser (user : Address) (l : List Receipt) : List Receipt :=
  l.filter fun r => r.fromAddr = some user ∨ r.toAddr = some user

/-- A page of receipts, in their order. -/
def page (limit : Nat) (cursor : Option Nat) (l : List Receipt) : List Receipt :=
  (l.drop (cursor.getD 0)).take limit

/-- Every receipt is stored as it was recorded, and the indexes list the receipts of each deal and
of each user in recording order, each receipt once. -/
structure Indexed (sha256 : Bytes → BytesN 32) (strkey : Address → HostString) (t : History own)
    (s : State) : Prop where
  stored : ∀ r ∈ recorded t, getReceipt s r.txId = some r
  ids : ((recorded t).map (·.txId)).Nodup
  deals : Lists s.dealIndex s.dealCount fun dealId => (ofDeal dealId (recorded t)).map (·.txId)
  users : Lists s.userIndex s.userCount fun user => (ofUser user (recorded t)).map (·.txId)
  dealPage : ∀ dealId limit cursor, cursor.getD 0 + limit < 2 ^ 32 →
    listReceiptsByDeal dealId limit cursor s = .ok (page limit cursor (ofDeal dealId (recorded t)))
  userPage : ∀ user limit cursor, cursor.getD 0 + limit < 2 ^ 32 →
    listReceiptsByUser user limit cursor s = .ok (page limit cursor (ofUser user (recorded t)))
  rejected : ∀ i, (machine sha256 strkey own).step s i = none →
    (machine sha256 strkey own).apply (t, s) i = (t, s)

/-- A payment from an address to itself. -/
def Receipt.SelfPaid (r : Receipt) : Prop := ∃ user, r.fromAddr = some user ∧ r.toAddr = some user

/-! The user index as the code writes it: once for each party of a receipt. -/

/-- How often a receipt is entered for a user. -/
def entries (user : Address) (r : Receipt) : Nat :=
  (if r.fromAddr = some user then 1 else 0) + (if r.toAddr = some user then 1 else 0)

def written (user : Address) (l : List Receipt) : List (BytesN 32) :=
  l.flatMap fun r => List.replicate (entries user r) r.txId

theorem written_append (user : Address) (l : List Receipt) (r : Receipt) :
    written user (l ++ [r]) = written user l ++ List.replicate (entries user r) r.txId := by
  rw [written, List.flatMap_append, List.flatMap_singleton, written]

theorem ofUser_cons (user : Address) (r : Receipt) (l : List Receipt) :
    ofUser user (r :: l) = if r.fromAddr = some user ∨ r.toAddr = some user then
      r :: ofUser user l else ofUser user l := by
  rw [ofUser, List.filter_cons]
  split <;> rename_i h
  · rw [if_pos (of_decide_eq_true h), ofUser]
  · rw [if_neg fun h' => h (decide_eq_true h'), ofUser]

theorem written_cons_of_not {r : Receipt} (h : ¬ (r.fromAddr = some user ∧ r.toAddr = some user))
    (l : List Receipt) (hl : written user l = (ofUser user l).map (·.txId)) :
    written user (r :: l) = (ofUser user (r :: l)).map (·.txId) := by
  rw [written, List.flatMap_cons, ofUser_cons, ← written, hl, entries]
  by_cases hf : r.fromAddr = some user <;> by_cases ht : r.toAddr = some user
  · exact absurd ⟨hf, ht⟩ h
  · rw [if_pos hf, if_neg ht, if_pos (.inl hf)]
    rfl
  · rw [if_neg hf, if_pos ht, if_pos (.inr ht)]
    rfl
  · rw [if_neg hf, if_neg ht, if_neg (not_or.mpr ⟨hf, ht⟩)]
    rfl

theorem written_eq {l : List Receipt} (h : ∀ r ∈ l, ¬ r.SelfPaid) (user : Address) :
    written user l = (ofUser user l).map (·.txId) := by
  induction l with
  | nil => rfl
  | cons r l ih =>
    apply written_cons_of_not (fun hs => h r List.mem_cons_self ⟨user, hs⟩)
    exact ih fun r' hr => h r' (List.mem_cons_of_mem _ hr)

theorem length_written (user : Address) (l : List Receipt) : (written user l).length =
    (ofUser user l).length +
      l.countP fun r => r.fromAddr = some user ∧ r.toAddr = some user := by
  induction l with
  | nil => rfl
  | cons r l ih =>
    rw [written, List.flatMap_cons, List.length_append, List.length_replicate, ← written, ih,
      ofUser_cons, List.countP_cons, entries]
    by_cases hf : r.fromAddr = some user <;> by_cases ht : r.toAddr = some user <;>
      simp [hf, ht] <;> omega

/-! What a run keeps, whatever it records. -/

structure Ledger (t : History own) (s : State) : Prop where
  stored : ∀ r ∈ recorded t, s.receipts.get r.txId = some r
  ids : ((recorded t).map (·.txId)).Nodup
  deals : Lists s.dealIndex s.dealCount fun dealId => (ofDeal dealId (recorded t)).map (·.txId)
  users : Lists s.userIndex s.userCount fun user => written user (recorded t)

theorem ledger_start : Ledger ([] : History own) .fresh :=
  ⟨fun _ hr => absurd hr List.not_mem_nil, List.nodup_nil, .empty, .empty⟩

section
variable {e : Event State (Env own × Call) (Option (BytesN 32))}

theorem recorded_cons_none (h : recordedBy e = none) (t : History own) :
    recorded (e :: t) = recorded t := by
  rw [recorded, List.filterMap_cons_none h, recorded]

theorem recorded_cons_some (h : recordedBy e = some r) (t : History own) :
    recorded (e :: t) = recorded t ++ [r] := by
  rw [recorded, List.filterMap_cons_some h, List.reverse_cons, recorded]

end

theorem Ledger.quiet {t : History own} (h : Ledger t s) (hq : Quiet s s')
    (ht : recorded t' = recorded t) : Ledger t' s' := by
  constructor
  · rw [ht, hq.receipts]
    exact h.stored
  · rw [ht]
    exact h.ids
  · rw [ht, hq.dealIndex, hq.dealCount]
    exact h.deals
  · rw [ht, hq.userIndex, hq.userCount]
    exact h.users

theorem ofDeal_append (dealId : HostString) (l : List Receipt) (r : Receipt) :
    (ofDeal dealId (l ++ [r])).map (·.txId) =
      Function.update (fun dealId => (ofDeal dealId l).map (·.txId)) r.dealId
        ((ofDeal r.dealId l).map (·.txId) ++ [r.txId]) dealId := by
  by_cases hd : dealId = r.dealId
  · subst hd
    rw [Function.update_self]
    simp [ofDeal]
  · rw [Function.update_of_ne hd]
    simp [ofDeal, Ne.symm hd]

theorem indexDeal_lists (h : indexDeal dealId txId s = .ok s')
    (hl : Lists s.dealIndex s.dealCount l) :
    Lists s'.dealIndex s'.dealCount (Function.update l dealId (l dealId ++ [txId])) := by
  obtain ⟨_, _, _, hi, hc⟩ := indexDeal_ok h
  rw [hi, hc]
  exact hl.push dealId txId

theorem indexUser_lists (h : indexUser party txId s = .ok s')
    (hl : Lists s.userIndex s.userCount l) :
    Lists s'.userIndex s'.userCount
      fun user => l user ++ List.replicate (if party = some user then 1 else 0) txId := by
  cases party with
  | none =>
    cases h
    convert hl using 1
    funext user
    rw [if_neg (Option.some_ne_none user).symm, List.replicate_zero, List.append_nil]
  | some addr =>
    obtain ⟨hi, hc⟩ := indexUser_some_ok h
    rw [hi, hc]
    convert hl.push addr txId using 1
    funext user
    by_cases hu : user = addr
    · subst hu
      rw [Function.update_self, if_pos rfl]
      rfl
    · rw [Function.update_of_ne hu, if_neg fun he => hu (Option.some.inj he).symm,
        List.replicate_zero, List.append_nil]

section
variable {sha256 : Bytes → BytesN 32} {strkey : Address → HostString} {env : Env own}

theorem Records.deals (h : Records sha256 strkey env operator input s s' txId)
    (hl : Lists s.dealIndex s.dealCount l) :
    Lists s'.dealIndex s'.dealCount
      (Function.update l input.dealId (l input.dealId ++ [txId])) := by
  obtain ⟨s₁, s₂, h₁, h₂, h₃⟩ := h.indexed
  obtain ⟨_, hi₂, hc₂⟩ := indexUser_frame h₂
  obtain ⟨_, hi₃, hc₃⟩ := indexUser_frame h₃
  rw [hi₃, hc₃, hi₂, hc₂]
  exact indexDeal_lists h₁ hl

theorem Records.users (h : Records sha256 strkey env operator input s s' txId)
    (hl : Lists s.userIndex s.userCount l) :
    Lists s'.userIndex s'.userCount fun user =>
      l user ++ List.replicate (entries user (makeReceipt txId input env.timestamp)) txId := by
  obtain ⟨s₁, s₂, h₁, h₂, h₃⟩ := h.indexed
  obtain ⟨_, hi, hc, _⟩ := indexDeal_ok h₁
  have hl₁ : Lists s₁.userIndex s₁.userCount l := by
    rw [hi, hc]
    exact hl
  have hl₃ := indexUser_lists h₃ (indexUser_lists h₂ hl₁)
  simp only [List.append_assoc, List.replicate_append_replicate] at hl₃
  exact hl₃

theorem Ledger.record {t : History own} (h : Ledger t s)
    (hr : Records sha256 strkey env operator input s s' txId)
    (ht : recorded t' = recorded t ++ [makeReceipt txId input env.timestamp]) : Ledger t' s' := by
  have hnew : ∀ r ∈ recorded t, r.txId ≠ txId := by
    intro r hm he
    have hget := h.stored r hm
    rw [he, hr.fresh] at hget
    cases hget
  constructor
  · intro r hm
    rw [ht] at hm
    rw [hr.books.receipts]
    rcases List.mem_append.mp hm with hm | hm
    · rw [Store.get_set_of_ne _ _ (hnew r hm)]
      exact h.stored r hm
    · rw [List.mem_singleton.mp hm]
      exact Store.get_set_self _ _ _
  · rw [ht]
    exact nodup_map_concat h.ids hnew
  · rw [ht]
    convert hr.deals h.deals using 1
    funext dealId
    exact ofDeal_append dealId _ _
  · rw [ht]
    convert hr.users h.users using 1
    funext user
    exact written_append user _ _

theorem run_ledger (h : (machine sha256 strkey own).Run .fresh t s) : Ledger t s := by
  apply h.invariant (P := fun t s => Ledger t s) ledger_start
  intro t s i s' o ih hs
  obtain ⟨env, c⟩ := i
  rcases (invoke_changes hs).quiet_or_records with ⟨rfl, _, hq⟩ | ⟨_, _, txId, rfl, rfl, h⟩
  · refine ih.quiet hq (recorded_cons_none ?_ t)
    cases c <;> rfl
  · exact ih.record h (recorded_cons_some rfl t)

end

/-- Where an index lists stored receipts, a listing is a page of them. -/
theorem listReceipts_eq {l : List Receipt} (hc : totalCount = l.length)
    (hi : ∀ n, index n = (l.map (·.txId))[n]?) (hs : ∀ r ∈ l, s.receipts.get r.txId = some r)
    (hb : cursor.getD 0 + limit < 2 ^ 32) :
    listReceipts totalCount index limit cursor s = .ok (page limit cursor l) := by
  have hread : (fun i => (index i).bind s.receipts.get) = fun i => l[i]? := by
    funext i
    rw [hi, List.getElem?_map]
    cases hl : l[i]? with
    | none => rfl
    | some r => exact hs r (List.mem_of_getElem? hl)
  have hreach : (u32Add (cursor.getD 0) limit : Result Nat) = .ok (cursor.getD 0 + limit) :=
    u32Add_ok.mpr ⟨hb, rfl⟩
  rw [listReceipts]
  dsimp only
  rw [bind_of_ok hreach, hread, filterMap_range', page, hc]
  refine congrArg Except.ok (List.take_eq_take_iff.mpr ?_)
  rw [List.length_drop]
  omega

theorem Lists.page_eq {l : κ → List Receipt} {s : State} {count : Store κ Nat}
    {index : Store (κ × Nat) (BytesN 32)} (h : Lists index count fun k => (l k).map (·.txId))
    (k : κ) (hs : ∀ r ∈ l k, s.receipts.get r.txId = some r)
    (hb : cursor.getD 0 + limit < 2 ^ 32) :
    listReceipts (count.getD k 0) (fun i => index.get (k, i)) limit cursor s =
      .ok (page limit cursor (l k)) :=
  listReceipts_eq ((h k).1.trans (List.length_map _)) (h k).2 hs hb

section
variable {sha256 : Bytes → BytesN 32} {strkey : Address → HostString}

/-- The indexes of a run are exact exactly when it recorded no payment from an address to itself. -/
theorem indexed_iff (h : (machine sha256 strkey own).Run .fresh t s) :
    Indexed sha256 strkey t s ↔ ∀ r ∈ recorded t, ¬ r.SelfPaid := by
  have hl := run_ledger h
  constructor
  · rintro hx r hr ⟨user, hself⟩
    have hlen := (hl.users user).1.symm.trans (hx.users user).1
    rw [length_written, List.length_map] at hlen
    have hpos : 0 < (recorded t).countP fun r =>
        r.fromAddr = some user ∧ r.toAddr = some user :=
      List.countP_pos_iff.mpr ⟨r, hr, decide_eq_true hself⟩
    omega
  · intro hn
    have husers : Lists s.userIndex s.userCount fun user =>
        (ofUser user (recorded t)).map (·.txId) := by
      convert hl.users using 1
      funext user
      exact (written_eq hn user).symm
    refine ⟨hl.stored, hl.ids, hl.deals, husers, fun dealId limit cursor hb => ?_,
      fun user limit cursor hb => ?_, fun i => Machine.apply_of_none t⟩
    · exact Lists.page_eq hl.deals dealId
        (fun r hr => hl.stored r (List.mem_of_mem_filter hr)) hb
    · exact Lists.page_eq husers user
        (fun r hr => hl.stored r (List.mem_of_mem_filter hr)) hb

end

/-- A stake of `5` for the deal `d`, from one party to another. -/
def partyInput (reference : HostString) (fromAddr toAddr : Option Address) : ReceiptInput :=
  ⟨stellar, reference, stake, five, ⟨9⟩, deal, none, fromAddr, toAddr, none, none, none, none⟩

def recordedCalls (first second : ReceiptInput) : List (Env ⟨0⟩ × Call) :=
  [(.signed ⟨0⟩ 0, .init ⟨1⟩ ⟨2⟩), (.signed ⟨0⟩ 1, .recordReceipt ⟨2⟩ first),
    (.signed ⟨0⟩ 2, .recordReceipt ⟨2⟩ second)]

theorem indexed_iff_parties :
    Indexed refDigest addressText
        (perform (recordedCalls (partyInput firstRef (some ⟨4⟩) (some ⟨5⟩))
          (partyInput secondRef (some ⟨5⟩) none))).1
        (perform (recordedCalls (partyInput firstRef (some ⟨4⟩) (some ⟨5⟩))
          (partyInput secondRef (some ⟨5⟩) none))).2 ↔
      ∀ r ∈ recorded (perform (recordedCalls (partyInput firstRef (some ⟨4⟩) (some ⟨5⟩))
        (partyInput secondRef (some ⟨5⟩) none))).1, ¬ r.SelfPaid :=
  indexed_iff ((machine refDigest addressText ⟨0⟩).run_replay .fresh _)

/-- A payment of an address to itself is in its index twice. -/
theorem self_paid_twice :
    ¬ ∀ (t : History ⟨0⟩) s, (machine refDigest addressText ⟨0⟩).Run .fresh t s →
      Indexed refDigest addressText t s := by
  intro hall
  have hx := hall _ _ ((machine refDigest addressText ⟨0⟩).run_replay .fresh
    ((recordedCalls (partyInput firstRef (some ⟨4⟩) (some ⟨4⟩)) (partyInput secondRef none none))))
  have hcount := (hx.users ⟨4⟩).1
  revert hcount
  decide +kernel

end Shelterflex.TransactionReceipt
