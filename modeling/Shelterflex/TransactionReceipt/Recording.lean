import Shelterflex.Lib.Since
import Shelterflex.TransactionReceipt.Model
import Shelterflex.TransactionReceipt.References

/-! What the calls of a run do, and that no payment is recorded twice. -/

namespace Shelterflex.TransactionReceipt
open Lib
set_option autoImplicit true

abbrev History (own : Address) := List (Event State (Env own × Call) (Option (BytesN 32)))

def ReceiptInput.payment (input : ReceiptInput) : Payment :=
  .of input.externalRefSource input.externalRef

/-- What the recording of a receipt does. -/
structure Records (sha256 : Bytes → BytesN 32) (strkey : Address → HostString) (env : Env own)
    (operator : Address) (input : ReceiptInput) (s s' : State) (txId : BytesN 32) : Prop where
  role : s.operator = some operator
  authorized : env.authorized operator = true
  running : s.paused.getD false = false
  checked : checkInput sha256 strkey input = .ok txId
  fresh : s.receipts.get txId = none
  indexed : ∃ s₁ s₂,
    indexDeal input.dealId txId
      { s with receipts := s.receipts.set txId (makeReceipt txId input env.timestamp) } = .ok s₁ ∧
    indexUser input.fromAddr txId s₁ = .ok s₂ ∧ indexUser input.toAddr txId s₂ = .ok s'

inductive Changes (sha256 : Bytes → BytesN 32) (strkey : Address → HostString) (env : Env own)
    (s s' : State) : Call → Option (BytesN 32) → Prop where
  | init (hn : s.admin = none)
      (hs : s' = { s with
        admin := some admin
        operator := some operator
        contractVersion := some 1
        paused := some false }) :
      Changes sha256 strkey env s s' (.init admin operator) none
  | setOperator (hr : s.admin = some admin) (ha : env.authorized admin = true)
      (hs : s' = { s with operator := some newOperator }) :
      Changes sha256 strkey env s s' (.setOperator admin newOperator) none
  | record (h : Records sha256 strkey env operator input s s' txId) :
      Changes sha256 strkey env s s' (.recordReceipt operator input) (some txId)
  | pause (hr : s.admin = some admin) (hs : s' = { s with paused := some true }) :
      Changes sha256 strkey env s s' (.pause admin) none
  | unpause (hr : s.admin = some admin) (hs : s' = { s with paused := some false }) :
      Changes sha256 strkey env s s' (.unpause admin) none

/-- The receipts and their indexes are as before. -/
structure Quiet (s s' : State) : Prop where
  receipts : s'.receipts = s.receipts
  dealIndex : s'.dealIndex = s.dealIndex
  dealCount : s'.dealCount = s.dealCount
  userIndex : s'.userIndex = s.userIndex
  userCount : s'.userCount = s.userCount

/-- The payment that a call records. -/
def Call.payment : Call → Option Payment
  | .recordReceipt _ input => some input.payment
  | _ => none

theorem requireAdmin_ok : requireAdmin s caller = .ok u ↔ s.admin = some caller := by
  simp only [requireAdmin, bind_ok, orPanic_ok, okOr_ok, require_ok, exists_eq_right']

theorem requireOperator_ok : requireOperator s caller = .ok u ↔ s.operator = some caller := by
  simp only [requireOperator, bind_ok, orPanic_ok, okOr_ok, require_ok, exists_eq_right']

section
variable {sha256 : Bytes → BytesN 32} {strkey : Address → HostString} {env : Env own}

theorem recordReceipt_ok : recordReceipt sha256 strkey env operator input s = .ok (txId, s') ↔
    Records sha256 strkey env operator input s s' txId := by
  simp only [recordReceipt, bind_ok, requireAuth_ok, requireOperator_ok, requireNotPaused,
    require_ok, pure_ok, exists_const, Prod.mk.injEq]
  constructor
  · rintro ⟨ha, hr, hp, _, hc, hf, s₁, h₁, s₂, h₂, _, h₃, rfl, rfl⟩
    exact ⟨hr, ha, hp, hc, Option.isNone_iff_eq_none.mp (Option.isSome_eq_false_iff.mp hf),
      s₁, s₂, h₁, h₂, h₃⟩
  · rintro ⟨hr, ha, hp, hc, hf, s₁, s₂, h₁, h₂, h₃⟩
    exact ⟨ha, hr, hp, txId, hc, by rw [Store.has, hf]; rfl, s₁, h₁, s₂, h₂, _, h₃, rfl, rfl⟩

theorem invoke_changes (h : invoke sha256 strkey env s c = some (s', o)) :
    Changes sha256 strkey env s s' c o := by
  cases c with
  | init admin operator =>
    obtain ⟨_, hs, he⟩ := commit_some.mp h
    cases he
    simp only [init, bind_ok, require_ok, pure_ok, exists_const] at hs
    obtain ⟨hn, rfl⟩ := hs
    exact .init hn rfl
  | setOperator admin newOperator =>
    obtain ⟨_, hs, he⟩ := commit_some.mp h
    cases he
    simp only [setOperator, bind_ok, requireAuth_ok, requireAdmin_ok, pure_ok, exists_const] at hs
    obtain ⟨ha, hr, _, _, rfl⟩ := hs
    exact .setOperator hr ha rfl
  | recordReceipt operator input =>
    obtain ⟨⟨txId, s''⟩, hs, he⟩ := commit_some.mp h
    cases he
    exact .record (recordReceipt_ok.mp hs)
  | pause admin =>
    obtain ⟨_, hs, he⟩ := commit_some.mp h
    cases he
    simp only [pause, bind_ok, mapErr_ok, requireAdmin_ok, pure_ok, exists_const] at hs
    obtain ⟨hr, rfl⟩ := hs
    exact .pause hr rfl
  | unpause admin =>
    obtain ⟨_, hs, he⟩ := commit_some.mp h
    cases he
    simp only [unpause, bind_ok, mapErr_ok, requireAdmin_ok, pure_ok, exists_const] at hs
    obtain ⟨hr, rfl⟩ := hs
    exact .unpause hr rfl

/-- A call records a receipt, or leaves the receipts and their indexes alone. -/
theorem Changes.quiet_or_records (h : Changes sha256 strkey env s s' c o) :
    (o = none ∧ c.payment = none ∧ Quiet s s') ∨
      ∃ operator input txId, c = .recordReceipt operator input ∧ o = some txId ∧
        Records sha256 strkey env operator input s s' txId := by
  cases h with
  | init _ hs => exact .inl ⟨rfl, rfl, by rw [hs]; exact ⟨rfl, rfl, rfl, rfl, rfl⟩⟩
  | setOperator _ _ hs => exact .inl ⟨rfl, rfl, by rw [hs]; exact ⟨rfl, rfl, rfl, rfl, rfl⟩⟩
  | pause _ hs => exact .inl ⟨rfl, rfl, by rw [hs]; exact ⟨rfl, rfl, rfl, rfl, rfl⟩⟩
  | unpause _ hs => exact .inl ⟨rfl, rfl, by rw [hs]; exact ⟨rfl, rfl, rfl, rfl, rfl⟩⟩
  | record h => exact .inr ⟨_, _, _, rfl, rfl, h⟩

end

/-! The indexing writes to its own entries only. -/

/-- Nothing but the indexes differs. -/
structure SameBooks (s s' : State) : Prop where
  admin : s'.admin = s.admin
  operator : s'.operator = s.operator
  paused : s'.paused = s.paused
  receipts : s'.receipts = s.receipts

theorem SameBooks.trans (h : SameBooks s s₁) (h' : SameBooks s₁ s₂) : SameBooks s s₂ :=
  ⟨h'.admin.trans h.admin, h'.operator.trans h.operator, h'.paused.trans h.paused,
    h'.receipts.trans h.receipts⟩

theorem indexDeal_ok (h : indexDeal dealId txId s = .ok s') :
    SameBooks s s' ∧ s'.userIndex = s.userIndex ∧ s'.userCount = s.userCount ∧
      s'.dealIndex = s.dealIndex.set (dealId, s.dealCount.getD dealId 0) txId ∧
      s'.dealCount = s.dealCount.set dealId (s.dealCount.getD dealId 0 + 1) := by
  simp only [indexDeal, bind_ok, u32Add_ok, pure_ok] at h
  obtain ⟨_, ⟨_, rfl⟩, rfl⟩ := h
  exact ⟨⟨rfl, rfl, rfl, rfl⟩, rfl, rfl, rfl, rfl⟩

theorem indexUser_some_ok (h : indexUser (some addr) txId s = .ok s') :
    s'.userIndex = s.userIndex.set (addr, s.userCount.getD addr 0) txId ∧
      s'.userCount = s.userCount.set addr (s.userCount.getD addr 0 + 1) := by
  simp only [indexUser, bind_ok, u32Add_ok, pure_ok] at h
  obtain ⟨_, ⟨_, rfl⟩, rfl⟩ := h
  exact ⟨rfl, rfl⟩

theorem indexUser_frame (h : indexUser user txId s = .ok s') :
    SameBooks s s' ∧ s'.dealIndex = s.dealIndex ∧ s'.dealCount = s.dealCount := by
  cases user with
  | none =>
    cases h
    exact ⟨⟨rfl, rfl, rfl, rfl⟩, rfl, rfl⟩
  | some addr =>
    simp only [indexUser, bind_ok, u32Add_ok, pure_ok] at h
    obtain ⟨_, ⟨_, rfl⟩, rfl⟩ := h
    exact ⟨⟨rfl, rfl, rfl, rfl⟩, rfl, rfl⟩

section
variable {sha256 : Bytes → BytesN 32} {strkey : Address → HostString} {env : Env own}

theorem Records.books (h : Records sha256 strkey env operator input s s' txId) :
    SameBooks { s with receipts := s.receipts.set txId (makeReceipt txId input env.timestamp) }
      s' := by
  obtain ⟨s₁, s₂, h₁, h₂, h₃⟩ := h.indexed
  exact (indexDeal_ok h₁).1.trans ((indexUser_frame h₂).1.trans (indexUser_frame h₃).1)

/-- The checks on an input. -/
structure Checked (sha256 : Bytes → BytesN 32) (strkey : Address → HostString)
    (input : ReceiptInput) : Prop where
  positive : 0 < input.amountUsdc.1
  txType : validateTxType input.txType = .ok ()
  reference : Acceptable input.externalRefSource input.externalRef
  metadata : checkMetadataHash sha256 strkey input = .ok ()

theorem checkInput_ok : checkInput sha256 strkey input = .ok txId ↔
    Checked sha256 strkey input ∧ sha256 input.payment.canonical = txId := by
  simp only [checkInput, bind_ok, require_ok, not_le, pure_ok, generateTxId_ok,
    validateExternalRef_ok, exists_const]
  constructor
  · rintro ⟨hp, _, ht, hr, _, ⟨_, rfl⟩, _, hm, rfl⟩
    exact ⟨⟨hp, ht, hr, hm⟩, rfl⟩
  · rintro ⟨h, rfl⟩
    exact ⟨h.positive, (), h.txType, h.reference, _, ⟨h.reference, rfl⟩, (), h.metadata, rfl⟩

end

end Shelterflex.TransactionReceipt
