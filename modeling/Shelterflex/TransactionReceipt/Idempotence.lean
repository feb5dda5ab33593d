import Shelterflex.Host.Text
import Shelterflex.TransactionReceipt.Recording

/-! The id of a payment, and that no payment is recorded twice. -/

namespace Shelterflex.TransactionReceipt
open Lib
set_option autoImplicit true

def records (p : Payment) (e : Event State (Env own × Call) (Option (BytesN 32))) : Bool :=
  e.input.2.payment = some p

section
variable {sha256 : Bytes → BytesN 32} {strkey : Address → HostString}

theorem Changes.receipts_stay {env : Env own} (h : Changes sha256 strkey env s s' c o)
    (hr : s.receipts.get k = some r) : s'.receipts.get k = some r := by
  rcases h.quiet_or_records with ⟨_, _, hq⟩ | ⟨_, _, txId, _, _, h⟩
  · rw [hq.receipts, hr]
  · have hne : k ≠ txId := by
      rintro rfl
      rw [h.fresh] at hr
      cases hr
    rw [h.books.receipts, Store.get_set_of_ne _ _ hne, hr]

/-- A call that records a payment finds no receipt under its id, and stores one there. -/
theorem Changes.record_sets {env : Env own} (h : Changes sha256 strkey env s s' c o)
    (hp : c.payment = some p) :
    s.receipts.get (sha256 p.canonical) = none ∧
      s'.receipts.has (sha256 p.canonical) = true ∧ o = some (sha256 p.canonical) := by
  rcases h.quiet_or_records with ⟨_, hn, _⟩ | ⟨_, _, txId, rfl, ho, h⟩
  · rw [hn] at hp
    cases hp
  · cases hp
    obtain ⟨_, rfl⟩ := checkInput_ok.mp h.checked
    refine ⟨h.fresh, ?_, ho⟩
    rw [h.books.receipts, Store.has, Store.get_set_self]
    rfl

theorem records_closes (own : Address) (p : Payment) :
    (machine sha256 strkey own).Closes .fresh (records p)
      (fun s => s.receipts.has (sha256 p.canonical) = true) where
  stays _ hs hf := by
    obtain ⟨r, hr⟩ := Option.isSome_iff_exists.mp hf
    rw [Store.has, (invoke_changes hs).receipts_stay hr]
    rfl
  needs _ hs hp hf := by
    have hn := ((invoke_changes hs).record_sets (of_decide_eq_true hp)).1
    rw [Store.has, hn] at hf
    cases hf
  sets _ hs hp := ((invoke_changes hs).record_sets (of_decide_eq_true hp)).2.1

theorem stored_recorded (h : (machine sha256 strkey own).Run .fresh t s) (k : BytesN 32)
    (hk : s.receipts.has k = true) :
    ∃ e ∈ t, ∃ s r, Acceptable s r ∧ records (.of s r) e ∧
      sha256 (Payment.of s r).canonical = k := by
  induction h with
  | start => cases hk
  | @commit t s i s' o _ hs ih =>
    have earlier (hk : s.receipts.has k = true) :
        ∃ e ∈ ⟨s, i, o, s'⟩ :: t, ∃ s r, Acceptable s r ∧ records (.of s r) e ∧
          sha256 (Payment.of s r).canonical = k := by
      obtain ⟨e, he, hp⟩ := ih hk
      exact ⟨e, List.mem_cons_of_mem _ he, hp⟩
    obtain ⟨env, c⟩ := i
    rcases (invoke_changes hs).quiet_or_records with ⟨_, _, hq⟩ | ⟨_, _, txId, rfl, _, h⟩
    · exact earlier (hq.receipts ▸ hk)
    · obtain ⟨hc, rfl⟩ := checkInput_ok.mp h.checked
      rw [Store.has, h.books.receipts, Store.get_set] at hk
      split at hk
      · rename_i he
        exact ⟨_, List.mem_cons_self, _, _, hc.reference, decide_eq_true rfl, he.symm⟩
      · exact earlier hk
  | rollback _ _ ih => exact ih hk

end

/-- The id of a payment identifies it, and no payment is recorded twice, where SHA-256 tells the
texts of the payments apart that are looked at. -/
structure Identifies (sha256 : Bytes → BytesN 32) (strkey : Address → HostString) (own : Address)
    (seen : Set Payment) : Prop where
  accepts : ∀ s r, (∃ txId, generateTxId sha256 s r = .ok txId) ↔ Acceptable s r
  same : ∀ s r s' r' txId txId', Payment.of s r ∈ seen → Payment.of s' r' ∈ seen →
    generateTxId sha256 s r = .ok txId → generateTxId sha256 s' r' = .ok txId' →
    (txId = txId' ↔ SameCase s.bytes s'.bytes ∧ trimmed r.bytes = trimmed r'.bytes)
  returned : ∀ t s, (machine sha256 strkey own).Run .fresh t s → ∀ e ∈ t, ∀ operator input,
    e.input.2 = .recordReceipt operator input →
    ∃ txId, generateTxId sha256 input.externalRefSource input.externalRef = .ok txId ∧
      e.output = some txId
  once : ∀ t s, (machine sha256 strkey own).Run .fresh t s → ∀ p, t.countP (records p) ≤ 1
  duplicate : ∀ t s, (machine sha256 strkey own).Run .fresh t s →
    (∀ e ∈ t, ∀ p, e.input.2.payment = some p → p ∈ seen) →
    ∀ source reference txId, Payment.of source reference ∈ seen →
      generateTxId sha256 source reference = .ok txId →
      (s.receipts.has txId = true ↔ t.countP (records (.of source reference)) = 1)

theorem identifies {sha256 : Bytes → BytesN 32} {seen : Set Payment}
    (hs : Set.InjOn sha256 (Payment.canonical '' seen)) (strkey : Address → HostString)
    (own : Address) : Identifies sha256 strkey own seen where
  accepts s r := by
    simp only [generateTxId_ok, exists_and_left, exists_eq', and_true]
  same s r s' r' txId txId' hm hm' h h' := by
    obtain ⟨ha, rfl⟩ := generateTxId_ok.mp h
    obtain ⟨ha', rfl⟩ := generateTxId_ok.mp h'
    constructor
    · intro he
      have hc := hs (Set.mem_image_of_mem _ hm) (Set.mem_image_of_mem _ hm') he
      exact Payment.mk.inj (Payment.canonical_inj ha ha' hc)
    · rintro ⟨hsrc, href⟩
      rw [Payment.of, Payment.of, hsrc, href]
  returned t s hr e he operator input hi := by
    obtain ⟨_, hstep⟩ := hr.committed he
    rcases (invoke_changes hstep).quiet_or_records with ⟨_, hn, _⟩ | ⟨_, _, txId, hc, ho, h⟩
    · rw [hi] at hn
      cases hn
    · cases hi.symm.trans hc
      obtain ⟨hc, rfl⟩ := checkInput_ok.mp h.checked
      exact ⟨_, generateTxId_ok.mpr ⟨hc.reference, rfl⟩, ho⟩
  once t s hr p := (hr.once (records_closes own p)).1
  duplicate t s hr hseen source reference txId hm h := by
    obtain ⟨ha, rfl⟩ := generateTxId_ok.mp h
    obtain ⟨hle, hset⟩ := hr.once (records_closes own (.of source reference))
    constructor
    · intro hk
      obtain ⟨e, he, source', reference', ha', hrec, heq⟩ := stored_recorded hr _ hk
      have hm' := hseen e he _ (of_decide_eq_true hrec)
      have hc := hs (Set.mem_image_of_mem _ hm') (Set.mem_image_of_mem _ hm) heq
      rw [Payment.canonical_inj ha' ha hc] at hrec
      have hpos := List.countP_pos_iff.mpr ⟨e, he, hrec⟩
      omega
    · intro hone
      exact hset (by omega)

/-- The text of an address as the host writes it. -/
def addressText (a : Address) : HostString :=
  ⟨strkeyText a, by rw [strkeyText_length]; decide⟩

def stellar : Symbol := ⟨text "stellar", by decide, by decide⟩

def stake : Symbol := ⟨text "STAKE", by decide, by decide⟩

def firstRef : HostString := ⟨text "r1", by decide⟩

def secondRef : HostString := ⟨text "r2", by decide⟩

def deal : HostString := ⟨text "d", by decide⟩

def five : I128 := ⟨5, by decide⟩

theorem firstRef_acceptable : Acceptable stellar firstRef :=
  ⟨⟨text "stellar", by decide, rfl⟩, by decide, by decide, by decide⟩

/-- SHA-256 on the texts of the two payments. -/
def refDigest (b : Bytes) : BytesN 32 :=
  if b = text "v1|source=stellar|ref=r1" then
    #v[151, 227, 214, 7, 2, 55, 18, 241, 87, 93, 12, 228, 108, 47, 172, 192, 120, 195, 229,
    215, 187, 124, 38, 71, 37, 42, 192, 20, 63, 229, 114, 16]
  else
    #v[5, 39, 154, 140, 139, 15, 223, 244, 2, 84, 28, 102, 53, 179, 245, 200, 63, 100, 162,
    87, 64, 20, 124, 66, 117, 194, 212, 252, 91, 242, 74, 99]

theorem identifies_two :
    Identifies refDigest addressText ⟨0⟩ {.of stellar firstRef, .of stellar secondRef} := by
  refine identifies ?_ addressText ⟨0⟩
  rw [Set.image_pair, Set.injOn_pair]
  intro h
  exact absurd h (by decide)

end Shelterflex.TransactionReceipt
