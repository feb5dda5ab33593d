import Mathlib.Data.List.DropRight
import Mathlib.Data.Set.Function
import Shelterflex.TransactionReceipt.Text

/-! What the checks of a payment reference accept, and how they normalize it. -/

namespace Shelterflex.TransactionReceipt
open Lib
set_option autoImplicit true

theorem slice_append (a b : Bytes) (stop : Nat) :
    slice (a ++ b) a.length (a.length + stop) = b.take stop := by
  rw [slice, List.take_append, List.take_of_length_le (by omega), List.drop_left]
  congr
  omega

theorem stringRawBytes_eq (s : HostString) : stringRawBytes s = s.bytes := by
  have h := slice_append ([0, 0, 0, 14] ++ bigEndian 4 s.bytes.length)
    (s.bytes ++ List.replicate ((4 - s.bytes.length % 4) % 4) 0) s.bytes.length
  rw [List.length_append, bigEndian_length, List.append_assoc, List.take_left] at h
  exact h

/-- A text without the white space around it. -/
def trimmed (b : Bytes) : Bytes := (b.dropWhile isAsciiWs).rdropWhile isAsciiWs

theorem skipStart_drop (content : Bytes) (start turns : Nat) (h : content.length ≤ start + turns) :
    content.drop (skipStart content turns start) = (content.drop start).dropWhile isAsciiWs := by
  induction turns generalizing start with
  | zero =>
    rw [Nat.add_zero] at h
    rw [skipStart, List.drop_eq_nil_of_le h, List.dropWhile_nil]
  | succ turns ih =>
    rw [skipStart]
    split
    · rename_i hc
      obtain ⟨hlt, hws⟩ := hc
      rw [List.getElem?_eq_getElem hlt, Option.any_some] at hws
      rw [ih _ (by omega), List.drop_eq_getElem_cons hlt, List.dropWhile_cons_of_pos hws]
    · rename_i hc
      rcases Nat.lt_or_ge start content.length with hlt | hge
      · have hws : ¬ isAsciiWs content[start] = true := by
          intro hws
          exact hc ⟨hlt, by rw [List.getElem?_eq_getElem hlt]; exact hws⟩
        rw [List.drop_eq_getElem_cons hlt, List.dropWhile_cons_of_neg hws]
      · rw [List.drop_eq_nil_of_le hge, List.dropWhile_nil]

theorem slice_succ {content : Bytes} (hs : start ≤ last) (hl : last < content.length) :
    slice content start (last + 1) = slice content start last ++ [content[last]] := by
  rw [slice, List.take_succ_eq_append_getElem hl, List.drop_append_of_le_length, slice]
  rw [List.length_take]
  omega

theorem slice_skipEnd (content : Bytes) (hs : start ≤ stop) (hl : stop ≤ content.length) :
    slice content start (skipEnd content start stop) =
      (slice content start stop).rdropWhile isAsciiWs := by
  induction stop with
  | zero =>
    rw [skipEnd, slice, List.take_zero, List.drop_nil, List.rdropWhile_nil]
  | succ last ih =>
    rw [skipEnd]
    rcases Nat.lt_or_ge start (last + 1) with hlt | hge
    · rw [slice_succ (Nat.le_of_lt_succ hlt) hl, List.getElem?_eq_getElem hl, Option.any_some]
      by_cases hws : isAsciiWs content[last] = true
      · rw [if_pos ⟨hlt, hws⟩, ih (Nat.le_of_lt_succ hlt) (Nat.le_of_succ_le hl),
          List.rdropWhile_concat_pos _ _ _ hws]
      · rw [if_neg fun h => hws h.2, slice_succ (Nat.le_of_lt_succ hlt) hl,
          List.rdropWhile_concat_neg _ _ _ hws]
    · have hnil : slice content start (last + 1) = [] := by
        rw [slice]
        exact List.drop_eq_nil_of_le (by rw [List.length_take]; omega)
      rw [if_neg fun h => absurd h.1 (by omega), hnil, List.rdropWhile_nil]

theorem skipStart_le (content : Bytes) (start turns : Nat) (h : start ≤ content.length) :
    skipStart content turns start ≤ content.length := by
  induction turns generalizing start with
  | zero => exact h
  | succ turns ih =>
    rw [skipStart]
    split
    · rename_i hc
      exact ih _ hc.1
    · exact h

theorem trimAsciiBytes_eq (s : HostString) : trimAsciiBytes s = trimmed s.bytes := by
  have hd := skipStart_drop s.bytes 0 s.bytes.length (by omega)
  have hle := skipStart_le s.bytes 0 s.bytes.length (Nat.zero_le _)
  rw [trimAsciiBytes, stringRawBytes_eq]
  rw [slice_skipEnd _ hle le_rfl, slice, List.take_length, hd, List.drop_zero, trimmed]

/-- Texts that differ in nothing but the case of ASCII letters. -/
def SameCase (a b : Bytes) : Prop := a.map toAsciiLowercase = b.map toAsciiLowercase

theorem allowedSources_lower : ∀ a ∈ allowedSources, a.map toAsciiLowercase = a := by decide

theorem pipe_notMem_allowedSources : ∀ a ∈ allowedSources, pipe ∉ a := by decide

/-- What a reference stands for: a source in lower case and a reference without white space
around it. -/
structure Payment where
  source : Bytes
  reference : Bytes
deriving DecidableEq

def Payment.of (s : Symbol) (r : HostString) : Payment :=
  ⟨s.bytes.map toAsciiLowercase, trimmed r.bytes⟩

/-- The conditions on a reference. -/
structure Acceptable (s : Symbol) (r : HostString) : Prop where
  source : ∃ a ∈ allowedSources, SameCase s.bytes a
  nonempty : trimmed r.bytes ≠ []
  bounded : (trimmed r.bytes).length ≤ 256
  clean : pipe ∉ trimmed r.bytes

theorem Acceptable.allowed (h : Acceptable s r) : (Payment.of s r).source ∈ allowedSources := by
  obtain ⟨a, ha, hs⟩ := h.source
  rw [Payment.of, hs, allowedSources_lower a ha]
  exact ha

theorem normalizeSource_ok :
    normalizeSource s = .ok a ↔ a ∈ allowedSources ∧ s.bytes.map toAsciiLowercase = a := by
  rw [normalizeSource, okOr_ok]
  constructor
  · intro h
    have hp := List.find?_some h
    exact ⟨List.mem_of_find?_eq_some h, of_decide_eq_true hp⟩
  · rintro ⟨ha, rfl⟩
    cases hf : allowedSources.find? fun allowed =>
        decide ((symbolAscii s).map toAsciiLowercase = allowed) with
    | none =>
      have hn := List.find?_eq_none.mp hf _ ha
      exact absurd (decide_eq_true rfl) hn
    | some b =>
      have hp := List.find?_some hf
      rw [← of_decide_eq_true hp, symbolAscii]

theorem validateAndNormalizeRef_ok : validateAndNormalizeRef s r = .ok n ↔
    Acceptable s r ∧ n = ((Payment.of s r).source, (Payment.of s r).reference) := by
  simp only [validateAndNormalizeRef, bind_ok, require_ok, pure_ok, normalizeSource_ok,
    trimAsciiBytes_eq, exists_const, not_lt, List.all_eq_true, decide_eq_true_eq]
  constructor
  · rintro ⟨a, ⟨ha, rfl⟩, hne, hle, hp, rfl⟩
    have hs : SameCase s.bytes (s.bytes.map toAsciiLowercase) := (allowedSources_lower _ ha).symm
    exact ⟨⟨⟨_, ha, hs⟩, hne, hle, fun hm => hp _ hm rfl⟩, rfl⟩
  · rintro ⟨h, rfl⟩
    exact ⟨_, ⟨h.allowed, rfl⟩, h.nonempty, h.bounded,
      fun b hb he => h.clean (he ▸ hb), rfl⟩

theorem validateExternalRef_ok : validateExternalRef s r = .ok u ↔ Acceptable s r := by
  simp only [validateExternalRef, bind_ok, validateAndNormalizeRef_ok]
  exact ⟨fun ⟨_, h, _⟩ => h.1, fun h => ⟨_, ⟨h, rfl⟩, rfl⟩⟩

def Payment.canonical (p : Payment) : Bytes := canonicalRef p.source p.reference

theorem generateTxId_ok {sha256 : Bytes → BytesN 32} :
    generateTxId sha256 s r = .ok txId ↔
      Acceptable s r ∧ sha256 (Payment.of s r).canonical = txId := by
  simp only [generateTxId, bind_ok, pure_ok, validateAndNormalizeRef_ok]
  constructor
  · rintro ⟨_, ⟨h, rfl⟩, rfl⟩
    exact ⟨h, rfl⟩
  · rintro ⟨h, rfl⟩
    exact ⟨_, ⟨h, rfl⟩, rfl⟩

/-- The source ends at the first separator. -/
theorem canonicalRef_inj (ha : pipe ∉ a) (hb : pipe ∉ b)
    (h : canonicalRef a r = canonicalRef b r') : a = b ∧ r = r' := by
  have hkey : text "|ref=" = pipe :: text "ref=" := by decide
  rw [canonicalRef, canonicalRef, List.append_assoc, List.append_assoc, List.append_assoc,
    List.append_assoc] at h
  have h := List.append_cancel_left h
  rw [hkey, List.cons_append, List.cons_append] at h
  obtain ⟨he, hr⟩ := append_mark_inj ha hb h
  exact ⟨he, List.append_cancel_left hr⟩

theorem Payment.canonical_inj (h : Acceptable s r) (h' : Acceptable s' r')
    (he : (Payment.of s r).canonical = (Payment.of s' r').canonical) :
    Payment.of s r = Payment.of s' r' := by
  obtain ⟨hs, hr⟩ := canonicalRef_inj (pipe_notMem_allowedSources _ h.allowed)
    (pipe_notMem_allowedSources _ h'.allowed) he
  exact congrArg₂ Payment.mk hs hr

end Shelterflex.TransactionReceipt
