import Shelterflex.Lib.Fields
import Shelterflex.TransactionReceipt.Idempotence

/-! The canonical payload of a receipt, and the inputs it does not tell apart. -/

namespace Shelterflex.TransactionReceipt
open Lib
set_option autoImplicit true

/-- An input that some recording accepts. -/
def Accepted (sha256 : Bytes → BytesN 32) (strkey : Address → HostString) (i : ReceiptInput) :
    Prop :=
  ∃ (own : Address) (env : Env own) (operator : Address) (s s' : State) (txId : BytesN 32),
    recordReceipt sha256 strkey env operator i s = .ok (txId, s')

/-- The inputs agree on everything the payload is made of. -/
structure ReceiptInput.Same (i j : ReceiptInput) : Prop where
  source : SameCase i.externalRefSource.bytes j.externalRefSource.bytes
  reference : trimmed i.externalRef.bytes = trimmed j.externalRef.bytes
  txType : i.txType = j.txType
  amountUsdc : i.amountUsdc = j.amountUsdc
  token : i.token = j.token
  dealId : i.dealId = j.dealId
  listingId : i.listingId = j.listingId
  fromAddr : i.fromAddr = j.fromAddr
  toAddr : i.toAddr = j.toAddr
  amountNgn : i.amountNgn = j.amountNgn
  fxRateNgnPerUsdc : i.fxRateNgnPerUsdc = j.fxRateNgnPerUsdc
  fxProvider : i.fxProvider = j.fxProvider

section
variable (strkey : Address → HostString)

/-- The fields before the deal id. -/
def headFields (i : ReceiptInput) : List (Bytes × Option Bytes) :=
  [(text "|external_ref_source=", some (i.externalRefSource.bytes.map toAsciiLowercase)),
    (text "|external_ref=", some (trimmed i.externalRef.bytes)),
    (text "|tx_type=", some i.txType.bytes),
    (text "|amount_usdc=", some (signedDecimal i.amountUsdc.1)),
    (text "|token=", some (strkey i.token).bytes)]

/-- The fields between the listing id and the provider. -/
def middleFields (i : ReceiptInput) : List (Bytes × Option Bytes) :=
  [(text "|from=", i.fromAddr.map fun a => (strkey a).bytes),
    (text "|to=", i.toAddr.map fun a => (strkey a).bytes),
    (text "|amount_ngn=", i.amountNgn.map fun v => signedDecimal v.1),
    (text "|fx_rate_ngn_per_usdc=", i.fxRateNgnPerUsdc.map fun v => signedDecimal v.1)]

/-- The fields after the listing id, as `|key=value`. -/
def afterListing (i : ReceiptInput) : Bytes :=
  recordText (middleFields strkey i) ++
    fieldText (text "|fx_provider=") (i.fxProvider.map HostString.bytes)

/-- The fields after the deal id, as `|key=value`. -/
def afterDeal (i : ReceiptInput) : Bytes :=
  fieldText (text "|listing_id=") (i.listingId.map HostString.bytes) ++ afterListing strkey i

/-- The inputs agree on the fields before the deal id. -/
structure ReceiptInput.SameHead (i j : ReceiptInput) : Prop where
  source : SameCase i.externalRefSource.bytes j.externalRefSource.bytes
  reference : trimmed i.externalRef.bytes = trimmed j.externalRef.bytes
  txType : i.txType = j.txType
  amountUsdc : i.amountUsdc = j.amountUsdc
  token : i.token = j.token

/-- The deal id or the listing id of one input goes on with the first fields that follow it in the
other, and the rest of those are its own. -/
inductive Swallows (i j : ReceiptInput) : Prop where
  | deal (h : i.SameHead j) (hu : u ≠ []) (hd : i.dealId.bytes = j.dealId.bytes ++ u)
      (ha : afterDeal strkey j = u ++ afterDeal strkey i)
  | listing (h : i.SameHead j) (hd : i.dealId = j.dealId) (hi : i.listingId = some l)
      (hj : j.listingId = some m) (hu : u ≠ []) (hl : l.bytes = m.bytes ++ u)
      (ha : afterListing strkey j = u ++ afterListing strkey i)

/-- The payload and the hash of two inputs tell them apart. -/
structure Distinguishes (sha256 : Bytes → BytesN 32) (i j : ReceiptInput) : Prop where
  payload : canonicalMetadataPayloadV1 strkey i = canonicalMetadataPayloadV1 strkey j → i.Same j
  verify : ∀ d, verifyMetadataHash strkey sha256 i d = .ok true →
    verifyMetadataHash strkey sha256 j d = .ok true → i.Same j

end

theorem appendI128Decimal_eq (combined : Bytes) (v : I128) :
    appendI128Decimal combined v = .ok (combined ++ signedDecimal v.1) := by
  obtain ⟨v, hl, hu⟩ := v
  have hlt : v.natAbs < 10 ^ 40 := by
    have hc : (2 : Int) ^ 127 < 10 ^ 40 := by decide
    omega
  rw [appendI128Decimal, signedDecimal]
  dsimp only
  split
  · rfl
  · simp only [fillDigits_eq hlt, ok_bind, decimal]
    split
    · rw [List.append_assoc]
      rfl
    · rfl

theorem appendString_eq (combined : Bytes) (s : HostString) :
    appendString combined s = .ok (combined ++ s.bytes) := by
  rw [appendString, stringRawBytes_eq]

theorem appendAddress_eq (strkey : Address → HostString) (combined : Bytes) (a : Address) :
    appendAddress strkey combined a = .ok (combined ++ (strkey a).bytes) :=
  appendString_eq combined (strkey a)

theorem appendSegment_eq {append : Bytes → α → Result Bytes} {render : α → Bytes}
    (h : ∀ combined v, append combined v = .ok (combined ++ render v)) (key : Bytes)
    (value : Option α) (combined : Bytes) :
    appendSegment key append value combined =
      .ok (combined ++ fieldText key (value.map render)) := by
  cases value with
  | none => rw [appendSegment, Option.map_none, fieldText, List.append_nil]
  | some v => rw [appendSegment, h, Option.map_some, fieldText, List.append_assoc]

section
variable {strkey : Address → HostString} {i j : ReceiptInput}

theorem payload_eq (h : Acceptable i.externalRefSource i.externalRef) :
    canonicalMetadataPayloadV1 strkey i = .ok (text "v1" ++ (recordText (headFields strkey i) ++
      (text "|deal_id=" ++ (i.dealId.bytes ++ afterDeal strkey i)))) := by
  have hsrc : normalizeSource i.externalRefSource = .ok _ :=
    normalizeSource_ok.mpr ⟨h.allowed, rfl⟩
  have hv1 : text "v1|external_ref_source=" = text "v1" ++ text "|external_ref_source=" := by decide
  simp only [canonicalMetadataPayloadV1, hsrc, hv1, appendI128Decimal_eq, appendString_eq,
    appendAddress_eq, appendSegment_eq appendString_eq, appendSegment_eq appendI128Decimal_eq,
    appendSegment_eq (appendAddress_eq strkey), ok_bind, Except.toOption, Option.getD_some,
    trimAsciiBytes_eq, symbolAscii]
  simp only [headFields, afterDeal, afterListing, middleFields, recordText_cons, recordText_nil,
    fieldText_some, List.append_assoc, List.nil_append]
  rfl

/-! Reading the fields back. -/

theorem Symbol.clean (s : Symbol) : pipe ∉ s.bytes := by
  intro h
  exact absurd (List.all_eq_true.mp s.valid pipe h) (by decide)

theorem signedDecimal_clean (v : Int) : pipe ∉ signedDecimal v := by
  intro h
  rcases mem_signedDecimal h with h | ⟨d, hd, h⟩
  · exact absurd h (by decide)
  · have hall : ∀ d < 10, digit d ≠ pipe := by decide
    exact hall d hd h

theorem lower_clean (h : Acceptable s r) : pipe ∉ s.bytes.map toAsciiLowercase :=
  pipe_notMem_allowedSources _ h.allowed

def headKeys : List Bytes :=
  [text "|external_ref_source=", text "|external_ref=", text "|tx_type=", text "|amount_usdc=",
    text "|token="]

def middleKeys : List Bytes :=
  [text "|from=", text "|to=", text "|amount_ngn=", text "|fx_rate_ngn_per_usdc="]

/-- The addresses of an input. -/
def ReceiptInput.addresses (i : ReceiptInput) : List Address :=
  i.token :: (i.fromAddr.toList ++ i.toAddr.toList)

theorem headFields_clean (h : Acceptable i.externalRefSource i.externalRef)
    (hp : ∀ a, pipe ∉ (strkey a).bytes) : ∀ f ∈ headFields strkey i, ∀ a ∈ f.2, pipe ∉ a := by
  intro f hf
  simp only [headFields, List.mem_cons, List.not_mem_nil, or_false] at hf
  rcases hf with rfl | rfl | rfl | rfl | rfl <;> rintro _ ⟨⟩
  · exact lower_clean h
  · exact h.clean
  · exact i.txType.clean
  · exact signedDecimal_clean _
  · exact hp _

theorem middleFields_clean (hp : ∀ a, pipe ∉ (strkey a).bytes) :
    ∀ f ∈ middleFields strkey i, ∀ a ∈ f.2, pipe ∉ a := by
  have haddr (o : Option Address) : ∀ b ∈ o.map fun a => (strkey a).bytes, pipe ∉ b := by
    intro b hb
    obtain ⟨a, _, rfl⟩ := Option.map_eq_some_iff.mp hb
    exact hp a
  have hnum (o : Option I128) : ∀ b ∈ o.map fun v => signedDecimal v.1, pipe ∉ b := by
    intro b hb
    obtain ⟨v, _, rfl⟩ := Option.map_eq_some_iff.mp hb
    exact signedDecimal_clean _
  intro f hf
  simp only [middleFields, List.mem_cons, List.not_mem_nil, or_false] at hf
  rcases hf with rfl | rfl | rfl | rfl
  · exact haddr _
  · exact haddr _
  · exact hnum _
  · exact hnum _

theorem starts_provider (v : Option Bytes) : Starts pipe (fieldText (text "|fx_provider=") v) := by
  rw [← List.append_nil (fieldText _ v)]
  exact starts_fieldText (by decide) v (starts_nil _)

theorem not_prefix_provider (hk : k ≠ []) (ha : Apart k (text "|fx_provider="))
    (v : Option Bytes) : ¬ k <+: fieldText (text "|fx_provider=") v := by
  rw [← List.append_nil (fieldText _ v)]
  exact not_prefix_fieldText ha (fun h => hk (List.prefix_nil.mp h)) v

theorem mem_middleKeys (h : f ∈ middleFields strkey i) : f.1 ∈ middleKeys :=
  List.mem_map_of_mem h

theorem middleKeys_head : ∀ k ∈ middleKeys, k.head? = some pipe := by decide

theorem starts_afterListing : Starts pipe (afterListing strkey i) := by
  apply starts_recordText _ (starts_provider _)
  intro f hf
  exact middleKeys_head _ (mem_middleKeys hf)

theorem not_prefix_afterListing : ¬ text "|listing_id=" <+: afterListing strkey i := by
  have hall : ∀ k ∈ middleKeys, Apart (text "|listing_id=") k := by decide
  apply not_prefix_recordText
  · intro f hf
    exact hall _ (mem_middleKeys hf)
  · exact not_prefix_provider (by decide) (by decide) _

theorem I128.eq_of_text {v w : I128} (h : signedDecimal v.1 = signedDecimal w.1) : v = w :=
  Subtype.ext (signedDecimal_inj h)

theorem head_inj (hi : Acceptable i.externalRefSource i.externalRef)
    (hj : Acceptable j.externalRefSource j.externalRef) (hp : ∀ a, pipe ∉ (strkey a).bytes)
    (hk : ∀ a ∈ i.addresses, ∀ b ∈ j.addresses, strkey a = strkey b → a = b)
    (h : recordText (headFields strkey i) ++ (text "|deal_id=" ++ r) =
      recordText (headFields strkey j) ++ (text "|deal_id=" ++ r')) :
    i.SameHead j ∧ r = r' := by
  have hapart : ∀ k ∈ headKeys, Apart k (text "|deal_id=") := by decide
  have hdeal (r : Bytes) : Starts pipe (text "|deal_id=" ++ r) := by
    have hkey : text "|deal_id=" = pipe :: text "deal_id=" := by decide
    rw [hkey]
    exact fun y hy => (Option.some.inj hy).symm
  have hx : ∀ k ∈ headKeys, k.head? = some pipe := by decide
  obtain ⟨hf, hr⟩ := recordText_inj hx (by decide) rfl rfl
    (headFields_clean hi hp) (headFields_clean hj hp) (hdeal r) (hdeal r')
    (fun k hm => (hapart k hm).not_read r) (fun k hm => (hapart k hm).not_read r') h
  simp only [headFields, List.cons.injEq, Prod.mk.injEq, Option.some.injEq, true_and,
    and_true] at hf
  obtain ⟨hs, href, ht, ha, hkey⟩ := hf
  exact ⟨⟨hs, href, Symbol.ext ht, I128.eq_of_text ha,
    hk _ List.mem_cons_self _ List.mem_cons_self (HostString.ext hkey)⟩,
    List.append_cancel_left hr⟩

theorem afterListing_inj (hp : ∀ a, pipe ∉ (strkey a).bytes)
    (hk : ∀ a ∈ i.addresses, ∀ b ∈ j.addresses, strkey a = strkey b → a = b)
    (h : afterListing strkey i = afterListing strkey j) :
    i.fromAddr = j.fromAddr ∧ i.toAddr = j.toAddr ∧ i.amountNgn = j.amountNgn ∧
      i.fxRateNgnPerUsdc = j.fxRateNgnPerUsdc ∧ i.fxProvider = j.fxProvider := by
  have hall : ∀ k ∈ middleKeys, k ≠ [] ∧ Apart k (text "|fx_provider=") := by decide
  have hno (v : Option Bytes) : ∀ k ∈ middleKeys, ¬ k <+: fieldText (text "|fx_provider=") v :=
    fun k hm => not_prefix_provider (hall k hm).1 (hall k hm).2 v
  obtain ⟨hf, hr⟩ := recordText_inj middleKeys_head (by decide) rfl rfl (middleFields_clean hp)
    (middleFields_clean hp) (starts_provider _) (starts_provider _) (hno _) (hno _) h
  have hprov := fieldText_inj (by decide) hr
  simp only [middleFields, List.cons.injEq, Prod.mk.injEq, true_and, and_true] at hf
  obtain ⟨hfrom, hto, hngn, hrate⟩ := hf
  have hmem {i : ReceiptInput} {a : Address} (h : a ∈ i.fromAddr ∨ a ∈ i.toAddr) :
      a ∈ i.addresses := by
    apply List.mem_cons_of_mem
    rw [List.mem_append, Option.mem_toList, Option.mem_toList]
    exact h
  refine ⟨optionMap_inj ?_ hfrom, optionMap_inj ?_ hto, optionMap_inj ?_ hngn,
    optionMap_inj ?_ hrate, optionMap_inj ?_ hprov⟩
  · exact fun a ha b hb he => hk a (hmem (.inl ha)) b (hmem (.inl hb)) (HostString.ext he)
  · exact fun a ha b hb he => hk a (hmem (.inr ha)) b (hmem (.inr hb)) (HostString.ext he)
  · exact fun _ _ _ _ he => I128.eq_of_text he
  · exact fun _ _ _ _ he => I128.eq_of_text he
  · exact fun _ _ _ _ he => HostString.ext he

/-- Equal payloads come from the same content, or one input swallows fields of the other. -/
theorem payload_same (hi : Acceptable i.externalRefSource i.externalRef)
    (hj : Acceptable j.externalRefSource j.externalRef) (hp : ∀ a, pipe ∉ (strkey a).bytes)
    (hk : ∀ a ∈ i.addresses, ∀ b ∈ j.addresses, strkey a = strkey b → a = b)
    (h : canonicalMetadataPayloadV1 strkey i = canonicalMetadataPayloadV1 strkey j) :
    i.Same j ∨ Swallows strkey i j ∨ Swallows strkey j i := by
  rw [payload_eq hi, payload_eq hj] at h
  obtain ⟨hh, h⟩ := head_inj hi hj hp hk (List.append_cancel_left (Except.ok.inj h))
  have hh' : j.SameHead i :=
    ⟨hh.source.symm, hh.reference.symm, hh.txType.symm, hh.amountUsdc.symm, hh.token.symm⟩
  rcases append_cut h with ⟨hd, ha⟩ | ⟨u, hu, hd, ha⟩ | ⟨u, hu, hd, ha⟩
  · have hd := HostString.ext hd
    have hsame (hl : i.listingId = j.listingId)
        (ha : afterListing strkey i = afterListing strkey j) : i.Same j := by
      obtain ⟨hfrom, hto, hngn, hrate, hprov⟩ := afterListing_inj hp hk ha
      exact ⟨hh.source, hh.reference, hh.txType, hh.amountUsdc, hh.token, hd, hl, hfrom, hto, hngn,
        hrate, hprov⟩
    rcases fieldText_append not_prefix_afterListing not_prefix_afterListing ha with
      ⟨hv, hw, ha⟩ | ⟨_, _, hv, hw, ha⟩
    · refine .inl (hsame ?_ ha)
      rw [Option.map_eq_none_iff.mp hv, Option.map_eq_none_iff.mp hw]
    · obtain ⟨l, hl, rfl⟩ := Option.map_eq_some_iff.mp hv
      obtain ⟨m, hm, rfl⟩ := Option.map_eq_some_iff.mp hw
      rcases append_cut ha with ⟨he, ha⟩ | ⟨u, hu, he, ha⟩ | ⟨u, hu, he, ha⟩
      · exact .inl (hsame (by rw [hl, hm, HostString.ext he]) ha)
      · exact .inr (.inl (.listing hh hd hl hm hu he ha))
      · exact .inr (.inr (.listing hh' hd.symm hm hl hu he ha))
  · exact .inr (.inl (.deal hh hu hd ha))
  · exact .inr (.inr (.deal hh' hu hd ha))

theorem ReceiptInput.SameHead.headFields_eq (h : i.SameHead j) :
    headFields strkey i = headFields strkey j := by
  rw [headFields, headFields, h.source, h.reference, h.txType, h.amountUsdc, h.token]

theorem payload_swallows (hi : Acceptable i.externalRefSource i.externalRef)
    (hj : Acceptable j.externalRefSource j.externalRef) (h : Swallows strkey i j) :
    canonicalMetadataPayloadV1 strkey i = canonicalMetadataPayloadV1 strkey j := by
  rw [payload_eq hi, payload_eq hj]
  cases h with
  | deal h _ hd ha => rw [h.headFields_eq, hd, ha, List.append_assoc]
  | listing h hd hl hm _ he ha =>
    rw [h.headFields_eq, hd, afterDeal, afterDeal, hl, hm, Option.map_some, Option.map_some, he, ha,
      fieldText_some, fieldText_some]
    simp only [List.append_assoc]

theorem Swallows.not_same (h : Swallows strkey i j) : ¬ i.Same j ∧ ¬ j.Same i := by
  have hne {b u : Bytes} (hu : u ≠ []) : b ≠ b ++ u := fun he =>
    hu (List.self_eq_append_right.mp he)
  cases h with
  | deal _ hu hd _ =>
    exact ⟨fun hs => hne hu (by rw [← hs.dealId] at hd; exact hd),
      fun hs => hne hu (by rw [hs.dealId] at hd; exact hd)⟩
  | listing _ _ hl hm hu he _ =>
    have hlm (hs : i.listingId = j.listingId) : False := by
      rw [hl, hm] at hs
      rw [Option.some.inj hs] at he
      exact hne hu he
    exact ⟨fun hs => hlm hs.listingId, fun hs => hlm hs.listingId.symm⟩

theorem Swallows.pipe_mem (h : Swallows strkey i j) :
    pipe ∈ i.dealId.bytes ∨ ∃ l ∈ i.listingId, pipe ∈ l.bytes := by
  have hstart (u r t : Bytes) (hu : u ≠ []) (hs : Starts pipe t) (ht : t = u ++ r) : pipe ∈ u := by
    obtain ⟨b, u, rfl⟩ := List.exists_cons_of_ne_nil hu
    rw [← hs b (by rw [ht]; rfl)]
    exact List.mem_cons_self
  cases h with
  | deal _ hu hd ha =>
    left
    rw [hd]
    have hkey : (text "|listing_id=").head? = some pipe := by decide
    have hs : Starts pipe (afterDeal strkey j) := starts_fieldText hkey _ starts_afterListing
    exact List.mem_append_right _ (hstart _ _ _ hu hs ha)
  | listing _ _ hl _ hu he ha =>
    right
    refine ⟨_, hl, ?_⟩
    rw [he]
    exact List.mem_append_right _ (hstart _ _ _ hu starts_afterListing ha)

theorem indexUser_succeeds (user : Option Address) (txId : BytesN 32)
    (h : ∀ a, s.userCount.getD a 0 ≤ n) (hn : n + 1 < 2 ^ 32) :
    ∃ s', indexUser user txId s = .ok s' ∧ ∀ a, s'.userCount.getD a 0 ≤ n + 1 := by
  cases user with
  | none => exact ⟨s, rfl, fun a => Nat.le_succ_of_le (h a)⟩
  | some addr =>
    have hle := h addr
    refine ⟨_, bind_ok.mpr ⟨_, u32Add_ok.mpr ⟨by omega, rfl⟩, rfl⟩, fun a => ?_⟩
    have ha := h a
    rw [Store.getD_set]
    split <;> omega

/-- The checks on an input are all that a new contract asks of it. -/
theorem accepted_iff : Accepted sha256 strkey i ↔ Checked sha256 strkey i := by
  constructor
  · rintro ⟨_, _, _, _, _, _, h⟩
    exact (checkInput_ok.mp (recordReceipt_ok.mp h).checked).1
  · intro h
    let s : State := { State.fresh with operator := some ⟨1⟩ }
    let txId := sha256 i.payment.canonical
    have hd : ∃ s₁, indexDeal i.dealId txId
        { s with receipts := s.receipts.set txId (makeReceipt txId i 0) } = .ok s₁ :=
      ⟨_, bind_ok.mpr ⟨_, u32Add_ok.mpr ⟨show 0 + 1 < 2 ^ 32 by decide, rfl⟩, rfl⟩⟩
    obtain ⟨s₁, h₁⟩ := hd
    have hzero : ∀ a, s₁.userCount.getD a 0 ≤ 0 := by
      rw [(indexDeal_ok h₁).2.2.1]
      exact fun a => Nat.le_refl 0
    obtain ⟨s₂, h₂, hone⟩ := indexUser_succeeds i.fromAddr txId hzero (by decide)
    obtain ⟨s₃, h₃, _⟩ := indexUser_succeeds i.toAddr txId hone (by decide)
    exact ⟨⟨0⟩, .signed ⟨0⟩ 0, ⟨1⟩, s, s₃, txId, recordReceipt_ok.mpr
      ⟨rfl, rfl, rfl, checkInput_ok.mpr ⟨h, rfl⟩, rfl, s₁, s₂, h₁, h₂, h₃⟩⟩

theorem verifyMetadataHash_ok {sha256 : Bytes → BytesN 32} :
    verifyMetadataHash strkey sha256 i d = .ok true ↔
      ∃ p, canonicalMetadataPayloadV1 strkey i = .ok p ∧ sha256 p = d := by
  simp only [verifyMetadataHash, deriveMetadataHash, bind_ok, pure_ok, decide_eq_true_eq]
  constructor
  · rintro ⟨_, ⟨p, hp, rfl⟩, rfl⟩
    exact ⟨p, hp, rfl⟩
  · rintro ⟨p, hp, rfl⟩
    exact ⟨_, ⟨p, hp, rfl⟩, rfl⟩

end

/-- Two accepted inputs are told apart exactly when neither swallows fields of the other, where the
texts of their addresses and SHA-256 tell the addresses and the payloads apart. -/
theorem payloads_distinguish_iff {sha256 : Bytes → BytesN 32} {strkey : Address → HostString}
    {i j : ReceiptInput} (hi : Accepted sha256 strkey i) (hj : Accepted sha256 strkey j)
    (hp : ∀ a, pipe ∉ (strkey a).bytes)
    (hk : ∀ a ∈ i.addresses, ∀ b ∈ j.addresses, strkey a = strkey b → a = b)
    (hs : ∀ p q, canonicalMetadataPayloadV1 strkey i = .ok p →
      canonicalMetadataPayloadV1 strkey j = .ok q → sha256 p = sha256 q → p = q) :
    Distinguishes strkey sha256 i j ↔ ¬ (Swallows strkey i j ∨ Swallows strkey j i) := by
  have hi := (accepted_iff.mp hi).reference
  have hj := (accepted_iff.mp hj).reference
  constructor
  · rintro hd (h | h)
    · exact h.not_same.1 (hd.payload (payload_swallows hi hj h))
    · exact h.not_same.2 (hd.payload (payload_swallows hj hi h).symm)
  · intro hn
    have hsame (h : canonicalMetadataPayloadV1 strkey i = canonicalMetadataPayloadV1 strkey j) :
        i.Same j := (payload_same hi hj hp hk h).resolve_right hn
    refine ⟨hsame, fun d hi' hj' => ?_⟩
    obtain ⟨p, hp', hh⟩ := verifyMetadataHash_ok.mp hi'
    obtain ⟨q, hq', hh'⟩ := verifyMetadataHash_ok.mp hj'
    exact hsame (by rw [hp', hq', hs p q hp' hq' (hh.trans hh'.symm)])

/-- A stake of `5` for a deal, from the first payment. -/
def stakeInput (dealId : HostString) (listingId : Option HostString) : ReceiptInput :=
  ⟨stellar, firstRef, stake, five, ⟨9⟩, dealId, listingId, none, none, none, none, none, none⟩

def listing : HostString := ⟨text "x", by decide⟩

/-- An id that reads as the deal with the listing. -/
def forgedDeal : HostString := ⟨text "d|listing_id=x", by decide⟩

theorem stakeInput_accepted (sha256 : Bytes → BytesN 32) (strkey : Address → HostString)
    (dealId : HostString) (listingId : Option HostString) :
    Accepted sha256 strkey (stakeInput dealId listingId) := by
  have ht : validateTxType stake = .ok () := require_ok.mpr (by decide)
  exact accepted_iff.mpr ⟨show (0 : Int) < 5 by decide, ht, firstRef_acceptable, rfl⟩

/-- SHA-256 on the texts of the two payments and on the payloads of two stakes for the deal `d`,
without and with the listing `x`. -/
def payloadDigest (b : Bytes) : BytesN 32 :=
  if b.length = 147 then
    #v[175, 129, 149, 198, 253, 251, 84, 151, 152, 117, 229, 243, 195, 225, 80, 27, 248, 118,
    91, 31, 17, 95, 22, 37, 206, 9, 245, 193, 132, 21, 226, 50]
  else if b.length = 160 then
    #v[235, 205, 124, 247, 199, 91, 49, 119, 75, 41, 74, 234, 113, 219, 124, 19, 235, 167, 26,
    143, 78, 8, 79, 134, 127, 205, 110, 194, 246, 63, 16, 214]
  else refDigest b

theorem payloads_distinguish_stakes :
    Distinguishes addressText payloadDigest (stakeInput deal none)
      (stakeInput deal (some listing)) := by
  refine (payloads_distinguish_iff (stakeInput_accepted _ _ _ _) (stakeInput_accepted _ _ _ _)
    pipe_notMem_strkeyText ?_ ?_).mpr ?_
  · intro a ha b hb _
    exact (List.mem_singleton.mp ha).trans (List.mem_singleton.mp hb).symm
  · intro p q hp hq h
    rw [payload_eq firstRef_acceptable] at hp hq
    have hp : p.length = 147 := by
      rw [← Except.ok.inj hp]
      decide +kernel
    have hq : q.length = 160 := by
      rw [← Except.ok.inj hq]
      decide +kernel
    rw [payloadDigest, payloadDigest, if_pos hp, if_neg (by omega), if_pos hq] at h
    exact absurd h (by decide)
  · rintro (h | h)
    · exact absurd h.pipe_mem (by decide)
    · exact absurd h.pipe_mem (by decide)

/-- A deal id that contains `|listing_id=` reads as a deal id with a listing. -/
theorem canonical_payload_ambiguous :
    ¬ ∀ i j, Accepted refDigest addressText i → Accepted refDigest addressText j →
      canonicalMetadataPayloadV1 addressText i = canonicalMetadataPayloadV1 addressText j →
      i.Same j := by
  intro hall
  let i := stakeInput forgedDeal none
  let j := stakeInput deal (some listing)
  have hu : text "|listing_id=x" ≠ [] := by decide
  have hsw : Swallows addressText i j :=
    .deal ⟨rfl, rfl, rfl, rfl, rfl⟩ hu (by decide) (by decide)
  have hs := hall i j (stakeInput_accepted _ _ _ _) (stakeInput_accepted _ _ _ _)
    (payload_swallows firstRef_acceptable firstRef_acceptable hsw)
  exact absurd hs.listingId nofun

end Shelterflex.TransactionReceipt
