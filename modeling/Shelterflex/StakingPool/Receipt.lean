import Shelterflex.Host.Text
import Shelterflex.Lib.Code
import Shelterflex.StakingPool.Model

namespace Shelterflex.StakingPool
open Lib
set_option autoImplicit true

abbrev Symbol := Bytes

/-- A host map holds its entries in the order of their keys. -/
abbrev Metadata := { m : List (Symbol × Bytes) // (m.map Prod.fst).Pairwise (· < ·) }

structure ReceiptInput where
  txType : Symbol
  amountUsdc : Int
  token : Address
  user : Address
  timestamp : Option Nat
  dealId : Option Bytes
  listingId : Option Bytes
  metadata : Option Metadata

/-- The XDR serialization of the host's values. -/
structure Xdr where
  symbol : Symbol → Bytes
  address : Address → Bytes
  string : Bytes → Bytes
  map : Metadata → Bytes

/-- Every serialized value marks its own end, and starts with the four bytes of its type, of which
the first is zero. -/
structure Xdr.Standard (x : Xdr) : Prop where
  symbol : Delimited x.symbol
  address : Delimited x.address
  string : Delimited x.string
  map : Delimited x.map
  tag : ∀ m, (x.map m).head? = some 0

def timestampDigits (timestamp : Nat) : Outcome ContractError Bytes := do
  let digits ← fillDigits 20 timestamp
  return if digits.length = 0 then [48] else digits

def amountDigits (amount : Int) : Outcome ContractError Bytes :=
  if amount = 0 then
    return [48]
  else do
    let magnitude ← if amount < 0 then i128Sub 0 amount else pure amount
    let digits ← fillDigits 40 magnitude.toNat
    return (if amount < 0 then [45] else []) ++ digits.reverse

section
variable (x : Xdr) (env : Env own)

def createCanonicalPayloadV1 (input : ReceiptInput) : Outcome ContractError Bytes := do
  let timestamp := input.timestamp.getD env.timestamp
  let dealId := input.dealId.getD []
  let listingId := input.listingId.getD []
  let tsDigits ← timestampDigits timestamp
  let combined := x.symbol input.txType ++ x.address input.token ++ x.address input.user ++
    x.string dealId ++ x.string listingId ++ tsDigits.reverse
  let combined := match input.metadata with
    | some metadata => combined ++ x.map metadata
    | none => combined
  let amount ← amountDigits input.amountUsdc
  return combined ++ amount

def computeMetadataHash (sha256 : Bytes → BytesN 32) (input : ReceiptInput) :
    Outcome ContractError (BytesN 32) := do
  requireValidAmount input.amountUsdc
  let payload ← createCanonicalPayloadV1 x env input
  return sha256 payload

def verifyMetadataHash (sha256 : Bytes → BytesN 32) (input : ReceiptInput)
    (expectedHash : BytesN 32) : Outcome ContractError Bool := do
  let computedHash ← computeMetadataHash x env sha256 input
  return computedHash = expectedHash

end

/-- The inputs agree in every field, where an absent identifier is an empty one. -/
structure ReceiptInput.Same (i j : ReceiptInput) : Prop where
  txType : i.txType = j.txType
  token : i.token = j.token
  user : i.user = j.user
  timestamp : i.timestamp = j.timestamp
  dealId : i.dealId.getD [] = j.dealId.getD []
  listingId : i.listingId.getD [] = j.listingId.getD []
  metadata : i.metadata = j.metadata
  amountUsdc : i.amountUsdc = j.amountUsdc

/-- An input with an explicit timestamp and a positive amount. -/
structure ReceiptInput.Explicit (i : ReceiptInput) : Prop where
  timestamp : ∃ n, i.timestamp = some n ∧ n < 2 ^ 64
  positive : 0 < i.amountUsdc
  bounded : InI128 i.amountUsdc

/-- The number of decimal digits of the amount. -/
def ReceiptInput.width (i : ReceiptInput) : Nat := (Nat.digits 10 i.amountUsdc.toNat).length

/-- Inputs without metadata that differ only in where the digits of the timestamp end and those of
the amount begin. -/
structure ReceiptInput.Collides (i j : ReceiptInput) : Prop where
  txType : i.txType = j.txType
  token : i.token = j.token
  user : i.user = j.user
  dealId : i.dealId.getD [] = j.dealId.getD []
  listingId : i.listingId.getD [] = j.listingId.getD []
  metadata : i.metadata = none ∧ j.metadata = none
  width : i.width ≠ j.width
  digits : ∃ n m, i.timestamp = some n ∧ j.timestamp = some m ∧ 0 < n ∧ 0 < m ∧
    i.amountUsdc + 10 ^ i.width * n = j.amountUsdc + 10 ^ j.width * m

def timestampText (n : Nat) : Bytes := if n = 0 then [48] else decimal n

theorem timestampDigits_eq (h : n < 2 ^ 64) :
    ∃ digits, timestampDigits n = .ok digits ∧ digits.reverse = timestampText n := by
  have hn : n < 10 ^ 20 := h.trans (by decide)
  rw [timestampDigits, fillDigits_eq hn]
  by_cases hz : n = 0
  · subst hz
    exact ⟨_, rfl, rfl⟩
  · have hd : ((Nat.digits 10 n).map digit).length ≠ 0 := by
      rw [List.length_map]
      exact fun h => Nat.digits_ne_nil_iff_ne_zero.mpr hz (List.length_eq_zero_iff.mp h)
    refine ⟨_, congrArg Except.ok (if_neg hd), ?_⟩
    rw [timestampText, if_neg hz]
    rfl

theorem amountDigits_eq (hp : 0 < amount) (hb : InI128 amount) :
    amountDigits amount = .ok (decimal amount.toNat) := by
  have hlt : amount.toNat < 10 ^ 40 := by
    have hb := hb.2
    have hc : (2 : Int) ^ 127 < 10 ^ 40 := by decide
    omega
  have hn : ¬ amount < 0 := hp.not_gt
  rw [amountDigits, if_neg hp.ne', if_neg hn, if_neg hn]
  simp only [pure_bind, fillDigits_eq hlt]
  rfl

def metadataText (x : Xdr) : Option Metadata → Bytes
  | some m => x.map m
  | none => []

theorem createCanonicalPayloadV1_eq {i : ReceiptInput} (hi : i.Explicit)
    (ht : i.timestamp = some n) (x : Xdr) (env : Env own) :
    createCanonicalPayloadV1 x env i = .ok (x.symbol i.txType ++ (x.address i.token ++
      (x.address i.user ++ (x.string (i.dealId.getD []) ++ (x.string (i.listingId.getD []) ++
        (timestampText n ++ (metadataText x i.metadata ++ decimal i.amountUsdc.toNat))))))) := by
  obtain ⟨n', ht', hn⟩ := hi.timestamp
  cases ht.symm.trans ht'
  obtain ⟨digits, hd, hr⟩ := timestampDigits_eq hn
  simp only [createCanonicalPayloadV1, bind_ok, pure_ok]
  refine ⟨digits, by rw [ht]; exact hd, _, amountDigits_eq hi.positive hi.bounded, ?_⟩
  rw [hr]
  cases i.metadata with
  | none => simp only [metadataText, List.append_assoc, List.nil_append]
  | some m => simp only [metadataText, List.append_assoc]

theorem zero_notMem_timestampText (n : Nat) : 0 ∉ timestampText n := by
  rw [timestampText]
  split
  · decide
  · exact zero_notMem_decimal n

theorem timestampText_inj (h : timestampText n = timestampText m) : n = m := by
  rw [timestampText, timestampText] at h
  split at h <;> rename_i hn <;> split at h <;> rename_i hm
  · rw [hn, hm]
  · exact absurd (congrArg List.head? h).symm (by simpa using head_decimal hm [])
  · exact absurd (congrArg List.head? h) (by simpa using head_decimal hn [])
  · exact decimal_inj.mp h

/-- Without metadata, timestamp and amount can be told apart unless they have other lengths. -/
theorem timestampText_append {n m a b : Nat}
    (h : timestampText n ++ decimal a = timestampText m ++ decimal b) :
    (n = m ∧ a = b) ∨ (0 < n ∧ 0 < m ∧
      (Nat.digits 10 a).length ≠ (Nat.digits 10 b).length ∧
      a + 10 ^ (Nat.digits 10 a).length * n = b + 10 ^ (Nat.digits 10 b).length * m) := by
  rw [timestampText, timestampText] at h
  split at h <;> rename_i hn <;> split at h <;> rename_i hm
  · exact .inl ⟨hn.trans hm.symm, decimal_inj.mp (List.cons.inj h).2⟩
  · exact absurd (congrArg List.head? h).symm (head_decimal hm _)
  · exact absurd (congrArg List.head? h) (head_decimal hn _)
  · have he := decimal_append_inj.mp h
    by_cases hl : (Nat.digits 10 a).length = (Nat.digits 10 b).length
    · exact .inl (eq_of_digits_length hl he)
    · exact .inr ⟨Nat.pos_of_ne_zero hn, Nat.pos_of_ne_zero hm, hl, he⟩

theorem Xdr.Standard.map_cons {x : Xdr} (hx : x.Standard) (m : Metadata) :
    x.map m = 0 :: (x.map m).tail :=
  (List.cons_head?_tail (hx.tag m)).symm

theorem payload_tail {x : Xdr} (hx : x.Standard) {p q : Option Metadata}
    (h : timestampText n ++ (metadataText x p ++ decimal a) =
      timestampText m ++ (metadataText x q ++ decimal b)) :
    p = q ∧ (n = m ∧ a = b ∨ p = none ∧ timestampText n ++ decimal a =
      timestampText m ++ decimal b) := by
  have hno (n a) : 0 ∉ timestampText n ++ decimal a := by
    intro hz
    rcases List.mem_append.mp hz with hz | hz
    · exact zero_notMem_timestampText n hz
    · exact zero_notMem_decimal a hz
  have hyes (n a) (m : Metadata) : 0 ∈ timestampText n ++ (x.map m ++ decimal a) := by
    rw [hx.map_cons m]
    simp
  cases p with
  | none =>
    cases q with
    | none => exact ⟨rfl, .inr ⟨rfl, h⟩⟩
    | some q =>
      change timestampText n ++ decimal a = timestampText m ++ (x.map q ++ decimal b) at h
      exact absurd (hyes m b q) (h ▸ hno n a)
  | some p =>
    cases q with
    | none =>
      change timestampText n ++ (x.map p ++ decimal a) = timestampText m ++ decimal b at h
      exact absurd (hyes n a p) (h.symm ▸ hno m b)
    | some q =>
      simp only [metadataText] at h
      rw [hx.map_cons p, hx.map_cons q, List.cons_append, List.cons_append] at h
      obtain ⟨hn, ht⟩ := append_mark_inj (zero_notMem_timestampText n)
        (zero_notMem_timestampText m) h
      have hm : x.map p ++ decimal a = x.map q ++ decimal b := by
        rw [hx.map_cons p, hx.map_cons q, List.cons_append, List.cons_append, ht]
      obtain ⟨hpq, hab⟩ := hx.map.read hm
      exact ⟨congrArg some hpq, .inl ⟨timestampText_inj hn, decimal_inj.mp hab⟩⟩

section
variable {x : Xdr} {env env' : Env own} {i j : ReceiptInput}

/-- Equal payloads come from the same input, or from a collision. -/
theorem payload_same (hx : x.Standard) (hi : i.Explicit) (hj : j.Explicit)
    (h : createCanonicalPayloadV1 x env i = createCanonicalPayloadV1 x env' j) :
    i.Same j ∨ i.Collides j := by
  obtain ⟨n, hn, _⟩ := hi.timestamp
  obtain ⟨m, hm, _⟩ := hj.timestamp
  rw [createCanonicalPayloadV1_eq hi hn, createCanonicalPayloadV1_eq hj hm] at h
  obtain ⟨h₁, h⟩ := hx.symbol.read (Except.ok.inj h)
  obtain ⟨h₂, h⟩ := hx.address.read h
  obtain ⟨h₃, h⟩ := hx.address.read h
  obtain ⟨h₄, h⟩ := hx.string.read h
  obtain ⟨h₅, h⟩ := hx.string.read h
  obtain ⟨hp, h⟩ := payload_tail hx h
  have ha : (i.amountUsdc.toNat : Int) = i.amountUsdc := Int.toNat_of_nonneg hi.positive.le
  have hb : (j.amountUsdc.toNat : Int) = j.amountUsdc := Int.toNat_of_nonneg hj.positive.le
  have hsame (he : n = m ∧ i.amountUsdc.toNat = j.amountUsdc.toNat) : i.Same j :=
    ⟨h₁, h₂, h₃, by rw [hn, hm, he.1], h₄, h₅, hp, by rw [← ha, ← hb, he.2]⟩
  rcases h with he | ⟨hnone, h⟩
  · exact .inl (hsame he)
  · rcases timestampText_append h with he | ⟨hn₀, hm₀, hw, he⟩
    · exact .inl (hsame he)
    · refine .inr ⟨h₁, h₂, h₃, h₄, h₅, ⟨hnone, hp ▸ hnone⟩, hw, n, m, hn, hm, hn₀, hm₀, ?_⟩
      rw [← ha, ← hb]
      exact_mod_cast he

theorem payload_collides (hi : i.Explicit) (hj : j.Explicit) (h : i.Collides j) (x : Xdr)
    (env env' : Env own) :
    createCanonicalPayloadV1 x env i = createCanonicalPayloadV1 x env' j := by
  obtain ⟨n, m, hn, hm, hn₀, hm₀, he⟩ := h.digits
  have ha : (i.amountUsdc.toNat : Int) = i.amountUsdc := Int.toNat_of_nonneg hi.positive.le
  have hb : (j.amountUsdc.toNat : Int) = j.amountUsdc := Int.toNat_of_nonneg hj.positive.le
  have ht : decimal n ++ decimal i.amountUsdc.toNat = decimal m ++ decimal j.amountUsdc.toNat := by
    rw [decimal_append_inj]
    rw [← ha, ← hb] at he
    exact_mod_cast he
  rw [createCanonicalPayloadV1_eq hi hn, createCanonicalPayloadV1_eq hj hm, h.txType, h.token,
    h.user, h.dealId, h.listingId, h.metadata.1, h.metadata.2, timestampText, timestampText,
    if_neg hn₀.ne', if_neg hm₀.ne']
  simp only [metadataText, List.nil_append, ht]

theorem computeMetadataHash_ok {sha256 : Bytes → BytesN 32} :
    computeMetadataHash x env sha256 i = .ok d ↔ 0 < i.amountUsdc ∧
      ∃ payload, createCanonicalPayloadV1 x env i = .ok payload ∧ sha256 payload = d := by
  simp only [computeMetadataHash, bind_ok, requireValidAmount, require_ok, pure_ok, exists_const]

theorem verifyMetadataHash_ok {sha256 : Bytes → BytesN 32} :
    verifyMetadataHash x env sha256 i d = .ok true ↔
      computeMetadataHash x env sha256 i = .ok d := by
  simp only [verifyMetadataHash, bind_ok, pure_ok, decide_eq_true_eq, exists_eq_right]

end

/-- The payload and the hash of two inputs tell them apart. -/
structure Distinguishes (x : Xdr) (sha256 : Bytes → BytesN 32) (env env' : Env own)
    (i j : ReceiptInput) : Prop where
  payload : createCanonicalPayloadV1 x env i = createCanonicalPayloadV1 x env' j → i.Same j
  verify : ∀ d, computeMetadataHash x env' sha256 j = .ok d →
    verifyMetadataHash x env sha256 i d = .ok true → i.Same j

/-- Two receipts are told apart exactly when they do not collide, where SHA-256 tells their
payloads apart. -/
theorem distinguishes_iff {x : Xdr} {i j : ReceiptInput} {sha256 : Bytes → BytesN 32}
    {env env' : Env own} (hx : x.Standard) (hi : i.Explicit) (hj : j.Explicit)
    (hs : ∀ p q, createCanonicalPayloadV1 x env i = .ok p →
      createCanonicalPayloadV1 x env' j = .ok q → sha256 p = sha256 q → p = q) :
    Distinguishes x sha256 env env' i j ↔ ¬ i.Collides j := by
  constructor
  · intro hd hc
    have hsame := hd.payload (payload_collides hi hj hc x env env')
    exact hc.width (by rw [ReceiptInput.width, ReceiptInput.width, hsame.amountUsdc])
  · intro hc
    have hp (h : createCanonicalPayloadV1 x env i = createCanonicalPayloadV1 x env' j) :
        i.Same j := (payload_same hx hi hj h).resolve_right hc
    refine ⟨hp, fun d hj' hi' => ?_⟩
    obtain ⟨_, p, hp', hh⟩ := computeMetadataHash_ok.mp (verifyMetadataHash_ok.mp hi')
    obtain ⟨_, q, hq', hh'⟩ := computeMetadataHash_ok.mp hj'
    exact hp (by rw [hp', hq', hs p q hp' hq' (hh.trans hh'.symm)])

/-! The serialization of the host, with a fallback for numbers that no field of the host holds. -/

def taggedNumber (tag : Bytes) (k n : Nat) : Bytes :=
  0 :: if n < 256 ^ k then 0 :: (tag ++ bigEndian k n) else 1 :: (List.replicate n 1 ++ [0])

theorem taggedNumber_delimited (tag : Bytes) (k : Nat) : Delimited (taggedNumber tag k) := by
  constructor
  intro n m r r' h
  have h := (List.cons.inj h).2
  split at h <;> rename_i hn <;> split at h <;> rename_i hm
  · have ht : (tag ++ bigEndian k n) ++ r = (tag ++ bigEndian k m) ++ r' := (List.cons.inj h).2
    rw [List.append_assoc, List.append_assoc] at ht
    obtain ⟨he, hr⟩ := List.append_inj (List.append_cancel_left ht)
      (by rw [bigEndian_length, bigEndian_length])
    exact ⟨bigEndian_inj hn hm he, hr⟩
  · exact absurd (List.cons.inj h).1 (by decide)
  · exact absurd (List.cons.inj h).1 (by decide)
  · have ht : (List.replicate n 1 ++ [0]) ++ r = (List.replicate m 1 ++ [0]) ++ r' :=
      (List.cons.inj h).2
    rw [List.append_assoc, List.append_assoc] at ht
    have hno (n : Nat) : (0 : UInt8) ∉ List.replicate n 1 := fun h =>
      absurd (List.eq_of_mem_replicate h) (by decide)
    obtain ⟨he, hr⟩ := append_mark_inj (hno n) (hno m) ht
    have hl := congrArg List.length he
    rw [List.length_replicate, List.length_replicate] at hl
    exact ⟨hl, hr⟩

def stringXdr (tag : Bytes) (text : Bytes) : Bytes :=
  taggedNumber tag 4 text.length ++ (text ++ List.replicate ((4 - text.length % 4) % 4) 0)

theorem stringXdr_delimited (tag : Bytes) : Delimited (stringXdr tag) := by
  apply (taggedNumber_delimited tag 4).sized
  · intro a b h
    simp only [List.length_append, List.length_replicate, h]
  · intro a b h he
    exact (List.append_inj he h).1

def standardXdr : Xdr where
  symbol := stringXdr [0, 15]
  address a := taggedNumber [0, 18, 0, 0, 0, 1] 32 a.id
  string := stringXdr [0, 14]
  map m := taggedNumber [0, 17, 0, 0, 0, 1] 4 m.1.length ++
    m.1.flatMap fun e => stringXdr [0, 15] e.1 ++ stringXdr [0, 14] e.2

theorem standardXdr_standard : standardXdr.Standard where
  symbol := stringXdr_delimited _
  address := (taggedNumber_delimited _ _).comp fun ⟨_⟩ ⟨_⟩ h => congrArg Address.mk h
  string := stringXdr_delimited _
  map := ((taggedNumber_delimited _ _).list
    ((stringXdr_delimited _).append (stringXdr_delimited _))).comp Subtype.val_injective
  tag _ := rfl

/-- A receipt of a stake of user `2`, without identifiers. -/
def stakeReceipt (timestamp : Nat) (amount : Int) : ReceiptInput :=
  ⟨[115, 116, 97, 107, 101], amount, ⟨9⟩, ⟨2⟩, some timestamp, none, none, none⟩

/-- SHA-256 on the payloads of the two receipts below. -/
def stakeDigest (payload : Bytes) : BytesN 32 :=
  if payload.length = 115 then
    #v[215, 58, 11, 51, 13, 57, 152, 2, 13, 104, 36, 181, 132, 36, 153, 31, 216,
    171, 2, 45, 6, 72, 161, 190, 11, 90, 241, 235, 204, 144, 255, 208]
  else
    #v[112, 65, 114, 99, 145, 228, 55, 9, 2, 237, 133, 120, 100, 168, 209, 98, 222,
    12, 241, 21, 254, 6, 216, 40, 248, 145, 83, 213, 138, 196, 6, 245]

theorem stakeReceipt_explicit (hn : timestamp < 2 ^ 64) (hp : 0 < amount) (hb : InI128 amount) :
    (stakeReceipt timestamp amount).Explicit :=
  ⟨⟨timestamp, rfl, hn⟩, hp, hb⟩

theorem distinguishes_stakes :
    Distinguishes standardXdr stakeDigest (.signed ⟨0⟩ 5) (.signed ⟨0⟩ 6) (stakeReceipt 1 23)
      (stakeReceipt 2 3) := by
  refine (distinguishes_iff standardXdr_standard
    (stakeReceipt_explicit (by decide) (by decide) (by decide))
    (stakeReceipt_explicit (by decide) (by decide) (by decide)) ?_).mpr ?_
  · intro p q hp hq h
    have hl : (createCanonicalPayloadV1 standardXdr (.signed ⟨0⟩ 5)
        (stakeReceipt 1 23)).toOption.map List.length = some 115 := by decide
    have hl' : (createCanonicalPayloadV1 standardXdr (.signed ⟨0⟩ 6)
        (stakeReceipt 2 3)).toOption.map List.length = some 114 := by decide
    rw [hp] at hl
    rw [hq] at hl'
    have hl : p.length = 115 := Option.some.inj hl
    have hl' : q.length = 114 := Option.some.inj hl'
    rw [stakeDigest, stakeDigest, if_pos hl, if_neg (by omega)] at h
    exact absurd h (by decide)
  · intro h
    obtain ⟨n, m, hn, hm, _, _, he⟩ := h.digits
    cases hn
    cases hm
    exact absurd he (by decide)

/-- A stake of `23` at time `1` and one of `3` at time `12` have the same payload. -/
theorem payloads_not_injective :
    ¬ ∀ x : Xdr, x.Standard → ∀ i j : ReceiptInput, i.Explicit → j.Explicit →
      ∀ env env' : Env ⟨0⟩,
        createCanonicalPayloadV1 x env i = createCanonicalPayloadV1 x env' j → i.Same j := by
  intro hall
  have hs := hall standardXdr standardXdr_standard (stakeReceipt 1 23) (stakeReceipt 12 3)
    (stakeReceipt_explicit (by decide) (by decide) (by decide))
    (stakeReceipt_explicit (by decide) (by decide) (by decide)) (.signed ⟨0⟩ 5) (.signed ⟨0⟩ 5) rfl
  exact absurd hs.amountUsdc (by decide)

end Shelterflex.StakingPool
