import Shelterflex.Host.Text
import Shelterflex.Lib.Code

/-! The texts a receipt is identified by, and the checks on them. -/

namespace Shelterflex.TransactionReceipt
open Lib
set_option autoImplicit true

/-- The bytes of an ASCII literal. -/
def text (s : String) : Bytes := s.toList.map fun c => UInt8.ofNat c.toNat

def allowedSources : List Bytes :=
  [text "paystack", text "flutterwave", text "bank_transfer", text "stellar", text "onramp",
    text "offramp", text "manual", text "manual_admin"]

def allowedTxTypes : List Bytes :=
  [text "TENANT_REPAYMENT", text "LANDLORD_PAYOUT", text "WHISTLEBLOWER_REWARD", text "STAKE",
    text "UNSTAKE", text "STAKE_REWARD_CLAIM", text "CONVERSION"]

inductive ContractError where
  | alreadyInitialized
  | notAuthorized
  | paused
  | invalidAmount
  | duplicateTransaction
  | invalidExternalRefSource
  | invalidExternalRef
  | invalidTimestamp
  | invalidTxType
  | invalidMetadataHash
deriving DecidableEq, Repr

abbrev Result (α : Type) := Outcome ContractError α

/-- A letter, a digit or an underscore. -/
def isSymbolChar (b : UInt8) : Bool :=
  (97 ≤ b ∧ b ≤ 122) ∨ (65 ≤ b ∧ b ≤ 90) ∨ (48 ≤ b ∧ b ≤ 57) ∨ b = 95

/-- A `Symbol` of the host. -/
@[ext] structure Symbol where
  bytes : Bytes
  short : bytes.length ≤ 32
  valid : bytes.all isSymbolChar
deriving DecidableEq

/-- A `String` of the host, short enough to be serialized. -/
@[ext] structure HostString where
  bytes : Bytes
  short : 8 + bytes.length < 2 ^ 32
deriving DecidableEq

/-- The XDR of a text: its type, its length, its bytes, and zeros up to a multiple of four. -/
def xdrText (tag : UInt8) (content : Bytes) : Bytes :=
  [0, 0, 0, tag] ++ (bigEndian 4 content.length ++
    (content ++ List.replicate ((4 - content.length % 4) % 4) 0))

def HostString.toXdr (s : HostString) : Bytes := xdrText 14 s.bytes

def slice (b : Bytes) (start stop : Nat) : Bytes := (b.take stop).drop start

structure ReceiptInput where
  externalRefSource : Symbol
  externalRef : HostString
  txType : Symbol
  amountUsdc : I128
  token : Address
  dealId : HostString
  listingId : Option HostString
  fromAddr : Option Address
  toAddr : Option Address
  amountNgn : Option I128
  fxRateNgnPerUsdc : Option I128
  fxProvider : Option HostString
  metadataHash : Option (BytesN 32)
deriving DecidableEq

/-- The addition does not overflow on a string of the host. -/
def stringRawBytes (s : HostString) : Bytes := slice s.toXdr 8 (8 + s.bytes.length)

def isAsciiWs (b : UInt8) : Bool := b ∈ [32, 9, 10, 13, 11, 12]

/-- The first loop of the trimming, with a bound on its turns. -/
def skipStart (content : Bytes) : Nat → Nat → Nat
  | 0, start => start
  | turns + 1, start =>
    if start < content.length ∧ content[start]?.any isAsciiWs then
      skipStart content turns (start + 1)
    else start

/-- The second loop of the trimming. -/
def skipEnd (content : Bytes) (start : Nat) : Nat → Nat
  | 0 => 0
  | last + 1 =>
    if start < last + 1 ∧ content[last]?.any isAsciiWs then skipEnd content start last
    else last + 1

def trimAsciiBytes (s : HostString) : Bytes :=
  let content := stringRawBytes s
  let start := skipStart content content.length 0
  slice content start (skipEnd content start content.length)

/-- A symbol fits the buffer. -/
def symbolAscii (s : Symbol) : Bytes := s.bytes

def toAsciiLowercase (b : UInt8) : UInt8 := if 65 ≤ b ∧ b ≤ 90 then b + 32 else b

def normalizeSource (externalRefSource : Symbol) : Result Bytes :=
  okOr (allowedSources.find?
    fun allowed => (symbolAscii externalRefSource).map toAsciiLowercase = allowed)
    .invalidExternalRefSource

/-- The code of `|`. -/
def pipe : UInt8 := 124

def validateAndNormalizeRef (externalRefSource : Symbol) (externalRef : HostString) :
    Result (Bytes × Bytes) := do
  let sourceLower ← normalizeSource externalRefSource
  let refTrimmed := trimAsciiBytes externalRef
  require (refTrimmed ≠ []) .invalidExternalRef
  require (¬ 256 < refTrimmed.length) .invalidExternalRef
  require (refTrimmed.all (· ≠ pipe)) .invalidExternalRef
  return (sourceLower, refTrimmed)

def validateExternalRef (externalRefSource : Symbol) (externalRef : HostString) : Result Unit := do
  let _ ← validateAndNormalizeRef externalRefSource externalRef
  return ()

def validateTxType (txType : Symbol) : Result Unit :=
  require (allowedTxTypes.any fun allowed => xdrText 15 txType.bytes = xdrText 15 allowed)
    .invalidTxType

/-- The text whose hash is a transaction id. -/
def canonicalRef (sourceLower refTrimmed : Bytes) : Bytes :=
  text "v1|source=" ++ sourceLower ++ text "|ref=" ++ refTrimmed

def generateTxId (sha256 : Bytes → BytesN 32) (externalRefSource : Symbol)
    (externalRef : HostString) : Result (BytesN 32) := do
  let normalized ← validateAndNormalizeRef externalRefSource externalRef
  return sha256 (canonicalRef normalized.1 normalized.2)

def appendI128Decimal (combined : Bytes) (value : I128) : Result Bytes :=
  if value.1 = 0 then return combined ++ [48]
  else do
    let combined := if value.1 < 0 then combined ++ [45] else combined
    let digits ← fillDigits 40 value.1.natAbs
    return combined ++ digits.reverse

/-- The segment of an optional field, omitted when there is no value. -/
def appendSegment (key : Bytes) (append : Bytes → α → Result Bytes) (value : Option α)
    (combined : Bytes) : Result Bytes :=
  match value with
  | some v => append (combined ++ key) v
  | none => .ok combined

def appendString (combined : Bytes) (s : HostString) : Result Bytes :=
  .ok (combined ++ stringRawBytes s)

section
variable (strkey : Address → HostString)

def appendAddress (combined : Bytes) (a : Address) : Result Bytes :=
  appendString combined (strkey a)

/-- The host writes an address as its `strkey`. -/
def canonicalMetadataPayloadV1 (input : ReceiptInput) : Result Bytes := do
  let combined := text "v1|external_ref_source="
  let combined := combined ++ (normalizeSource input.externalRefSource).toOption.getD []
  let combined := combined ++ text "|external_ref="
  let combined := combined ++ trimAsciiBytes input.externalRef
  let combined := combined ++ text "|tx_type="
  let combined := combined ++ symbolAscii input.txType
  let combined ← appendI128Decimal (combined ++ text "|amount_usdc=") input.amountUsdc
  let combined ← appendAddress strkey (combined ++ text "|token=") input.token
  let combined ← appendString (combined ++ text "|deal_id=") input.dealId
  let combined ← appendSegment (text "|listing_id=") appendString input.listingId combined
  let combined ← appendSegment (text "|from=") (appendAddress strkey) input.fromAddr combined
  let combined ← appendSegment (text "|to=") (appendAddress strkey) input.toAddr combined
  let combined ← appendSegment (text "|amount_ngn=") appendI128Decimal input.amountNgn combined
  let combined ← appendSegment (text "|fx_rate_ngn_per_usdc=") appendI128Decimal
    input.fxRateNgnPerUsdc combined
  appendSegment (text "|fx_provider=") appendString input.fxProvider combined

def deriveMetadataHash (sha256 : Bytes → BytesN 32) (input : ReceiptInput) :
    Result (BytesN 32) := do
  let payload ← canonicalMetadataPayloadV1 strkey input
  return sha256 payload

def verifyMetadataHash (sha256 : Bytes → BytesN 32) (input : ReceiptInput) (hash : BytesN 32) :
    Result Bool := do
  let derived ← deriveMetadataHash strkey sha256 input
  return derived = hash

end

end Shelterflex.TransactionReceipt
