import Shelterflex.Host.Guards
import Shelterflex.Lib.Machine
import Shelterflex.Lib.Store

namespace Shelterflex.OraclePriceFeeds
open Lib
set_option autoImplicit true

abbrev Symbol := Bytes

def defaultStalenessSeconds : Nat := 600

def defaultMaxDeviationBps : Nat := 500

def priceDecimals : Nat := 7

def defaultQuorum : Nat := 1

structure PriceFeed where
  pair : Symbol
  price : Int
  decimals : Nat
  updatedAt : Nat
  sequence : Nat
deriving DecidableEq

structure PriceObservation where
  price : Int
  timestamp : Nat
deriving DecidableEq

structure SourceData where
  price : Int
  timestamp : Nat
  sequence : Nat
deriving DecidableEq

inductive ContractError where
  | alreadyInitialized
  | notAuthorized
  | invalidSequence
  | priceTooStale
  | unknownPair
  | priceDeviationTooLarge
  | noQuorum
  | unknownSource
deriving DecidableEq, Repr

structure State where
  admin : Option Address
  operator : Option Address
  stalenessThreshold : Option Nat
  maxDeviationBps : Option Nat
  feed : Store Symbol PriceFeed
  sequence : Store Symbol Nat
  sources : Store Symbol (List Address)
  sourceData : Store (Symbol × Address) SourceData
  quorum : Store Symbol Nat
  twapObservations : Store Symbol (List PriceObservation)

def State.fresh : State :=
  ⟨none, none, none, none, .empty, .empty, .empty, .empty, .empty, .empty⟩

abbrev Result (α : Type) := Outcome ContractError α

def getAdmin (s : State) : Result Address := expect s.admin

def getOperator (s : State) : Result Address := expect s.operator

def getStalenessThreshold (s : State) : Nat := s.stalenessThreshold.getD defaultStalenessSeconds

def getMaxDeviationBps (s : State) : Nat := s.maxDeviationBps.getD defaultMaxDeviationBps

def getSources (s : State) (pair : Symbol) : List Address := s.sources.getD pair []

/-! `median`, by a selection sort that marks the positions it has used -/

/-- `i128::MAX` -/
def i128Max : Int := 2 ^ 127 - 1

/-- One turn of the scan for the least unused value. -/
def scanStep (values : List Int) (used : List Bool) (acc : Int × Nat) (j : Nat) :
    Result (Int × Nat) := do
  let u ← expect used[j]?
  if u = false then do
    let v ← expect values[j]?
    return if v < acc.1 then (v, j) else acc
  else return acc

def scanMin (values : List Int) (used : List Bool) : Result (Int × Nat) :=
  (List.range values.length).foldlM (scanStep values used) (i128Max, 0)

def sortStep (values : List Int) (acc : List Bool × List Int) (_ : Nat) :
    Result (List Bool × List Int) := do
  let (minVal, minIdx) ← scanMin values acc.1
  return (acc.1.set minIdx true, acc.2 ++ [minVal])

def sortValues (values : List Int) : Result (List Bool × List Int) :=
  (List.range values.length).foldlM (sortStep values) (.replicate values.length false, [])

/-- The middle one of `n` sorted values, or the mean of the two middle ones. -/
def middle (n : Nat) (sorted : List Int) : Result Int :=
  if n % 2 = 1 then expect sorted[n / 2]?
  else do
    let mid := n / 2
    let low ← expect sorted[← u32Sub mid 1]?
    let high ← expect sorted[mid]?
    i128Div (← i128Add low high) 2

def median (values : List Int) : Result Int := do
  let (_, sorted) ← sortValues values
  middle values.length sorted

def init (admin operator : Address) (stalenessThreshold maxDeviationBps : Nat) (s : State) :
    Result State := do
  require (s.admin = none) .alreadyInitialized
  let threshold := if stalenessThreshold = 0 then defaultStalenessSeconds else stalenessThreshold
  let deviation := if maxDeviationBps = 0 then defaultMaxDeviationBps else maxDeviationBps
  return { s with
    admin := some admin
    operator := some operator
    stalenessThreshold := some threshold
    maxDeviationBps := some deviation }

def priceDiff (oldPrice price : Int) : Result Int :=
  if oldPrice < price then i128Sub price oldPrice else i128Sub oldPrice price

/-- The deviation of a price from an old one, in basis points. -/
def deviationBps (oldPrice price : Int) : Result Int := do
  let scaled ← i128Mul (← priceDiff oldPrice price) 10000
  i128Div scaled (← checkI128 |oldPrice|)

/-- The price that an update is compared with. -/
def prevPrice (s : State) (pair : Symbol) (caller : Address) : Option Int :=
  match s.sourceData.get (pair, caller) with
  | some prevData => some prevData.price
  | none => if getSources s pair = [] then (s.feed.get pair).map (·.price) else none

def checkDeviation (s : State) (pair : Symbol) (caller : Address) (price : Int) : Result Unit :=
  match prevPrice s pair caller with
  | some oldPrice =>
    if oldPrice ≠ 0 then do
      let deviation ← deviationBps oldPrice price
      require (¬ (getMaxDeviationBps s : Int) < deviation) .priceDeviationTooLarge
    else return ()
  | none => return ()

section
variable (env : Env own)

def addSource (caller : Address) (pair : Symbol) (source : Address) (s : State) : Result State := do
  requireAdminPermission env (← getAdmin s) caller .notAuthorized
  let sources := getSources s pair
  return if source ∈ sources then s
    else { s with sources := s.sources.set pair (sources ++ [source]) }

def removeSource (caller : Address) (pair : Symbol) (source : Address) (s : State) :
    Result State := do
  requireAdminPermission env (← getAdmin s) caller .notAuthorized
  return { s with sources := s.sources.set pair ((getSources s pair).filter (· ≠ source)) }

def setQuorum (caller : Address) (pair : Symbol) (quorum : Nat) (s : State) : Result State := do
  requireAdminPermission env (← getAdmin s) caller .notAuthorized
  return { s with quorum := s.quorum.set pair quorum }

/-- The admin or the operator in single-source mode, else a registered source. -/
def requireReporter (caller : Address) (pair : Symbol) (s : State) : Result Unit :=
  if getSources s pair = [] then do
    requireAdminOrOperatorPermission env (← getAdmin s) (some (← getOperator s)) caller
      .notAuthorized
  else do
    require (caller ∈ getSources s pair) .unknownSource
    env.requireAuth caller

def updatePrice (caller : Address) (pair : Symbol) (price : Int) (sequence : Nat) (s : State) :
    Result State := do
  let sources := getSources s pair
  requireReporter env caller pair s
  let currentSeq := ((s.sourceData.get (pair, caller)).map (·.sequence)).getD 0
  require (¬ sequence ≤ currentSeq) .invalidSequence
  let feedSeq := s.sequence.getD pair 0
  require (¬ (sources = [] ∧ sequence ≤ feedSeq)) .invalidSequence
  checkDeviation s pair caller price
  let now := env.timestamp
  let s := { s with sourceData := s.sourceData.set (pair, caller) ⟨price, now, sequence⟩ }
  return if sources = [] then
    { s with
      feed := s.feed.set pair ⟨pair, price, priceDecimals, now, sequence⟩
      sequence := s.sequence.set pair sequence }
    else s

def getPriceUnsafe (pair : Symbol) (s : State) : Result PriceFeed :=
  okOr (s.feed.get pair) .unknownPair

/-- The price of a source, if it was submitted within the threshold. -/
def freshPrice (s : State) (pair : Symbol) (src : Address) : Option Int :=
  match s.sourceData.get (pair, src) with
  | some data =>
    if env.timestamp - data.timestamp ≤ getStalenessThreshold s then some data.price else none
  | none => none

def getPrice (pair : Symbol) (s : State) : Result PriceFeed := do
  let sources := getSources s pair
  if sources ≠ [] then do
    let quorum := s.quorum.getD pair defaultQuorum
    let freshPrices := sources.filterMap (freshPrice env s pair)
    require (¬ freshPrices.length < quorum) .noQuorum
    let aggregatedPrice ← median freshPrices
    return ⟨pair, aggregatedPrice, priceDecimals, env.timestamp, 0⟩
  else do
    let feed ← getPriceUnsafe pair s
    require (¬ getStalenessThreshold s < env.timestamp - feed.updatedAt) .priceTooStale
    return feed

def countFresh (s : State) (pair : Symbol) (freshCount : Nat) (src : Address) : Nat :=
  match s.sourceData.get (pair, src) with
  | some data =>
    if env.timestamp - data.timestamp ≤ getStalenessThreshold s then freshCount + 1 else freshCount
  | none => freshCount

def isStale (pair : Symbol) (s : State) : Bool :=
  let sources := getSources s pair
  if sources ≠ [] then
    let quorum := s.quorum.getD pair defaultQuorum
    let freshCount := sources.foldl (countFresh env s pair) 0
    freshCount < quorum
  else
    match s.feed.get pair with
    | none => true
    | some feed => getStalenessThreshold s < env.timestamp - feed.updatedAt

def setStalenessThreshold (caller : Address) (threshold : Nat) (s : State) : Result State := do
  requireAdminPermission env (← getAdmin s) caller .notAuthorized
  return { s with stalenessThreshold := some threshold }

def setMaxDeviationBps (caller : Address) (maxDeviationBps : Nat) (s : State) : Result State := do
  requireAdminPermission env (← getAdmin s) caller .notAuthorized
  return { s with maxDeviationBps := some maxDeviationBps }

end

/-! Saturating arithmetic of `get_twap` -/

def i128Saturate (x : Int) : Int := max (-2 ^ 127) (min (2 ^ 127 - 1) x)

def u64Saturate (x : Nat) : Nat := min (2 ^ 64 - 1) x

def weigh (observations : List PriceObservation) (acc : Int × Nat) (i : Nat) :
    Result (Int × Nat) := do
  let prev ← expect observations[i - 1]?
  let curr ← expect observations[i]?
  let dt := curr.timestamp - prev.timestamp
  return (i128Saturate (acc.1 + i128Saturate (prev.price * dt)), u64Saturate (acc.2 + dt))

def getTwap (pair : Symbol) (s : State) : Result Int := do
  let observations ← okOr (s.twapObservations.get pair) .unknownPair
  let n := observations.length
  require (n ≠ 0) .unknownPair
  if n = 1 then return (← expect observations[0]?).price
  else do
    let (weightedSum, totalTime) ← (List.range' 1 (n - 1)).foldlM (weigh observations) (0, 0)
    if totalTime = 0 then return (← expect observations[n - 1]?).price
    else i128Div weightedSum totalTime

inductive Call where
  | init (admin operator : Address) (stalenessThreshold maxDeviationBps : Nat)
  | addSource (caller : Address) (pair : Symbol) (source : Address)
  | removeSource (caller : Address) (pair : Symbol) (source : Address)
  | setQuorum (caller : Address) (pair : Symbol) (quorum : Nat)
  | updatePrice (caller : Address) (pair : Symbol) (price : I128) (sequence : Nat)
  | setStalenessThreshold (caller : Address) (threshold : Nat)
  | setMaxDeviationBps (caller : Address) (maxDeviationBps : Nat)

def Call.isUpdate : Call → Bool
  | .updatePrice _ _ _ _ => true
  | _ => false

def done (s : State) : State × Unit := (s, ())

def invoke (env : Env own) (s : State) : Call → Option (State × Unit)
  | .init admin operator stalenessThreshold maxDeviationBps =>
    commit (init admin operator stalenessThreshold maxDeviationBps s) done
  | .addSource caller pair source => commit (addSource env caller pair source s) done
  | .removeSource caller pair source => commit (removeSource env caller pair source s) done
  | .setQuorum caller pair quorum => commit (setQuorum env caller pair quorum s) done
  | .updatePrice caller pair price sequence =>
    commit (updatePrice env caller pair price.1 sequence s) done
  | .setStalenessThreshold caller threshold =>
    commit (setStalenessThreshold env caller threshold s) done
  | .setMaxDeviationBps caller maxDeviationBps =>
    commit (setMaxDeviationBps env caller maxDeviationBps s) done

/-- The contract at the address `own`. -/
def machine (own : Address) : Machine State (Env own × Call) Unit where
  step s i := invoke i.1 s i.2

end Shelterflex.OraclePriceFeeds
