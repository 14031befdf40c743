import OpenMama.Mama.Base
import OpenMama.Lib.OrderedMap
import OpenMama.Lib.KeySet
import Mathlib.Algebra.Order.Ring.Rat
import Mathlib.Data.String.Basic

/-!
# Option chains

`MamdaOptionChain.cpp`, with the classes it is made of. A chain has two sets of contracts, the calls and the puts, and
an index: the expiration dates, the strikes of a date, and for a date and a strike the contracts of each exchange. The
maps of the first two levels hold pointers to objects on a heap. An expiration date has no fraction of a second.
Strikes are exact.
-/

namespace OpenMama.Options

inductive PutCall where
  | call
  | put
  | unknown
deriving DecidableEq

abbrev ExpireDate := Int

def ExpireDate.dateTime (date : ExpireDate) : DateTime := { seconds := date, hints := 1 }

/-- `MamdaOptionContract`. A field is `none` until it was set. -/
structure Contract where
  symbol : String
  exchange : String
  expireDate : Option ExpireDate := none
  strikePrice : Option Rat := none
  putCall : Option PutCall := none
  recapRequired : Bool := false
deriving DecidableEq

namespace Contract

/-- The constructor from a symbol and an exchange, which copies them to buffers of 256 and 5 bytes. -/
def new (symbol exchange : String) : Contract where
  symbol := String.ofList (symbol.toList.take 255)
  exchange := String.ofList (exchange.toList.take 4)

def getExpireDate (c : Contract) : ExpireDate := c.expireDate.getD 0
def getStrikePrice (c : Contract) : Rat := c.strikePrice.getD 0

end Contract

def strcmp (s t : String) : Int := if s < t then -1 else if s = t then 0 else 1

def contractLessThan (c₁ c₂ : Contract) : Bool :=
  let comp := c₁.getExpireDate.dateTime.compare c₂.getExpireDate.dateTime
  let strikeDiff := c₁.getStrikePrice - c₂.getStrikePrice
  let comp := if comp = 0 then if strikeDiff > 0 then 1 else if strikeDiff < 0 then -1 else comp else comp
  let comp := if comp = 0 then strcmp c₁.exchange c₂.exchange else comp
  let comp := if comp = 0 then strcmp c₁.symbol c₂.symbol else comp
  decide (comp < 0)

def isBbo (exchange : String) : Bool := exchange == "" || exchange == "BBO" || exchange == "Z"

def isWombatBbo (exchange : String) : Bool := exchange == "WBBO"

structure ContractSet (R : Type) where
  bboContract : Option R := none
  wombatBboContract : Option R := none
  exchangeContracts : Std.TreeMap String R := ∅

structure StrikeSet (R : Type) where
  callSet : ContractSet R := {}
  putSet : ContractSet R := {}

def ContractSet.setContract {R : Type} (exchange : String) (r : R) (s : ContractSet R) : ContractSet R :=
  if isBbo exchange then { s with bboContract := some r }
  else if isWombatBbo exchange then { s with wombatBboContract := some r }
  else { s with exchangeContracts := s.exchangeContracts.insert exchange r }

def ContractSet.getContract {R : Type} (exchange : String) (s : ContractSet R) : Option R :=
  if isBbo exchange then s.bboContract
  else if isWombatBbo exchange then s.wombatBboContract
  else s.exchangeContracts[exchange]?

/-- Store a contract on its side. For a put or call that is neither, the contract set stays NULL and is used: the result
is `none`. -/
def StrikeSet.setContract {R : Type} (putCall : PutCall) (exchange : String) (r : R) (s : StrikeSet R) :
    Option (StrikeSet R) :=
  match putCall with
  | .call => some { s with callSet := s.callSet.setContract exchange r }
  | .put => some { s with putSet := s.putSet.setContract exchange r }
  | .unknown => none

def StrikeSet.getContract {R : Type} (putCall : PutCall) (exchange : String) (s : StrikeSet R) : Option R :=
  match putCall with
  | .call => s.callSet.getContract exchange
  | .put => s.putSet.getContract exchange
  | .unknown => none

abbrev StrikesRef := Nat
abbrev StrikeSetRef := Nat

/-- A chain, and the heap of the objects that its maps point to. Contracts are referred to by `R`. -/
structure Chain (R : Type) where
  contract : R → Contract
  callOptions : List R := []
  putOptions : List R := []
  strikePrices : Std.TreeSet Rat := ∅
  expirationSet : Std.TreeMap ExpireDate StrikesRef := ∅
  expirationStrikes : StrikesRef → Std.TreeMap Rat StrikeSetRef := fun _ => ∅
  nextStrikes : StrikesRef := 0
  strikeSet : StrikeSetRef → StrikeSet R := fun _ => {}
  nextStrikeSet : StrikeSetRef := 0

namespace Chain

variable {R : Type}

def addToOptions (r : R) (ch : Chain R) : Chain R :=
  let less := fun r₁ r₂ => contractLessThan (ch.contract r₁) (ch.contract r₂)
  match (ch.contract r).putCall with
  | some .call => { ch with callOptions := SortedSet.insert less r ch.callOptions }
  | some .put => { ch with putOptions := SortedSet.insert less r ch.putOptions }
  | _ => ch

def findOrCreateStrikes (date : ExpireDate) (ch : Chain R) : Chain R × StrikesRef :=
  match ch.expirationSet[date]? with
  | some strikes => (ch, strikes)
  | none =>
    ({ ch with
        expirationSet := ch.expirationSet.insert date ch.nextStrikes
        expirationStrikes := Function.update ch.expirationStrikes ch.nextStrikes ∅
        nextStrikes := ch.nextStrikes + 1 },
      ch.nextStrikes)

def findOrCreateStrikeSet (strikes : StrikesRef) (price : Rat) (ch : Chain R) : Chain R × StrikeSetRef :=
  match (ch.expirationStrikes strikes)[price]? with
  | some set => (ch, set)
  | none =>
    ({ ch with
        expirationStrikes := Function.update ch.expirationStrikes strikes
          ((ch.expirationStrikes strikes).insert price ch.nextStrikeSet)
        strikeSet := Function.update ch.strikeSet ch.nextStrikeSet {}
        nextStrikeSet := ch.nextStrikeSet + 1 },
      ch.nextStrikeSet)

def addToStrikeSet (set : StrikeSetRef) (putCall : PutCall) (r : R) (ch : Chain R) : Option (Chain R) :=
  ((ch.strikeSet set).setContract putCall (ch.contract r).exchange r).map fun s =>
    { ch with strikeSet := Function.update ch.strikeSet set s }

def addToExpirationSet (r : R) (ch : Chain R) : Option (Chain R) :=
  match (ch.contract r).expireDate with
  | none => some ch
  | some date =>
    let (dated, strikes) := ch.findOrCreateStrikes date
    match (ch.contract r).strikePrice with
    | none => some dated
    | some price =>
      let (priced, set) := dated.findOrCreateStrikeSet strikes price
      match (ch.contract r).putCall with
      | none => some priced
      | some putCall => priced.addToStrikeSet set putCall r

def addStrikePrice (r : R) (ch : Chain R) : Chain R :=
  match (ch.contract r).strikePrice with
  | none => ch
  | some price => { ch with strikePrices := ch.strikePrices.insert price }

/-- `processNewContractDetails`; `none` stands for the use of a NULL contract set. -/
def processNewContractDetails (r : R) (ch : Chain R) : Option (Chain R) :=
  if (ch.contract r).recapRequired then some ch
  else ((ch.addToOptions r).addToExpirationSet r).map (addStrikePrice r)

def strikeSetRef (ch : Chain R) (date : ExpireDate) (price : Rat) : Option StrikeSetRef :=
  ch.expirationSet[date]?.bind fun strikes => (ch.expirationStrikes strikes)[price]?

end Chain

end OpenMama.Options
