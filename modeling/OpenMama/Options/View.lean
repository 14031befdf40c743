import OpenMama.Options.Chain

/-!
# Views of an option chain

`MamdaOptionChainView.cpp`, with `MamdaOptionExpirationDateSet.cpp` and the parts of `MamdaOptionChain.cpp` that
choose strikes. `resetRange` makes the view's expirations anew: the maps of the chain are copied, expirations are
erased, and the strikes of those that stay are trimmed. The copies are new objects on the heap of the chain.
-/

namespace OpenMama.Options

def dblMin : Rat := 1 / 2 ^ 1022
def dblMax : Rat := (2 - 1 / 2 ^ 52) * 2 ^ 1023

inductive AtTheMoneyType where
  | midQuote
  | bid
  | ask
  | lastTrade
deriving DecidableEq

/-- A member that is a pointer. The constructor of the chain leaves those to its listeners as they are. -/
inductive Pointer (α : Type) where
  | uninitialized
  | null
  | to (a : α)
deriving DecidableEq

structure Quote where
  bidPrice : Rat
  askPrice : Rat
deriving DecidableEq

/-- The quote listener and the trade listener of the underlying, with the prices they have. -/
structure Underlying where
  quoteListener : Pointer Quote := .uninitialized
  tradeListener : Pointer Rat := .uninitialized
deriving DecidableEq

/-- Read a price through a pointer; `none` stands for the use of an uninitialized one. -/
def Pointer.price {α : Type} (p : Pointer α) (f : α → Rat) : Option Rat :=
  match p with
  | .uninitialized => none
  | .null => some 0
  | .to a => some (f a)

def getAtTheMoney (u : Underlying) : AtTheMoneyType → Option Rat
  | .midQuote => u.quoteListener.price fun q => (q.bidPrice + q.askPrice) / 2
  | .bid => u.quoteListener.price (·.bidPrice)
  | .ask => u.quoteListener.price (·.askPrice)
  | .lastTrade => u.tradeListener.price id

/-- The strikes from `lower_bound (lower)` to `upper_bound (upper)`. When the second comes first, the loop runs beyond
the end: `none`. -/
def strikesBetween (prices : List Rat) (lower upper : Rat) : Option (List Rat) :=
  if prices.any fun p => upper < p && p < lower then none
  else some (prices.filter fun p => lower ≤ p && p ≤ upper)

/-- The bounds are exact, where the code rounds the products to doubles. -/
def getStrikesWithinPercent (prices : List Rat) (percentage : Rat) (money : Option Rat) : Option (List Rat) :=
  let fraction := percentage / 100
  if fraction ≤ 0 then some []
  else
    money.bind fun atTheMoney =>
      if atTheMoney = 0 then some []
      else strikesBetween prices (atTheMoney * (1 - fraction)) (atTheMoney * (1 + fraction))

/-- The first loop of `getStrikesWithinRangeSize`: how many strikes are below the money, how many were taken
from there on, and the upper bound. -/
def upperLoop (atTheMoney halfRangeLength : Rat) : List Rat → Nat × Nat × Rat → Nat × Nat × Rat
  | [], found => found
  | strike :: rest, (toMoney, fromMoney, upper) =>
    if strike < atTheMoney then upperLoop atTheMoney halfRangeLength rest (toMoney + 1, fromMoney, upper)
    else if halfRangeLength ≤ fromMoney + 1 then (toMoney, fromMoney + 1, strike + 1 / 100000)
    else upperLoop atTheMoney halfRangeLength rest (toMoney, fromMoney + 1, strike + 1 / 100000)

def lowerLoop : List Rat → Int → Rat
  | [], _ => dblMin
  | strike :: rest, targetCount => if 0 < targetCount then lowerLoop rest (targetCount - 1) else strike

def getStrikesWithinRangeSize (prices : List Rat) (rangeLength : Int) (money : Option Rat) : Option (List Rat) :=
  if rangeLength ≤ 0 then some []
  else
    money.bind fun atTheMoney =>
      if atTheMoney = 0 then some []
      else
        let (toMoney, fromMoney, upper) := upperLoop atTheMoney (rangeLength / 2 : Rat) prices (0, 0, dblMax)
        let lower := lowerLoop prices (toMoney - (rangeLength - fromMoney))
        strikesBetween prices lower upper

abbrev ExpirationDateSet := Std.TreeMap ExpireDate StrikesRef

variable {R : Type}

def copyOne (copied : Chain R × ExpirationDateSet) (entry : ExpireDate × StrikesRef) : Chain R × ExpirationDateSet :=
  let (ch, result) := copied
  ({ ch with
      expirationStrikes := Function.update ch.expirationStrikes ch.nextStrikes (ch.expirationStrikes entry.2)
      nextStrikes := ch.nextStrikes + 1 },
    result.insert entry.1 ch.nextStrikes)

def copyStrikes (ch : Chain R) (rhs : ExpirationDateSet) : Chain R × ExpirationDateSet :=
  rhs.toList.foldl copyOne (ch, ∅)

def eraseAfter (date : DateTime) (set : ExpirationDateSet) : ExpirationDateSet :=
  set.filter fun d _ => !decide (date.compare d.dateTime < 0)

def getExpirationsBefore (ch : Chain R) (set : ExpirationDateSet) (date : DateTime) : Chain R × ExpirationDateSet :=
  let (copied, result) := copyStrikes ch set
  (copied, eraseAfter date result)

/-- The loop of `getExpirations`: the last date that was reached, and how many are missing. -/
def expirationLoop (date : Option ExpireDate) : List ExpireDate → Int → Option ExpireDate × Int
  | [], n => (date, n)
  | d :: rest, n => if 0 < n then expirationLoop (some d) rest (n - 1) else (date, n)

def getExpirations (ch : Chain R) (set : ExpirationDateSet) (numExpirations : Int) : Chain R × ExpirationDateSet :=
  match expirationLoop none set.keys numExpirations with
  | (some date, 0) => getExpirationsBefore ch set date.dateTime
  | _ => copyStrikes ch set

def trimStrikes (low high : Rat) (ch : Chain R) (strikes : StrikesRef) : Chain R :=
  { ch with
    expirationStrikes := Function.update ch.expirationStrikes strikes
      ((ch.expirationStrikes strikes).filter fun p _ => decide (low ≤ p) && decide (p ≤ high)) }

/-! ### The view -/

structure View where
  atTheMoneyType : AtTheMoneyType := .midQuote
  strikeMargin : Rat := 0
  numStrikes : Int := 0
  expirationDays : Int := 0
  numExpirations : Int := 0
  expirationDateSet : ExpirationDateSet := ∅
  lowExpireDate : DateTime := {}
  highExpireDate : DateTime := {}
  lowStrike : Rat := 0
  highStrike : Rat := 0

structure System (R : Type) where
  chain : Chain R
  added : List R := []
  underlying : Underlying := {}
  view : View := {}

/-- The times that `setToNow` gives while the range is reset. -/
structure Clock where
  filtered : DateTime
  bounded : DateTime
deriving DecidableEq

def addSeconds (time : DateTime) (seconds : Int) : DateTime := { time with seconds := time.seconds + seconds }

namespace System

/-- `filterExpirations`. The product is computed in an `int`. -/
def filterExpirations (now : DateTime) (s : System R) : System R :=
  let (chain, set) :=
    if 0 < s.view.expirationDays then
      getExpirationsBefore s.chain s.chain.expirationSet
        (addSeconds now ((s.view.expirationDays * 24 * 60 * 60).bmod (2 ^ 32)))
    else if 0 < s.view.numExpirations then
      getExpirations s.chain s.chain.expirationSet s.view.numExpirations
    else copyStrikes s.chain s.chain.expirationSet
  { s with chain := chain, view := { s.view with expirationDateSet := set } }

/-- The strikes that `filterStrikes` chooses. The number of strikes is looked at if a number of expirations
is set. -/
def chosenStrikes (s : System R) : Option (List Rat) :=
  let prices := s.chain.strikePrices.toList
  let money := getAtTheMoney s.underlying s.view.atTheMoneyType
  (if 0 < s.view.strikeMargin then getStrikesWithinPercent prices s.view.strikeMargin money
    else some []).bind fun
    | [] =>
      if 0 < s.view.numExpirations then getStrikesWithinRangeSize prices s.view.numStrikes money
      else some []
    | strikes => some strikes

def filterStrikes (s : System R) : Option (System R) :=
  s.chosenStrikes.map fun
    | [] => { s with view := { s.view with lowStrike := dblMin, highStrike := dblMax } }
    | low :: rest =>
      let high := (low :: rest).getLast (List.cons_ne_nil low rest)
      { s with
        chain := (OrderedMap.iterate s.view.expirationDateSet).foldl (trimStrikes low high) s.chain
        view := { s.view with lowStrike := low, highStrike := high } }

def setExpireBounds (now : DateTime) (s : System R) : System R :=
  { s with
    view := { s.view with
      lowExpireDate := (s.view.expirationDateSet.keys.head?.map ExpireDate.dateTime).getD {}
      highExpireDate :=
        (s.view.expirationDateSet.keys.getLast?.map ExpireDate.dateTime).getD
          (addSeconds now (366 * 24 * 60 * 60)) } }

def resetRange (clock : Clock) (s : System R) : Option (System R) :=
  (s.filterExpirations clock.filtered).filterStrikes.map (setExpireBounds clock.bounded)

end System

def View.isVisible (v : View) (c : Contract) : Bool :=
  decide (v.lowExpireDate.compare c.getExpireDate.dateTime ≤ 0) &&
    decide (0 ≤ v.highExpireDate.compare c.getExpireDate.dateTime) &&
    decide (v.lowStrike ≤ c.getStrikePrice) && decide (c.getStrikePrice ≤ v.highStrike)

/-- The calls that change a chain or a view. A change of the underlying is not seen by the view. -/
inductive ViewOp (R : Type) where
  | setAtTheMoneyType (type : AtTheMoneyType) (clock : Clock)
  | setStrikeRangePercent (percentMargin : Rat) (clock : Clock)
  | setStrikeRangeNumber (number : Int) (clock : Clock)
  | setExpirationRangeDays (expirationDays : Int) (clock : Clock)
  | setNumberOfExpirations (numExpirations : Int) (clock : Clock)
  | onOptionContractCreate (clock : Clock)
  | setUnderlying (underlying : Underlying)
  | addContract (r : R) (contract : Contract)

namespace System

variable [DecidableEq R]

def addContract (r : R) (contract : Contract) (s : System R) : Option (System R) :=
  (Chain.processNewContractDetails r
      { s.chain with contract := Function.update s.chain.contract r contract }).map fun chain =>
    { s with chain := chain, added := r :: s.added }

def prepare (s : System R) : ViewOp R → Option (Clock × System R)
  | .setAtTheMoneyType type clock =>
    if s.view.atTheMoneyType ≠ type then
      some (clock, { s with view := { s.view with atTheMoneyType := type } })
    else none
  | .setStrikeRangePercent percentMargin clock =>
    if s.view.strikeMargin ≠ percentMargin then
      some (clock, { s with view := { s.view with strikeMargin := percentMargin } })
    else none
  | .setStrikeRangeNumber number clock =>
    if s.view.numStrikes ≠ number then
      some (clock, { s with view := { s.view with numStrikes := number } })
    else none
  | .setExpirationRangeDays expirationDays clock =>
    some (clock, { s with view := { s.view with expirationDays := expirationDays } })
  | .setNumberOfExpirations numExpirations clock =>
    some (clock, { s with view := { s.view with numExpirations := numExpirations } })
  | .onOptionContractCreate clock => some (clock, s)
  | _ => none

def step (s : System R) (op : ViewOp R) : Option (System R) :=
  match s.prepare op with
  | some (clock, prepared) => prepared.resetRange clock
  | none =>
    match op with
    | .setUnderlying underlying => some { s with underlying := underlying }
    | .addContract r contract => s.addContract r contract
    | _ => some s

def init (contract : R → Contract) : System R where
  chain := { contract := contract }

end System

end OpenMama.Options
