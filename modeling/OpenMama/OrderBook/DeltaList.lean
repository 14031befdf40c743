import OpenMama.OrderBook.PriceLevel
import OpenMama.Lib.OrderedMap

/-!
# The list of basic deltas

`MamdaOrderBookBasicDeltaList`: the deltas of one message, or with conflation those of an interval. A list that
conflates keeps, for each side and price, a list of entry deltas or one level delta, and merges a new delta into it.
The three containers are created when they are first needed, and `clear` empties only the first of them that there is.
The side and the price of a delta's level are arguments here.
-/

namespace OpenMama.OrderBook

variable {P : Type} [LinearOrder P]

structure Sided (P : Type) [LinearOrder P] (α : Type) where
  bid : Std.TreeMap P α := ∅
  ask : Std.TreeMap P α := ∅

namespace Sided

variable {α : Type}

def get? (m : Sided P α) (isBid : Bool) (price : P) : Option α :=
  if isBid then m.bid[price]? else m.ask[price]?

def set (m : Sided P α) (isBid : Bool) (price : P) (a : Option α) : Sided P α :=
  let alter (t : Std.TreeMap P α) : Std.TreeMap P α :=
    match a with
    | some a => t.insert price a
    | none => t.erase price
  if isBid then { m with bid := alter m.bid } else { m with ask := alter m.ask }

def values (m : Sided P α) : List α := OrderedMap.iterate m.bid ++ OrderedMap.iterate m.ask

end Sided

/-- `MamdaOrderBookBasicDeltaList`, with the values of the constructor. -/
structure DeltaList (P : Type) [LinearOrder P] where
  keepDeltas : Bool := true
  conflateDeltas : Bool := false
  processEntries : Bool := true
  deltas : Option (List BasicDelta) := none
  levelDeltas : Option (Sided P BasicDelta) := none
  entryDeltas : Option (Sided P (List BasicDelta)) := none
  sendImmediately : Bool := false
  size : Nat := 0

namespace DeltaList

/-- The first delta of the same entry gives way to the new one, and both vanish when the entry was added in the interval
and is deleted. -/
def applyEntryDelta (list : List BasicDelta) (delta : BasicDelta) : List BasicDelta :=
  match list.span fun other => decide (other.entry ≠ delta.entry) with
  | (before, existing :: after) =>
    match delta.entryAction with
    | .delete => if existing.entryAction = .add then before ++ after else before ++ after ++ [delta]
    | .update | .add => before ++ after ++ [delta]
    | .unknown => list ++ [delta]
  | (_, []) => list ++ [delta]

/-- `conflateEntryDeltas`: the deltas of a level after one more, by its level action. The flag is that the list is to be
sent at once. -/
def conflateEntry (list : List BasicDelta) (delta : BasicDelta) : List BasicDelta × Bool :=
  match list with
  | [] => ([delta], false)
  | first :: _ =>
    match delta.plAction with
    | .delete => if first.plAction = .add then ([], false) else ([{ delta with entry := none }], true)
    | .add => (list ++ [delta], false)
    | .update => (applyEntryDelta list delta, false)
    | .unknown => (list, false)

/-- The one delta of a level after one more: `conflateLevelDeltas`. -/
def conflateLevel (existing : Option BasicDelta) (delta : BasicDelta) : Option BasicDelta :=
  match existing with
  | none => some delta
  | some old =>
    match delta.plAction with
    | .delete => if old.plAction = .add then none else some { old with plAction := .delete }
    | .add => some
        { old with plAction := .update, plDeltaSize := old.plDeltaSize + delta.plDeltaSize,
                   priceLevel := delta.priceLevel }
    | .update => some
        { old with plDeltaSize := old.plDeltaSize + delta.plDeltaSize,
                   priceLevel := delta.priceLevel }
    | .unknown => some old

variable (c : DeltaList P)

def conflateEntryDeltas (isBid : Bool) (price : P) (delta : BasicDelta) : DeltaList P :=
  let maps := c.entryDeltas.getD {}
  let list := (maps.get? isBid price).getD []
  let merged := conflateEntry list delta
  { c with
    entryDeltas := some (maps.set isBid price (some merged.1))
    sendImmediately := c.sendImmediately || merged.2
    size := c.size + merged.1.length - list.length }

def conflateLevelDeltas (isBid : Bool) (price : P) (delta : BasicDelta) : DeltaList P :=
  let maps := c.levelDeltas.getD {}
  let existing := maps.get? isBid price
  let merged := conflateLevel existing delta
  { c with
    levelDeltas := some (maps.set isBid price merged)
    size := c.size + merged.toList.length - existing.toList.length }

def add (isBid : Bool) (price : P) (delta : BasicDelta) : DeltaList P :=
  if c.keepDeltas then
    if c.conflateDeltas then
      if c.processEntries then c.conflateEntryDeltas isBid price delta
      else c.conflateLevelDeltas isBid price delta
    else { c with deltas := some (c.deltas.getD [] ++ [delta]) }
  else c

def clear : DeltaList P :=
  let emptied := match c.deltas, c.levelDeltas, c.entryDeltas with
    | some _, _, _ => { c with deltas := some [] }
    | none, some _, _ => { c with levelDeltas := some {} }
    | none, none, some _ => { c with entryDeltas := some {} }
    | none, none, none => c
  { emptied with sendImmediately := false, size := 0 }

def getSize : Nat :=
  match c.deltas with
  | some list => list.length
  | none => c.size

/-- What an iteration from `begin ()` to `end ()` sees. A list that does not keep its deltas throws. -/
def iterate : Option (List BasicDelta) :=
  if c.keepDeltas then
    if c.conflateDeltas then
      if c.processEntries then some (c.entryDeltas.getD {}).values.flatten
      else some (c.levelDeltas.getD {}).values
    else some (c.deltas.getD [])
  else none

end DeltaList

end OpenMama.OrderBook
