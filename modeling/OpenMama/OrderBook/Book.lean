import OpenMama.OrderBook.PriceLevel
import OpenMama.Lib.OrderedMap

/-!
# The operations of a book

`MamdaOrderBook.cpp`, function by function, on the heap. The functions that work on "the side `bookSide`" take the
side whose map that is. Several of them do their work and then throw, so they return an `Outcome`.
-/

namespace OpenMama.OrderBook.Book

open OrderedMap

variable {P : Type} [LinearOrder P]

abbrev Result (P : Type) [LinearOrder P] := Outcome (World P) (BookException P)

variable (w : World P)

def findLevel (b : BookRef) (side : Side) (price : P) : Option LevelRef :=
  ((w.book b).levels side)[price]?

def setLevelBook (l : LevelRef) (b : BookRef) : World P :=
  w.modifyLevel l fun lev => { lev with book := some b }

variable (b : BookRef)

def insertLevel (side : Side) (price : P) (l : LevelRef) : World P :=
  w.modifyBook b fun bk => bk.setLevels side ((bk.levels side).insert price l)

def eraseLevel (side : Side) (price : P) : World P :=
  w.modifyBook b fun bk => bk.setLevels side ((bk.levels side).erase price)

variable (bookSide : Side)

/-- `findOrCreateLevel`: the level, and the level action a delta will carry. -/
def findOrCreateLevel (price : P) (side : Side) : World P × LevelRef × Action :=
  match findLevel w b bookSide price with
  | some l => (w, l, .update)
  | none =>
    (insertLevel (w.newLevel { price := price, side := side, book := some b }) b bookSide price
      w.nextLevel, w.nextLevel, .add)

variable (e : EntryRef) (price : P) (side : Side) (eventTime : DateTime)

def addEntrySide : World P × BasicDelta :=
  let (w', l, plAction) := findOrCreateLevel w b bookSide price side
  let counted := w.counted (w.book b).checkVisibility e
  let timed := w'.modifyLevel l fun lev =>
    { lev with time := if counted then eventTime else lev.time, book := some b }
  (PriceLevel.addEntry timed l e,
    { priceLevel := some l, entry := some e, plDeltaSize := if counted then (w.entry e).size else 0,
      plAction := plAction, entryAction := .add })

def addEntrySideAt (entryPosition : Nat) : World P × BasicDelta :=
  let (w', l, plAction) := findOrCreateLevel w b bookSide price side
  let counted := w.counted (w.book b).checkVisibility e
  let timed := w'.modifyLevel l fun lev => { lev with time := if counted then eventTime else lev.time }
  (PriceLevel.addEntryAt timed l e entryPosition,
    { priceLevel := some l, entry := some e, plDeltaSize := if counted then (w.entry e).size else 0,
      plAction := plAction, entryAction := .add })

/-- `addEntry`; a side that is neither bid nor ask is ignored. `delta` is the caller's delta object. -/
def addEntry (delta : BasicDelta) : World P × BasicDelta :=
  match side with
  | .bid => addEntrySide w b .bid e price side eventTime
  | .ask => addEntrySide w b .ask e price side eventTime
  | .unknown => (w, delta)

def addEntryAt (delta : BasicDelta) (entryPosition : Nat) : World P × BasicDelta :=
  match side with
  | .bid => addEntrySideAt w b .bid e price side eventTime entryPosition
  | .ask => addEntrySideAt w b .ask e price side eventTime entryPosition
  | .unknown => (w, delta)

def updateEntry (size : Int) (eventTime : DateTime)
    (delta : BasicDelta) : Outcome (World P × BasicDelta) (BookException P) :=
  match (w.entry e).priceLevel with
  | none => .throw (w, delta) (.invalidEntry e "MamdaOrderBook::updateEntry()")
  | some l =>
    let counted := w.counted (w.book b).checkVisibility e
    let changed := decide (size ≠ (w.entry e).size)
    let plSizeDelta := if changed && counted then size - (w.entry e).size else 0
    let moved := if changed && counted then
        w.modifyLevel l fun lev => { lev.setSize (lev.size + plSizeDelta) with time := eventTime }
      else w
    let final := if changed then
        moved.modifyEntry e fun x => { x with size := size, time := eventTime }
      else moved
    .ok (final, { priceLevel := some l, entry := some e, plDeltaSize := plSizeDelta,
                  plAction := .update, entryAction := .update })

def detach (l : LevelRef) : World P :=
  let lev := w.level l
  if lev.orderType = .market then w.modifyBook b (·.setMarketOrders lev.side none)
  else if (findLevel w b lev.side lev.price).isSome then
    (eraseLevel w b lev.side lev.price).modifyBook b fun bk => { bk with detachedLevels := bk.detachedLevels ++ [l] }
  else w

def deleteEntry (e : EntryRef) (eventTime : DateTime)
    (delta : BasicDelta) : Outcome (World P × BasicDelta) (BookException P) :=
  match (w.entry e).priceLevel with
  | none => .throw (w, delta) (.invalidEntry e "MamdaOrderBook::deleteEntry()")
  | some l =>
    let counted := w.counted (w.book b).checkVisibility e
    let timed := w.modifyLevel l fun lev => { lev with time := if counted then eventTime else lev.time }
    let removed := PriceLevel.removeEntry timed l e
    let final := if (removed.level l).empty then detach removed b l else removed
    .ok (final, { priceLevel := some l, entry := some e,
                  plDeltaSize := if counted then -(w.entry e).size else 0,
                  plAction := if isQuantityNone (final.level l).size then .delete else .update,
                  entryAction := .delete })

def cleanupDetached : World P :=
  w.modifyBook b fun bk => { bk with detachedLevels := [], detachedEntries := [] }

def addEntriesFromBookLevel (bookSide : Side) (filter : Option (Entry → Bool))
    (s : PriceLevel.Recorded P) (src : LevelRef) : PriceLevel.Recorded P :=
  let (w, l, _) := findOrCreateLevel s.1 b bookSide (s.1.level src).price (s.1.level src).side
  PriceLevel.addEntriesFromLevel l src filter (w, s.2)

/-- `addEntriesFromBook`: the bid levels of the other book, lowest price first, then its ask levels. -/
def addEntriesFromBook (w : World P) (b source : BookRef) (filter : Option (Entry → Bool)) : PriceLevel.Recorded P :=
  let bids := (iterate (w.book source).bidLevels).foldl
    (addEntriesFromBookLevel b .bid filter) (w, [])
  (iterate (w.book source).askLevels).foldl (addEntriesFromBookLevel b .ask filter) bids

def addPriceLevelAsEntry (b source : BookRef) (bookSide : Side) (sourceId : Option String)
    (s : PriceLevel.Recorded P) (src : LevelRef) : PriceLevel.Recorded P :=
  let lev := s.1.level src
  let w := s.1.newEntry
    { id := sourceId, size := lev.size, action := .add, time := lev.time,
      sourceDeriv := (s.1.book source).sourceDeriv, reason := .modify }
  let (w', delta) := addEntrySide w b bookSide s.1.freshEntry lev.price lev.side lev.time
  (w', s.2 ++ [delta])

def addPriceLevelsFromBookAsEntries (b source : BookRef) (sourceId : Option String) : PriceLevel.Recorded P :=
  let bids := (iterate (w.book source).bidLevels).foldl
    (addPriceLevelAsEntry b source .bid sourceId) (w, [])
  (iterate (w.book source).askLevels).foldl
    (addPriceLevelAsEntry b source .ask sourceId) bids

def deleteEntriesFromSource (b : BookRef) (source : Nat) : Outcome (PriceLevel.Recorded P) (BookException P) :=
  let bids := Outcome.each (PriceLevel.deleteEntriesFromSource source)
    (iterate (w.book b).bidLevels) (w, [])
  bids.andThen (Outcome.each (PriceLevel.deleteEntriesFromSource source)
    (iterate (w.book b).askLevels))

end OpenMama.OrderBook.Book
