import OpenMama.OrderBook.Book

/-!
# Levels, deltas and copies of a book

The rest of `MamdaOrderBook.cpp`: the operations on whole levels, applying one delta, a list of deltas or a book of
deltas, and copying a book, which is applying it. Each operation on a level repairs the book before it throws.
-/

namespace OpenMama.OrderBook.Book

open PriceLevel

variable {P : Type} [LinearOrder P]

/-! ### Levels of a side -/

def insertCopy (w : World P) (b : BookRef) (bookSide : Side) (level : LevelRef) : World P :=
  setLevelBook (insertLevel (newCopy w level) b bookSide (w.level level).price w.nextLevel)
    w.nextLevel b

/-- The functions that add: `insert` if the price is not there, else `update` and the exception. -/
def addLevelWith (w : World P) (b : BookRef) (bookSide : Side) (level : LevelRef) (insert : World P)
    (update : LevelRef → World P) : Result P :=
  match findLevel w b bookSide (w.level level).price with
  | none => .ok insert
  | some found =>
    .throw (update found)
      (.levelExists (w.book b).symbol (w.level level).price ((update found).level found).size)

/-- The functions that change: `update` if the price is there, else a copy is added and the exception
thrown. -/
def updateLevelWith (operation : String) (w : World P) (b : BookRef) (bookSide : Side)
    (level : LevelRef) (update : LevelRef → World P) : Result P :=
  match findLevel w b bookSide (w.level level).price with
  | some found => .ok (update found)
  | none =>
    .throw (insertCopy w b bookSide level)
      (.levelMissing operation (w.book b).symbol (w.level level).price)

variable (w : World P)

variable (b : BookRef)

variable (bookSide : Side)

variable (level : LevelRef)

def addLevelSide : Result P :=
  addLevelWith w b bookSide level (insertCopy w b bookSide level)
    fun found => PriceLevel.copy w found level

def addLevelSideNoCopy : Result P :=
  addLevelWith w b bookSide level (insertLevel w b bookSide (w.level level).price level)
    fun found => PriceLevel.copy w found level

def addLevelSideDelta : Result P :=
  addLevelWith w b bookSide level (insertCopy w b bookSide level)
    fun found => setLevelBook (PriceLevel.copy w found level) found b

def updateLevelSide : Result P :=
  updateLevelWith "updateLevel" w b bookSide level fun found => PriceLevel.copy w found level

def applyEntry (found : LevelRef) (w : World P) (e : EntryRef) : World P :=
  let entry := (w.entry e).copy
  let w' := w.newEntry entry
  match entry.action with
  | .add => PriceLevel.addEntry w' found w.freshEntry
  | .update => PriceLevel.updateEntry w' found entry
  | .delete => removeEntryById w' found entry
  | .unknown => w'

variable (w : World P)

def applyToLevel (level found : LevelRef) : World P :=
  let w' := (visibleEntries w level).foldl (applyEntry found)
    (createEntries w level)
  w'.modifyLevel found (·.setDetails (w'.level level))

def applyLevelSide (b : BookRef) (bookSide : Side) (level : LevelRef) : Result P :=
  updateLevelWith "applyLevel" w b bookSide level (applyToLevel w level)

def applyDeltaEntry (delta : BasicDelta) (found : LevelRef) : World P :=
  match delta.entry with
  | none => w
  | some e =>
    match delta.entryAction with
    | .add => PriceLevel.addEntry (w.newEntry (w.entry e).copy) found w.freshEntry
    | .update => PriceLevel.updateEntry w found (w.entry e)
    | .delete => removeEntryById w found (w.entry e)
    | .unknown => w

/-- The entry of a delta is applied to the level found, then the details of the delta's level. -/
def applyDeltaToLevel (delta : BasicDelta) (level found : LevelRef) : World P :=
  let w' := applyDeltaEntry w delta found
  w'.modifyLevel found (·.setDetails (w'.level level))

def applyLevelSideDelta (b : BookRef) (bookSide : Side) (delta : BasicDelta) (level : LevelRef) : Result P :=
  updateLevelWith "applyLevel" w b bookSide level (applyDeltaToLevel w delta level)

def deleteLevelSide (b : BookRef) (bookSide : Side) (level : LevelRef) : Result P :=
  match findLevel w b bookSide (w.level level).price with
  | some _ => .ok (eraseLevel w b bookSide (w.level level).price)
  | none => .throw w (.levelMissing "deleteLevel" (w.book b).symbol (w.level level).price)

/-- `addLevel`, `updateLevel` and `deleteLevel` pick the side by the level's own, ignore the unknown side, and add the
price to an exception. -/
def onLevelSide (op : World P → BookRef → Side → LevelRef → Result P) (w : World P) (b : BookRef)
    (level : LevelRef) : Result P :=
  match (w.level level).side with
  | .unknown => .ok w
  | side => (op w b side level).rethrow (.atPrice · (w.level level).price)

variable (w : World P)

variable (b : BookRef)

def addLevel (level : LevelRef) : Result P :=
  onLevelSide addLevelSideNoCopy w b level

def updateLevel (level : LevelRef) : Result P :=
  onLevelSide updateLevelSide w b level

def deleteLevel (level : LevelRef) : Result P :=
  onLevelSide deleteLevelSide w b level

variable (side : Side)

/-- `getMarketOrdersSide`, then what to do with none and with some. -/
def onMarketOrders (missing : Result P) (existing : LevelRef → Result P) : Result P :=
  match side with
  | .unknown => .throw w (.invalidSide "MamdaOrderBook::getMarketOrders()" side)
  | side =>
    match (w.book b).marketOrders side with
    | none => missing
    | some found => existing found

def insertMarketCopy (level : LevelRef) : World P :=
  (setLevelBook (newCopy w level) w.nextLevel b).modifyBook b
    (·.setMarketOrders side (some w.nextLevel))

def addMarketOrderLevelSide (level : LevelRef) : Result P :=
  onMarketOrders w b side (.ok (insertMarketCopy w b side level)) fun found =>
    .throw (setLevelBook (PriceLevel.copy w found level) found b)
      (.marketOrdersExist (w.book b).symbol side (w.level level).size)

def applyMarketOrderLevelSide (level : LevelRef) (update : LevelRef → World P) : Result P :=
  onMarketOrders w b side
    (.throw (insertMarketCopy w b side level)
      (.marketOrdersMissing (w.book b).symbol side (w.level level).size))
    fun found => .ok (update found)

def deleteMarketOrderLevelSide : Result P :=
  match side with
  | .unknown => .throw w (.marketSideMissing (w.book b).symbol side)
  | side => .ok (w.modifyBook b (·.setMarketOrders side none))

def byAction (action : Action) (w : World P) (add update delete : Result P) : Result P :=
  match action with
  | .add => add
  | .update => update
  | .delete => delete
  | .unknown => .ok w

def applySideLevel (b : BookRef) (bookSide : Side) (level : LevelRef) (w : World P) : Result P :=
  (byAction (w.level level).action w (addLevelSide w b bookSide level)
    (applyLevelSide w b bookSide level) (deleteLevelSide w b bookSide level)).rethrow
      (.atPrice · (w.level level).price)

def applySide (b : BookRef) (bookSide : Side) (deltaSide : Std.TreeMap P LevelRef) (w : World P) : Result P :=
  Outcome.each (applySideLevel b bookSide) (OrderedMap.iterate deltaSide) w

def applySideDelta (w : World P) (b : BookRef) (bookSide : Side) (delta : BasicDelta) (level : LevelRef) : Result P :=
  (byAction delta.plAction w (addLevelSideDelta w b bookSide level)
    (applyLevelSideDelta w b bookSide delta level) (deleteLevelSide w b bookSide level)).rethrow
      (.atPrice · (w.level level).price)

def applyMarketOrderSide (b : BookRef) (side : Side) (level : LevelRef) (w : World P) : Result P :=
  (byAction (w.level level).action w (addMarketOrderLevelSide w b side level)
    (applyMarketOrderLevelSide w b side level (applyToLevel w level))
    (deleteMarketOrderLevelSide w b side)).rethrow .marketOrder

def applyMarketOrderSideDelta (w : World P) (b : BookRef) (side : Side) (delta : BasicDelta)
    (level : LevelRef) : Result P :=
  (byAction delta.plAction w (addMarketOrderLevelSide w b side level)
    (applyMarketOrderLevelSide w b side level (applyDeltaToLevel w delta level))
    (deleteMarketOrderLevelSide w b side)).rethrow .marketOrder

/-- `apply (delta)`. A delta without a level has its NULL level followed. -/
def applyDelta (b : BookRef) (delta : BasicDelta) (w : World P) : Result P :=
  match delta.priceLevel with
  | none => .throw w .nullDereference
  | some level =>
    if (w.level level).orderType = .market then
      applyMarketOrderSideDelta w b (w.level level).side delta level
    else
      match (w.level level).side with
      | .unknown => .throw w .badSide
      | side => applySideDelta w b side delta level

def applyDeltas (b : BookRef) (deltas : List BasicDelta) (w : World P) : Result P :=
  Outcome.each (applyDelta b) deltas w

def applyMarketOrders (b : BookRef) (side : Side) (level : Option LevelRef) (w : World P) : Result P :=
  match level with
  | none => .ok w
  | some level => applyMarketOrderSide b side level w

def setPartId (w : World P) (b : BookRef) (partId : String) : World P :=
  w.modifyBook b fun bk => { bk with hasPartId := decide (partId ≠ ""), partId := partId }

def applyBook (w : World P) (b deltaBook : BookRef) : Result P :=
  let delta := w.book deltaBook
  let sides := ((Outcome.ok (w.modifyBook b fun bk => { bk with symbol := delta.symbol })).andThen
    (applySide b .bid delta.bidLevels)).andThen (applySide b .ask delta.askLevels)
  let market := (sides.andThen (applyMarketOrders b .bid delta.bidMarketOrders)).andThen
    (applyMarketOrders b .ask delta.askMarketOrders)
  market.andThen fun w' =>
    if delta.hasPartId || (w'.book b).hasPartId then .ok (setPartId w' b delta.partId) else .ok w'

def clear (w : World P) (b : BookRef) (deleteLevels : Bool) : World P :=
  w.modifyBook b fun bk =>
    { bk with
      bidLevels := ∅, askLevels := ∅, isConsistent := true, needsReevaluation := false
      detachedLevels := if deleteLevels then [] else bk.detachedLevels
      detachedEntries := if deleteLevels then [] else bk.detachedEntries
      bidMarketOrders := if deleteLevels then none else bk.bidMarketOrders
      askMarketOrders := if deleteLevels then none else bk.askMarketOrders }

/-- `copy`: the book is cleared and the other book is applied to it. -/
def copy (w : World P) (b rhs : BookRef) : Result P :=
  let cleared := (clear w b true).modifyBook b fun bk =>
    { bk with
      isConsistent := (w.book rhs).isConsistent
      checkVisibility := (w.book rhs).checkVisibility
      needsReevaluation := (w.book rhs).needsReevaluation }
  applyBook cleared b rhs

end OpenMama.OrderBook.Book
