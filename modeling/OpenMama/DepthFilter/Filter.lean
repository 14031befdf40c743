import OpenMama.OrderBook.Iteration

/-!
# The depth filter

`MamdaOrderBookDepthFilter.cpp`: a listener that follows a full book and keeps a truncated one with the best levels of
each side, at most `mMaxDepth` of them. After the recap it goes by the number of levels in view and the price of the
last of them, and asks the full book only for the level that comes into view when another goes.

The truncated book holds the level objects of the full book. `delivered` is what the handlers were given so far. The
counters are not bounded: no book has `2 ^ 32` levels.
-/

namespace OpenMama.DepthFilter

open OrderBook

variable {P : Type} [LinearOrder P]

/-- `mBidDepth` and `mLastBidPrice`, and the same for asks. The constructor leaves the price
uninitialised. -/
structure Window (P : Type) where
  depth : Nat := 0
  lastPrice : P
deriving DecidableEq

inductive Event where
  | recap
  | clear
  | gap
  | delta (delta : BasicDelta)
  | complexDelta (deltas : List BasicDelta)
deriving DecidableEq

/-- `MamdaOrderBookDepthFilterImpl`, with its heap. `deltas` are the deltas saved since the handlers were last called,
`mCurrentDeltaCount` of them. -/
structure State (P : Type) [LinearOrder P] where
  world : World P
  truncatedBook : BookRef
  maxDepth : Nat
  processEntries : Bool := true
  bid : Window P
  ask : Window P
  deltas : List BasicDelta := []
  delivered : List Event := []

abbrev Result (P : Type) [LinearOrder P] := Outcome (State P) (BookException P)

namespace State

variable (s : State P)

def window : Side → Window P
  | .bid => s.bid
  | _ => s.ask

def setWindow (side : Side) (win : Window P) : State P :=
  match side with
  | .bid => { s with bid := win }
  | _ => { s with ask := win }

def setDepth (side : Side) (depth : Nat) : State P :=
  s.setWindow side { s.window side with depth := depth }

def setLastPrice (side : Side) (price : P) : State P :=
  s.setWindow side { s.window side with lastPrice := price }

def onTruncatedBook (op : World P → BookRef → LevelRef → Book.Result P) (l : LevelRef) : Result P :=
  let o := op s.world s.truncatedBook l
  ⟨{ s with world := o.state }, o.error⟩

def saveDelta (delta : BasicDelta) : State P := { s with deltas := s.deltas ++ [delta] }

def addDelta (delta : BasicDelta) : State P :=
  if s.processEntries then s.saveDelta delta
  else s.saveDelta { delta with entry := none, entryAction := .unknown }

/-- `addDeltasFromLevel`: one delta for each entry, the first of which adds the level. -/
def addDeltasFromLevel (level : LevelRef) : State P :=
  let w := s.world
  if s.processEntries then
    let fromEntry (x : EntryRef × Nat) : BasicDelta :=
      { priceLevel := some level, entry := some x.1, plDeltaSize := (w.entry x.1).size
        plAction := if x.2 = 0 then .add else .update, entryAction := .add }
    { s with
      world := PriceLevel.createEntries w level
      deltas := s.deltas ++ (PriceLevel.visibleEntries w level).zipIdx.map fromEntry }
  else
    s.saveDelta { priceLevel := some level, plDeltaSize := (w.level level).size, plAction := .add }

def invokeDeltaHandlers : State P :=
  match s.deltas with
  | [] => s
  | [delta] => { s with delivered := s.delivered ++ [.delta delta], deltas := [] }
  | deltas => { s with delivered := s.delivered ++ [.complexDelta deltas], deltas := [] }

def invokeRecapHandlers : State P := { s with delivered := s.delivered ++ [.recap] }
def invokeClearHandlers : State P := { s with delivered := s.delivered ++ [.clear] }
def invokeGapHandlers : State P := { s with delivered := s.delivered ++ [.gap] }

def outOfScope (side : Side) (price : P) : Prop :=
  Ahead side.descending (s.window side).lastPrice price ∧ (s.window side).depth = s.maxDepth

instance (side : Side) (price : P) : Decidable (s.outOfScope side price) := by
  unfold outOfScope
  infer_instance

end State

def decrement : Nat → Nat
  | 0 => 2 ^ 64 - 1
  | n + 1 => n

variable (side : Side)

/-- A level was added to a full view: the last level in view goes out of scope, and the one before it
is the last. -/
def evictLast (s : State P) : Result P :=
  let w := s.world
  let lastIter := (Book.sideEnd w s.truncatedBook side).prev (Book.isShown w)
  -- The member iterator was assigned to, which leaves out the beginning of the map.
  match lastIter.get?, (lastIter.prev? (Book.isShown w)).bind Cursor.get? with
  | some levelToDelete, some kept =>
    let passed := (s.setLastPrice side (w.level kept).price).saveDelta
      { priceLevel := some levelToDelete, plDeltaSize := (w.level levelToDelete).size
        plAction := .delete }
    passed.onTruncatedBook Book.deleteLevel levelToDelete
  | _, _ => .throw s .invalidIterator

/-- The case of an added level. `evicted` is what is done after a level went out of scope. -/
def processAdd (evicted : State P → State P) (event : BasicDelta) (deltaLevel : LevelRef) (s : State P) : Result P :=
  (s.onTruncatedBook Book.addLevel deltaLevel).andThen fun s' =>
    let win := s.window side
    let deltaPrice := (s.world.level deltaLevel).price
    if win.depth = s.maxDepth then
      (evictLast side (s'.addDelta event)).andThen fun s'' => .ok (evicted s'')
    else
      let last := if Ahead side.descending win.lastPrice deltaPrice then deltaPrice else win.lastPrice
      .ok ((s'.setWindow side { depth := win.depth + 1, lastPrice := last }).addDelta event)

/-- A level of the full book that is found at the vacated position comes into view; without one the
view is smaller. -/
def refill (depth : Nat) (found : Option LevelRef) (s : State P) : Result P :=
  match found with
  | some level =>
    (s.onTruncatedBook Book.addLevel level).andThen fun s' =>
      .ok ((s'.addDeltasFromLevel level).setLastPrice side (s'.world.level level).price)
  | none => .ok (s.setDepth side depth)

def processDelete (event : BasicDelta) (book : BookRef) (deltaLevel : LevelRef) (s : State P) : Result P :=
  (s.onTruncatedBook Book.deleteLevel deltaLevel).andThen fun s' =>
    let last := decrement (s.window side).depth
    let passed := s'.addDelta event
    refill side last (Book.getLevelAtPosition passed.world book last side) passed

def processDelta (evicted : State P → State P) (event : BasicDelta) (book : BookRef)
    (deltaLevel : LevelRef) (s : State P) : Result P :=
  if s.outOfScope side (s.world.level deltaLevel).price then .ok s
  else
    match event.plAction with
    | .update => .ok (s.addDelta event)
    | .add => processAdd side evicted event deltaLevel s
    | .delete => processDelete side event book deltaLevel s
    | .unknown => .ok s

def processBidDelta (event : BasicDelta) (book : BookRef) (deltaLevel : LevelRef) (s : State P) : Result P :=
  processDelta .bid id event book deltaLevel s

/-- Unlike the bid side, an ask level that goes out of scope has the handlers called at once. -/
def processAskDelta (event : BasicDelta) (book : BookRef) (deltaLevel : LevelRef) (s : State P) : Result P :=
  processDelta .ask State.invokeDeltaHandlers event book deltaLevel s

/-- The choice between the two, the same in `onBookDelta` and in the loop of `onBookComplexDelta`. -/
def processSideDelta (book : BookRef) (event : BasicDelta) (s : State P) : Result P :=
  match event.priceLevel with
  | none => .throw s .nullDereference
  | some deltaLevel =>
    match (s.world.level deltaLevel).side with
    | .bid => processBidDelta event book deltaLevel s
    | _ => processAskDelta event book deltaLevel s

def onBookDelta (event : BasicDelta) (book : BookRef) (s : State P) : Result P :=
  (processSideDelta book event s).andThen fun s' => .ok s'.invokeDeltaHandlers

def onBookComplexDelta (events : List BasicDelta) (book : BookRef) (s : State P) : Result P :=
  (Outcome.each (processSideDelta book) events s).andThen fun s' => .ok s'.invokeDeltaHandlers

def fillSide (side : Side) : Nat → Cursor LevelRef → State P → Result P × Cursor LevelRef
  | 0, iter, s => (.ok s, iter)
  | room + 1, iter, s =>
    match iter.get? with
    | none => (.ok s, iter)
    | some level =>
      let o := s.onTruncatedBook Book.addLevel level
      match o.error with
      | some _ => (o, iter)
      | none =>
        fillSide side room (iter.next (Book.isShown o.state.world))
          (o.state.setDepth side ((o.state.window side).depth + 1))

def recapSide (book : BookRef) (side : Side) (s : State P) : Result P :=
  let (filled, iter) := fillSide side s.maxDepth (Book.sideBegin s.world book side)
    (s.setDepth side 0)
  filled.andThen fun s' =>
    match (iter.prev? (Book.isShown s'.world)).bind Cursor.get? with
    | some level => .ok (s'.setLastPrice side (s'.world.level level).price)
    | none => .throw s' .invalidIterator

/-- `mTruncatedBook->clear (false)`: the levels belong to the full book and are not deleted. -/
def State.cleared (s : State P) : State P :=
  { s with world := Book.clear s.world s.truncatedBook false }

def onBookRecap (book : BookRef) (s : State P) : Result P :=
  ((recapSide book .bid s.cleared).andThen (recapSide book .ask)).andThen fun s' => .ok s'.invokeRecapHandlers

def onBookClear (s : State P) : Result P := .ok s.cleared.invokeClearHandlers

def onBookGap (s : State P) : Result P := .ok s.invokeGapHandlers

end OpenMama.DepthFilter
