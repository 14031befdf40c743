import OpenMama.Mama.Base
import Mathlib.Order.Compare

/-!
# Entries, price levels and books as objects

The order book is a web of pointers between books, levels, entries and deltas. A `World` is the heap, with the
counters from which new references are drawn. References are never reused, so a reference to an object that was
deleted reads what the object last held.

Prices are an arbitrary linear order (`std::map<double, …>` without NaN); sizes are exact integers. Publishing
(`mGenerateDeltas`), strict checking and sorting of entries by time are off, as they are by default.
-/

namespace OpenMama.OrderBook

open Function

inductive Side where
  | bid
  | ask
  | unknown
deriving DecidableEq

inductive Action where
  | add
  | update
  | delete
  | unknown
deriving DecidableEq

inductive OrderType where
  | limit
  | market
  | unknown
deriving DecidableEq

inductive Reason where
  | modify
  | cancel
  | trade
  | close
  | drop
  | misc
  | unknown
deriving DecidableEq

abbrev LevelRef := Nat
abbrev BookRef := Nat

/-- A pointer to an entry: an entry object of its own, or the placeholder `mReservedEntry` that is a
member of the level object. -/
inductive EntryRef where
  | obj (n : Nat)
  | reserved (level : LevelRef)
deriving DecidableEq

/-- `MamdaOrderBookEntry`, with the values of the default constructor. -/
structure Entry where
  id : Option String := none
  size : Int := 0
  time : DateTime := {}
  priceLevel : Option LevelRef := none
  sourceDeriv : Option SourceDerivative := none
  action : Action := .add
  status : Nat := 0
  reason : Reason := .unknown
  entryPositionReceived : Bool := false
deriving DecidableEq

namespace Entry

def copy (e : Entry) : Entry := { e with priceLevel := none, status := 0 }

def setDetails (e rhs : Entry) : Entry :=
  { e with size := rhs.size, time := rhs.time, status := rhs.status }

/-- `getSourceState`: an entry without a source is taken to be up. -/
def getSourceState (e : Entry) : SourceState :=
  match e.sourceDeriv with
  | some deriv => deriv.getState
  | none => .ok

def isVisible (e : Entry) : Bool := decide (e.getSourceState = .ok)

theorem isVisible_congr {e e' : Entry} (h : e'.sourceDeriv = e.sourceDeriv) : e'.isVisible = e.isVisible := by
  have hstate : e'.getSourceState = e.getSourceState := by
    unfold getSourceState
    rw [h]
  unfold isVisible
  rw [hstate]

def equalId (e : Entry) (id : Option String) : Bool := e.id.isSome && e.id == id

end Entry

/-- `MamdaOrderBookPriceLevel`, with the values of the constructor from a price and a side. `entries`
is NULL until something needs the list. -/
structure PriceLevel (P : Type) where
  price : P
  size : Int := 0
  sizeChange : Int := 0
  numEntries : Nat := 0
  numEntriesTotal : Nat := 0
  side : Side := .bid
  action : Action := .add
  time : DateTime := {}
  entries : Option (List EntryRef) := none
  book : Option BookRef := none
  orderType : OrderType := .limit
deriving DecidableEq

namespace PriceLevel

variable {P : Type} (level : PriceLevel P)

def entryList : List EntryRef := level.entries.getD []

def empty : Bool := level.entryList.isEmpty

def setSize (size : Int) : PriceLevel P :=
  { level with size := clampQuantity size }

def setSizeChange (size : Int) : PriceLevel P :=
  { level with sizeChange := clampQuantity size }

def setNumEntries (numEntries : Nat) : PriceLevel P :=
  { level with
    numEntries := numEntries
    numEntriesTotal := match level.entries with
      | some es => es.length
      | none => numEntries }

/-- `setDetails`: everything about the level but its price, side, action and entries. -/
def setDetails (level rhs : PriceLevel P) : PriceLevel P :=
  { level with
    sizeChange := clampQuantity (rhs.size - level.size)
    size := rhs.size
    numEntries := rhs.numEntries
    numEntriesTotal := rhs.numEntriesTotal
    time := rhs.time
    orderType := rhs.orderType }

end PriceLevel

/-- `MamdaOrderBook`: two ordered maps of levels, and at most one level of market orders a side. -/
structure Book (P : Type) [LinearOrder P] where
  symbol : String := ""
  partId : String := ""
  hasPartId : Bool := false
  bidLevels : Std.TreeMap P LevelRef := ∅
  askLevels : Std.TreeMap P LevelRef := ∅
  bidMarketOrders : Option LevelRef := none
  askMarketOrders : Option LevelRef := none
  bookTime : DateTime := {}
  sourceDeriv : Option SourceDerivative := none
  isConsistent : Bool := true
  checkVisibility : Bool := false
  needsReevaluation : Bool := false
  detachedLevels : List LevelRef := []
  detachedEntries : List EntryRef := []

namespace Book

variable {P : Type} [LinearOrder P] (book : Book P)

def levels : Side → Std.TreeMap P LevelRef
  | .bid => book.bidLevels
  | .ask => book.askLevels
  | .unknown => ∅

def setLevels (side : Side) (m : Std.TreeMap P LevelRef) : Book P :=
  match side with
  | .bid => { book with bidLevels := m }
  | .ask => { book with askLevels := m }
  | .unknown => book

/-- `getMarketOrdersSide`, for a side that has one. -/
def marketOrders : Side → Option LevelRef
  | .bid => book.bidMarketOrders
  | .ask => book.askMarketOrders
  | .unknown => none

def setMarketOrders (side : Side) (l : Option LevelRef) : Book P :=
  match side with
  | .bid => { book with bidMarketOrders := l }
  | .ask => { book with askMarketOrders := l }
  | .unknown => book

@[simp] theorem levels_unknown : book.levels .unknown = ∅ := rfl

theorem levels_setLevels {side : Side} (h : side ≠ .unknown) (book : Book P) (m : Std.TreeMap P LevelRef) (s : Side) :
    (book.setLevels side m).levels s = if s = side then m else book.levels s := by
  cases side <;> cases s <;> simp_all [levels, setLevels]

@[simp] theorem setLevels_checkVisibility (side : Side) (m : Std.TreeMap P LevelRef) :
    (book.setLevels side m).checkVisibility = book.checkVisibility := by
  cases side <;> rfl

@[simp] theorem setLevels_sourceDeriv (side : Side) (m : Std.TreeMap P LevelRef) :
    (book.setLevels side m).sourceDeriv = book.sourceDeriv := by
  cases side <;> rfl

@[simp] theorem setLevels_marketOrders (side s : Side) (m : Std.TreeMap P LevelRef) :
    (book.setLevels side m).marketOrders s = book.marketOrders s := by
  cases side <;> cases s <;> rfl

@[simp] theorem setMarketOrders_levels (side s : Side) (l : Option LevelRef) :
    (book.setMarketOrders side l).levels s = book.levels s := by
  cases side <;> cases s <;> rfl

@[simp] theorem setMarketOrders_checkVisibility (side : Side) (l : Option LevelRef) :
    (book.setMarketOrders side l).checkVisibility = book.checkVisibility := by
  cases side <;> rfl

theorem marketOrders_setMarketOrders {side : Side} (h : side ≠ .unknown) (book : Book P)
    (l : Option LevelRef) (s : Side) :
    (book.setMarketOrders side l).marketOrders s = if s = side then l else book.marketOrders s := by
  cases side <;> cases s <;> simp_all [marketOrders, setMarketOrders]

end Book

structure World (P : Type) [LinearOrder P] where
  entry : EntryRef → Entry
  level : LevelRef → PriceLevel P
  book : BookRef → Book P
  nextEntry : Nat
  nextLevel : LevelRef

namespace World

variable {P : Type} [LinearOrder P]

/-- Nothing allocated, and every book empty; `check b` is whether book `b` checks source states, and
`source b` the source derivative it was given. -/
def init [Inhabited P] (check : BookRef → Bool) (source : BookRef → Option SourceDerivative) : World P where
  entry := fun _ => {}
  level := fun _ => { price := default }
  book := fun b => { checkVisibility := check b, sourceDeriv := source b }
  nextEntry := 0
  nextLevel := 0

variable (w : World P)

def modifyEntry (e : EntryRef) (f : Entry → Entry) : World P :=
  { w with entry := update w.entry e (f (w.entry e)) }

def modifyLevel (l : LevelRef) (f : PriceLevel P → PriceLevel P) : World P :=
  { w with level := update w.level l (f (w.level l)) }

def modifyBook (b : BookRef) (f : Book P → Book P) : World P :=
  { w with book := update w.book b (f (w.book b)) }

def freshEntry : EntryRef := .obj w.nextEntry

def newEntry (e : Entry) : World P :=
  { w with entry := update w.entry w.freshEntry e, nextEntry := w.nextEntry + 1 }

/-- `new MamdaOrderBookPriceLevel (…)`; the pointer returned is the old `nextLevel`. -/
def newLevel (level : PriceLevel P) : World P :=
  { w with level := update w.level w.nextLevel level, nextLevel := w.nextLevel + 1 }

section Projections

variable (w : World P) (e e' : EntryRef) (l l' : LevelRef) (b b' : BookRef)
  (f : Entry → Entry) (g : PriceLevel P → PriceLevel P) (h : Book P → Book P)
  (ent : Entry) (lev : PriceLevel P)

@[simp] theorem modifyEntry_entry : (w.modifyEntry e f).entry e' = if e' = e then f (w.entry e) else w.entry e' :=
  update_apply _ _ _ _
@[simp] theorem modifyEntry_level : (w.modifyEntry e f).level = w.level := rfl
@[simp] theorem modifyEntry_book : (w.modifyEntry e f).book = w.book := rfl
@[simp] theorem modifyEntry_nextEntry : (w.modifyEntry e f).nextEntry = w.nextEntry := rfl
@[simp] theorem modifyEntry_nextLevel : (w.modifyEntry e f).nextLevel = w.nextLevel := rfl

@[simp] theorem modifyLevel_level : (w.modifyLevel l g).level l' = if l' = l then g (w.level l) else w.level l' :=
  update_apply _ _ _ _
@[simp] theorem modifyLevel_entry : (w.modifyLevel l g).entry = w.entry := rfl
@[simp] theorem modifyLevel_book : (w.modifyLevel l g).book = w.book := rfl
@[simp] theorem modifyLevel_nextEntry : (w.modifyLevel l g).nextEntry = w.nextEntry := rfl
@[simp] theorem modifyLevel_nextLevel : (w.modifyLevel l g).nextLevel = w.nextLevel := rfl

@[simp] theorem modifyBook_book : (w.modifyBook b h).book b' = if b' = b then h (w.book b) else w.book b' :=
  update_apply _ _ _ _
@[simp] theorem modifyBook_entry : (w.modifyBook b h).entry = w.entry := rfl
@[simp] theorem modifyBook_level : (w.modifyBook b h).level = w.level := rfl
@[simp] theorem modifyBook_nextEntry : (w.modifyBook b h).nextEntry = w.nextEntry := rfl
@[simp] theorem modifyBook_nextLevel : (w.modifyBook b h).nextLevel = w.nextLevel := rfl

@[simp] theorem newEntry_entry : (w.newEntry ent).entry e' = if e' = w.freshEntry then ent else w.entry e' :=
  update_apply _ _ _ _
@[simp] theorem newEntry_level : (w.newEntry ent).level = w.level := rfl
@[simp] theorem newEntry_book : (w.newEntry ent).book = w.book := rfl
@[simp] theorem newEntry_nextEntry : (w.newEntry ent).nextEntry = w.nextEntry + 1 := rfl
@[simp] theorem newEntry_nextLevel : (w.newEntry ent).nextLevel = w.nextLevel := rfl

@[simp] theorem newLevel_level : (w.newLevel lev).level l' = if l' = w.nextLevel then lev else w.level l' :=
  update_apply _ _ _ _
@[simp] theorem newLevel_entry : (w.newLevel lev).entry = w.entry := rfl
@[simp] theorem newLevel_book : (w.newLevel lev).book = w.book := rfl
@[simp] theorem newLevel_nextEntry : (w.newLevel lev).nextEntry = w.nextEntry := rfl
@[simp] theorem newLevel_nextLevel : (w.newLevel lev).nextLevel = w.nextLevel + 1 := rfl

end Projections

def checkState (l : LevelRef) : Bool :=
  match (w.level l).book with
  | some b => (w.book b).checkVisibility
  | none => false

def entryCheckState (e : EntryRef) : Bool :=
  match (w.entry e).priceLevel with
  | some l => w.checkState l
  | none => false

def counted (check : Bool) (e : EntryRef) : Bool := !check || (w.entry e).isVisible

end World

end OpenMama.OrderBook
