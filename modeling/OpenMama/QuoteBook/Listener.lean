import OpenMama.Listener.Session
import OpenMama.OrderBook.Iteration
import OpenMama.TradeQuote.Record

/-!
# A book made of quotes

`MamdaQuoteToBookListener.cpp` shows the quotes of an instrument as an order book with at most one level a side. A
recap clears the book and adds the levels that the message gives. A quote or an update is compared with the cached
prices and sizes, and a side that changed is edited. The members in common with `MamdaOrderBookListener` are those of
a `Session`; its `book` is the heap.
-/

namespace OpenMama.QuoteBook

open OrderBook
open Listener (Session Handler Call Recording Collected)
open DataQuality (MsgType)
open TradeQuote (MsgQual)

structure Quoted (P : Type) [Zero P] where
  price : P := 0
  size : Int := 0
  gotPrice : Bool := false
  gotSize : Bool := false
deriving DecidableEq

structure Cache (P : Type) [Zero P] where
  bid : Quoted P := {}
  ask : Quoted P := {}
  quoteTime : DateTime := {}
  quoteSeqNum : UInt32 := 0
  tmpQuoteCount : UInt32 := 0
  quoteCount : UInt32 := 0
deriving DecidableEq

inductive QuoteField (P : Type) where
  | bidPrice (price : P)
  | bidSize (size : Int)
  | askPrice (price : P)
  | askSize (size : Int)
  | quoteTime (time : DateTime)
  | quoteSeqNum (seqNum : UInt32)
  | quoteCount (count : UInt32)
deriving DecidableEq

structure QuoteMsg (P : Type) where
  type : MsgType
  msgQual : Option MsgQual := none
  conflateCount : Option UInt16 := none
  fields : List (QuoteField P) := []
deriving DecidableEq

/-- The settings of the listener, and `MamaPrice::isZero`, which is true of the prices that are nearly
zero. -/
structure Settings (P : Type) where
  book : BookRef
  isZero : P → Bool
  quoteSizeMultiplier : Int := 1
  updateStaleBook : Bool := false
  resolvePossiblyDuplicate : Bool := false

namespace Quoted

variable {P : Type} [Zero P]

def setPrice [DecidableEq P] (q : Quoted P) (price : P) : Quoted P :=
  if q.price ≠ price then { q with price := price, gotPrice := true } else q

def setSize (q : Quoted P) (size : Int) : Quoted P :=
  if q.size ≠ size then { q with size := size, gotSize := true } else q

def got (q : Quoted P) : Bool := q.gotSize || q.gotPrice

def isBlank (isZero : P → Bool) (q : Quoted P) : Bool := decide (q.size = 0) || isZero q.price

end Quoted

namespace Cache

variable {P : Type} [Zero P]

def quoted (c : Cache P) : Side → Quoted P
  | .ask => c.ask
  | _ => c.bid

def onField [DecidableEq P] (multiplier : Int) (c : Cache P) : QuoteField P → Cache P
  | .bidPrice price => { c with bid := c.bid.setPrice price }
  | .bidSize size => { c with bid := c.bid.setSize (size * multiplier) }
  | .askPrice price => { c with ask := c.ask.setPrice price }
  | .askSize size => { c with ask := c.ask.setSize (size * multiplier) }
  | .quoteTime time => { c with quoteTime := time }
  | .quoteSeqNum seqNum => { c with quoteSeqNum := seqNum }
  | .quoteCount count => { c with tmpQuoteCount := count }

def updateQuoteFields [DecidableEq P] (multiplier : Int) (msg : QuoteMsg P) (c : Cache P) : Cache P :=
  msg.fields.foldl (onField multiplier)
    { c with
      bid := { c.bid with gotPrice := false, gotSize := false }
      ask := { c.ask with gotPrice := false, gotSize := false } }

def lastGenericMsgWasQuote (c : Cache P) : Bool := c.bid.got || c.ask.got

end Cache

/-! ### The listener -/

structure State (P : Type) [LinearOrder P] [Zero P] extends Session (World P) P Unit where
  cache : Cache P := {}
  isQualityOk : Bool := false

namespace State

variable {P : Type} [LinearOrder P] [Zero P]

def addDelta (l : LevelRef) (plDeltaSize : Int) (plAction : Action) (s : State P) : State P :=
  { s with
    deltas := s.deltas.addDelta
      { isBid := decide ((s.book.level l).side = .bid), price := (s.book.level l).price,
        delta := { priceLevel := some l, plDeltaSize := plDeltaSize, plAction := plAction } } }

def setLevel (l : LevelRef) (size : Int) (s : State P) : State P :=
  { s with book := s.book.modifyLevel l fun lev => { lev.setSize size with time := s.cache.quoteTime } }

def addLevel (c : Settings P) (side : Side) (s : State P) : State P :=
  let quoted := s.cache.quoted side
  let (w, l, _) := Book.findOrCreateLevel s.book c.book side quoted.price side
  (State.setLevel l quoted.size { s with book := w }).addDelta l quoted.size .add

def updateLevel (side : Side) (l : LevelRef) (s : State P) : State P :=
  let quoted := s.cache.quoted side
  (s.setLevel l quoted.size).addDelta l (quoted.size - (s.book.level l).size) .update

/-- `deleteLevel`. The size of the level is read after it was set to zero. -/
def deleteLevel (c : Settings P) (l : LevelRef) (s : State P) : State P :=
  let emptied := State.setLevel l 0 { s with book := Book.detach s.book c.book l }
  emptied.addDelta l (0 - (emptied.book.level l).size) .delete

def currentLevel (c : Settings P) (side : Side) (s : State P) : Option LevelRef :=
  (Book.sideBegin s.book c.book side).get?

def handleSide (c : Settings P) (side : Side) (s : State P) : State P :=
  let quoted := s.cache.quoted side
  if quoted.got then
    match s.currentLevel c side with
    | none => if quoted.isBlank c.isZero then s else s.addLevel c side
    | some l =>
      if quoted.isBlank c.isZero then s.deleteLevel c l
      else if quoted.price = (s.book.level l).price then s.updateLevel side l
      else (s.deleteLevel c l).addLevel c side
  else s

/-- What `checkQuoteCount` finds: the first and the last count that are missing. -/
def quoteGap (c : Cache P) (msg : QuoteMsg P) : Option (UInt32 × UInt32) :=
  let next := c.quoteCount + (msg.conflateCount.getD 1).toUInt32
  if 0 < c.tmpQuoteCount && 0 < c.quoteCount && next < c.tmpQuoteCount then
    some (next, c.tmpQuoteCount - 1)
  else none

def checkQuoteCount (msg : QuoteMsg P) (s : State P) : State P :=
  let counted := { s with cache := { s.cache with quoteCount := s.cache.tmpQuoteCount } }
  match quoteGap s.cache msg with
  | some (gapBegin, gapEnd) =>
    { counted with
      gapBegin := gapBegin, gapEnd := gapEnd, isConsistent := false
      log := s.log ++ s.handlers.map .onBookGap }
  | none => counted

variable (c : Settings P)

/-- `invokeDeltaHandlers`, whose loop is that of the other listener. -/
def invokeDeltaHandlers (s : State P) : State P :=
  if s.deltas.count = 0 then s
  else
    let told := s.handlers.foldl Session.invokeDeltaHandler s.toSession
    { s with
      toSession := { told with
        book := Book.cleanupDetached told.book c.book, deltas := { told.deltas with count := 0 } } }

def handleQuote (msg : QuoteMsg P) (s : State P) : State P :=
  let edited := ((s.checkQuoteCount msg).handleSide c .bid).handleSide c .ask
  if edited.updateInconsistentBook || edited.isConsistent then edited.invokeDeltaHandlers c else edited

def recapSide (side : Side) (s : State P) : State P :=
  if (s.cache.quoted side).got then s.addLevel c side else s

def clearForRecap (s : State P) : State P :=
  { s with
    book := Book.clear s.book c.book true, isConsistent := true
    cache := { s.cache with
      bid := { s.cache.bid with price := 0, size := 0 }
      ask := { s.cache.ask with price := 0, size := 0 } } }

variable (msg : QuoteMsg P) (s : State P)

def updateQuoteFields : State P :=
  { s with cache := s.cache.updateQuoteFields c.quoteSizeMultiplier msg }

def handleRecap : State P :=
  let read := ((s.clearForRecap c).updateQuoteFields c msg).checkQuoteCount msg
  let filled := (read.recapSide c .bid).recapSide c .ask
  { filled with
    isConsistent := true, isQualityOk := true
    log := filled.log ++ filled.handlers.map .onBookRecap
    deltas := filled.deltas.clearComplex }

/-- `evaluateMsgQual`: whether the message is a duplicate, and whether it is transient. -/
def evaluateMsgQual : Bool × Bool :=
  (TradeQuote.evaluateMsgQual { resolvePossiblyDuplicate := c.resolvePossiblyDuplicate } msg.msgQual
    (msg.fields.findSome? fun
      | .quoteSeqNum seqNum => some seqNum.toNat
      | _ => none)
    (msg.fields.findSome? fun
      | .quoteTime time => some time
      | _ => none)
    s.cache.quoteSeqNum.toNat s.cache.quoteTime).2

/-- The work of `handleMessage` on a message that is neither a duplicate nor transient. -/
def handleByType : State P :=
  match msg.type with
  | .initial | .recap | .preopening | .snapshot => s.handleRecap c msg
  | .quote => (s.updateQuoteFields c msg).handleQuote c msg
  | .update | .trade =>
    let read := s.updateQuoteFields c msg
    if read.cache.lastGenericMsgWasQuote then read.handleQuote c msg else read
  | _ => s

/-- `handleMessage`. A transient message only moves the count. -/
def handleMessage : State P :=
  match s.evaluateMsgQual c msg with
  | (true, _) => s
  | (false, true) =>
    match msg.fields.findSome? fun
      | .quoteCount count => some count
      | _ => none with
    | some count => { s with cache := { s.cache with quoteCount := count } }
    | none => s
  | (false, false) =>
    let locked := { s with toSession := s.toSession.acquireLock }
    let handled := State.handleByType c msg
      { locked with deltas := { locked.deltas with count := 0 } }
    { handled with toSession := handled.toSession.releaseLock }

def handles : MsgType → Bool
  | .snapshot | .initial | .recap => true
  | .preopening | .quote | .update | .trade => s.isQualityOk || c.updateStaleBook
  | _ => false

def onMsg (msg : QuoteMsg P) : State P :=
  if s.handles c msg.type then s.handleMessage c msg else s

end State

end OpenMama.QuoteBook
