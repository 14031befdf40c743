import OpenMama.OrderBook.DeltaList

/-!
# The session of an order book listener

`MamdaOrderBookListenerImpl` around the processing of a message's levels: the sequence numbers, the consistency of the
book, the deltas collected for the handlers, the conflation timer, and the lock of the book. What a message does to
the book is the business of an `Engine`. Calls to the outside are logged. The handlers do not throw, the timer can be
created, and the quality of the book is OK throughout.
-/

namespace OpenMama.Listener

open OrderBook

/-- The fields of a message that `processBookMessage` reads itself, with the values of
`BookMsgFields::clear`. -/
structure Header where
  seqNum : UInt32 := 0
  senderId : UInt64 := 0
  msgNum : Int := 1
deriving DecidableEq

structure Message (M : Type) where
  header : Header := {}
  body : M

structure Recording (P : Type) where
  isBid : Bool
  price : P
  delta : BasicDelta
deriving DecidableEq

/-- What `createDelta` leaves: the book, the deltas it added in order, and its value, or that it threw. -/
structure Created (B P : Type) where
  book : B
  deltas : List (Recording P) := []
  complete : Option Bool := some true

/-- What a listener needs of a kind of book. -/
structure Engine (B M P T : Type) where
  clear : B → B
  createDelta : (isRecap : Bool) → Message M → B → Created B P
  cleanupDetached : B → B
  /-- The prices at the top of the book, 0 for a side without levels. -/
  top : B → T
  /-- One of the two prices differs by more than `MAMA_PRICE_EPSILON`. -/
  moved : T → T → Bool

abbrev Handler := Nat

inductive Call where
  | createDelta
  | gap (gapBegin gapEnd : UInt32)
  | onBookGap (handler : Handler)
  | onBookClear (handler : Handler)
  | onBookRecap (handler : Handler)
  | onBookDelta (handler : Handler) (seen : BasicDelta)
  /-- `seen` is what an iteration of the list gives in the handler. -/
  | onBookComplexDelta (handler : Handler) (seen : Option (List BasicDelta))
deriving DecidableEq

variable {B M P T : Type} [LinearOrder P]

/-- The deltas collected for the handlers: `mCurrentDeltaCount`, and the listener itself as a simple and
as a complex delta. -/
structure Collected (P : Type) [LinearOrder P] where
  count : Nat := 0
  simple : Option (Recording P) := none
  complex : DeltaList P := {}

namespace Collected

/-- A delta that was cleared has no level. A list that conflates would follow the NULL pointer. -/
def addToComplex (c : DeltaList P) : Option (Recording P) → DeltaList P
  | some r => c.add r.isBid r.price r.delta
  | none =>
    if c.keepDeltas && !c.conflateDeltas then { c with deltas := some (c.deltas.getD [] ++ [{}]) }
    else c

/-- `addDelta`: the first delta is kept as the simple one and moves into the list with the second. -/
def addDelta (d : Collected P) (r : Recording P) : Collected P :=
  match d.count with
  | 0 => { d with count := 1, simple := some r }
  | 1 =>
    { d with count := 2,
             complex := addToComplex (addToComplex d.complex.clear d.simple) (some r) }
  | n + 2 => { d with count := n + 3, complex := addToComplex d.complex (some r) }

def clearComplex (d : Collected P) : Collected P := { d with complex := d.complex.clear }

end Collected

structure Session (B P T : Type) [LinearOrder P] where
  handlers : List Handler := []
  updateInconsistentBook : Bool := false
  conflateDeltas : Bool := false
  flushConflationInterval : Bool := false
  generateDeltaMsgs : Bool := false
  book : B
  isConsistent : Bool := true
  eventSeqNum : UInt32 := 0
  gapBegin : UInt32 := 0
  gapEnd : UInt32 := 0
  prevSenderId : UInt64 := 0
  gotInitial : Bool := false
  ignoreUpdate : Bool := false
  deltas : Collected P := {}
  timerArmed : Bool := false
  topOfBook : T
  acquired : Nat := 0
  released : Nat := 0
  log : List Call := []

namespace Session

variable (l : Session B P T)

def acquireLock : Session B P T := { l with acquired := l.acquired + 1 }

def releaseLock : Session B P T := { l with released := l.released + 1 }

def call (calls : List Call) : Session B P T := { l with log := l.log ++ calls }

/-- One pass of the loop of `invokeDeltaHandlers`. The list is cleared after each handler. -/
def invokeDeltaHandler (handler : Handler) : Session B P T :=
  match l.deltas.count with
  | 0 => l
  | 1 => l.call [.onBookDelta handler ((l.deltas.simple.map (·.delta)).getD {})]
  | _ + 2 =>
    { l.call [.onBookComplexDelta handler l.deltas.complex.iterate] with
      deltas := l.deltas.clearComplex }

def invokeDeltaHandlers (E : Engine B M P T) (l : Session B P T) : Session B P T :=
  if l.deltas.count = 0 then l
  else
    let told := l.handlers.foldl invokeDeltaHandler l
    { told with
      book := if l.generateDeltaMsgs then told.book else E.cleanupDetached told.book
      deltas := { told.deltas with count := 0 } }

/-! ### Messages -/

def isGap (eventSeqNum : UInt32) (header : Header) : Bool :=
  header.seqNum != eventSeqNum && header.seqNum != 0 && header.seqNum != eventSeqNum + 1

def startMessage (E : Engine B M P T) (l : Session B P T) (header : Header) (isRecap : Bool) : Session B P T :=
  if header.msgNum = 1 then
    { l with
      deltas := if l.conflateDeltas && !isRecap then l.deltas else { l.deltas with count := 0 }
      book := if isRecap then E.clear l.book else l.book
      isConsistent := isRecap || l.isConsistent }
  else l

/-- The gap in front of a message. The book stays consistent when the sender has changed. -/
def reportGap (header : Header) : Session B P T :=
  { l.call (.gap (l.eventSeqNum + 1) (header.seqNum - 1) :: l.handlers.map .onBookGap) with
    gapBegin := l.eventSeqNum + 1
    gapEnd := header.seqNum - 1
    isConsistent := l.isConsistent && header.senderId != l.prevSenderId }

def checkNumber (header : Header) : Session B P T :=
  if header.seqNum = l.eventSeqNum then { l with ignoreUpdate := true }
  else if isGap l.eventSeqNum header then l.reportGap header
  else l

variable (E : Engine B M P T)

def processBookMessage (l : Session B P T) (header : Header) (isRecap : Bool) : Session B P T :=
  let started := startMessage E l header isRecap
  { (if isRecap then started else started.checkNumber header) with
    prevSenderId := header.senderId, eventSeqNum := header.seqNum }

def createDelta (l : Session B P T) (msg : Message M) (isRecap : Bool) : Session B P T :=
  let created := E.createDelta isRecap msg l.book
  { l.call [.createDelta] with
    book := created.book
    deltas := created.deltas.foldl Collected.addDelta l.deltas }

def handleClear (l : Session B P T) (msg : Message M) : Session B P T :=
  let processed := processBookMessage E l.acquireLock msg.header true
  let cleared := { processed with
    book := E.clear processed.book
    isConsistent := true
    deltas := { processed.deltas.clearComplex with simple := none } }
  { (cleared.call (cleared.handlers.map .onBookClear)).releaseLock with gotInitial := true }

/-- The end of `handleRecap`: the book is consistent unless `createDelta` threw, and the handlers are
told when it is complete. -/
def finishRecap (l : Session B P T) (header : Header) : Option Bool → Session B P T
  | none => l
  | some false => { l with isConsistent := true, prevSenderId := header.senderId }
  | some true =>
    { l.call (l.handlers.map .onBookRecap) with
      isConsistent := true, prevSenderId := header.senderId, deltas := l.deltas.clearComplex }

def handleRecap (E : Engine B M P T) (l : Session B P T) (msg : Message M) : Session B P T :=
  let processed := processBookMessage E l.acquireLock msg.header true
  let complete := (E.createDelta true msg processed.book).complete
  { ((processed.createDelta E msg true).finishRecap msg.header complete).releaseLock with
    gotInitial := true }

/-- The timer is created if there is none; otherwise `handleUpdate` returns at once. -/
def armTimer (l : Session B P T) : Session B P T :=
  if l.timerArmed then l else { l with timerArmed := true }.releaseLock

variable (E : Engine B M P T) (l : Session B P T)

/-- The conflating case of `handleUpdate`. With the flag, a change at the top of the book is sent at
once, and a timer that was waiting is dropped. -/
def conflateUpdate : Session B P T :=
  if l.flushConflationInterval && E.moved (E.top l.book) l.topOfBook then
    let sent := { l with topOfBook := E.top l.book }.invokeDeltaHandlers E
    if sent.timerArmed then { sent with timerArmed := false }.releaseLock else sent.armTimer
  else l.armTimer

/-- The end of `handleUpdate`: how the deltas get to the handlers. -/
def deliverUpdate : Session B P T :=
  if l.handlers.isEmpty then l.releaseLock
  else if l.updateInconsistentBook || l.isConsistent then
    if l.conflateDeltas && !l.deltas.complex.sendImmediately then l.conflateUpdate E
    else (l.invokeDeltaHandlers E).releaseLock
  else l.releaseLock

/-- `handleUpdate` after the number was looked at. -/
def applyUpdate (msg : Message M) : Session B P T :=
  if l.ignoreUpdate then { l with ignoreUpdate := false }.releaseLock
  else (l.createDelta E msg false).deliverUpdate E

def handleUpdate (msg : Message M) : Option (Session B P T) :=
  if l.gotInitial then
    some ((processBookMessage E l.acquireLock msg.header false).applyUpdate E msg)
  else none

def onTimer : Session B P T :=
  let locked := l.acquireLock
  let told :=
    if locked.deltas.count = 0 then locked
    else
      let sent := if locked.deltas.count = 1 ∨ locked.deltas.complex.getSize ≠ 0 then
          locked.invokeDeltaHandlers E
        else locked
      { sent with book := E.cleanupDetached sent.book }
  { told.releaseLock with timerArmed := false }

end Session

inductive Event (M : Type) where
  | recap (msg : Message M)
  | clear (msg : Message M)
  | update (msg : Message M)
  | timer

def Session.handle (E : Engine B M P T) (l : Session B P T) : Event M → Session B P T
  | .recap msg => l.handleRecap E msg
  | .clear msg => l.handleClear E msg
  | .update msg => (l.handleUpdate E msg).getD l
  | .timer => l.onTimer E

namespace Session

variable (E : Engine B M P T) (l : Session B P T)

theorem foldl_invokeDeltaHandler_book (handlers : List Handler) :
    (handlers.foldl invokeDeltaHandler l).book = l.book := by
  refine List.foldlRecOn (motive := fun r : Session B P T => r.book = l.book) handlers _ rfl fun r hr handler _ => ?_
  rw [← hr]
  unfold invokeDeltaHandler
  split <;> rfl

end Session

end OpenMama.Listener
