import OpenMama.Mama.Base
import OpenMama.Mama.Symbols
import OpenMama.DataQuality.Strategy
import Mathlib.Algebra.Order.Ring.Rat

/-!
# What the trade listener and the quote listener share

A listener caches a record of values, each with a field state that says whether the last message changed it. A message
is judged by its qualifier, its fields are stored, its count is compared with the last one, and a callback is invoked.
The member through which the code works, `mTradeCache` or `mQuoteListenerCache`, is a C++ reference bound to the
regular cache; an assignment to it copies the transient cache into the regular one.
-/

namespace OpenMama.TradeQuote

open Function

open DataQuality (MsgType)

/-! ### Records -/

inductive Kind where
  | text
  | time
  | price
  | real
  | number
  | char
  | flag
deriving DecidableEq

def Kind.Carrier : Kind → Type
  | .text => String
  | .time => DateTime
  | .price => Rat
  | .real => Rat
  | .number => Nat
  | .char => Char
  | .flag => Bool

instance Kind.decidableEqCarrier : (k : Kind) → DecidableEq k.Carrier
  | .text => inferInstanceAs (DecidableEq String)
  | .time => inferInstanceAs (DecidableEq DateTime)
  | .price => inferInstanceAs (DecidableEq Rat)
  | .real => inferInstanceAs (DecidableEq Rat)
  | .number => inferInstanceAs (DecidableEq Nat)
  | .char => inferInstanceAs (DecidableEq Char)
  | .flag => inferInstanceAs (DecidableEq Bool)

def Kind.zero : (k : Kind) → k.Carrier
  | .text => ""
  | .time => ({} : DateTime)
  | .price => (0 : Rat)
  | .real => (0 : Rat)
  | .number => (0 : Nat)
  | .char => '\x00'
  | .flag => false

def Kind.isZero (k : Kind) (v : k.Carrier) : Bool := decide (v = k.zero)

inductive FieldState where
  | notInitialised
  | notModified
  | modified
deriving DecidableEq

structure Record {Slot : Type} (kind : Slot → Kind) where
  value : (slot : Slot) → (kind slot).Carrier
  state : Slot → FieldState

namespace Record

variable {Slot : Type} {kind : Slot → Kind} [DecidableEq Slot] (r : Record kind)

def set (slot : Slot) (v : (kind slot).Carrier) : Record kind where
  value := update r.value slot v
  state := update r.state slot .modified

def put (slot : Slot) (v : (kind slot).Carrier) : Record kind :=
  { r with value := update r.value slot v }

def holds (slot : Slot) (v : (kind slot).Carrier) : Bool := decide (r.value slot = v)

omit [DecidableEq Slot] in
theorem holds_iff {r : Record kind} {slot : Slot} {v : (kind slot).Carrier} :
    r.holds slot v ↔ r.value slot = v :=
  decide_eq_true_iff

/-- `updateFieldStates`, which leaves out some of the fields. -/
def settle (listed : Slot → Bool) : Record kind :=
  { r with state := fun slot => if listed slot && r.state slot == .modified then .notModified else r.state slot }

/-- A value that is stored unless the record holds it is in the record afterwards either way. -/
theorem value_unlessHeld {C : Type} (record : C → Record kind) {c c₁ : C} {slot : Slot}
    {v : (kind slot).Carrier} {b : Bool} (hheld : b → (record c).holds slot v)
    (hset : record c₁ = (record c).set slot v) :
    (record (if b then c else c₁)).value = update (record c).value slot v := by
  split
  case isTrue hb =>
    have hv := holds_iff.mp (hheld hb)
    rw [← hv, update_eq_self]
  case isFalse => rw [hset, set]

@[simp] theorem value_set (slot : Slot) (v : (kind slot).Carrier) :
    (r.set slot v).value = update r.value slot v := rfl

theorem value_set_congr {r r' : Record kind} (h : r.value = r'.value) (slot : Slot) (v : (kind slot).Carrier) :
    (r.set slot v).value = (r'.set slot v).value := by
  rw [value_set, value_set, h]

@[simp] theorem value_put (slot : Slot) (v : (kind slot).Carrier) :
    (r.put slot v).value = update r.value slot v := rfl

omit [DecidableEq Slot] in
@[simp] theorem value_settle (r : Record kind) (listed : Slot → Bool) :
    (r.settle listed).value = r.value := rfl

end Record

structure MsgQual where
  bits : BitVec 16 := 0
deriving DecidableEq

namespace MsgQual

variable (q : MsgQual)

def isPossiblyDuplicate : Bool := q.bits.getLsbD 0
def isDefinitelyDuplicate : Bool := q.bits.getLsbD 1
def isOutOfSequence : Bool := q.bits.getLsbD 4

/-- `setIsDefinatelyDuplicate (true)` and `setIsPossiblyDuplicate (false)`. -/
def resolve : MsgQual := ⟨(q.bits ||| 0x0002#16) &&& ~~~0x0001#16⟩

end MsgQual

/-- A field of a message, with the value that its updater stores. A field whose type its updater does not
take is as good as absent. -/
structure Sent {Field : Type} (kind : Field → Kind) where
  field : Field
  value : (kind field).Carrier

structure Msg {Field : Type} (kind : Field → Kind) where
  type : MsgType
  msgQual : Option MsgQual := none
  symbols : Symbols := {}
  conflateCount : Option Nat := none
  fields : List (Sent kind) := []

namespace Msg

variable {Field : Type} {kind : Field → Kind} [DecidableEq Field]

/-- `tryU32`, `tryDateTime` and the like: the first field of the name. -/
def get? (field : Field) : List (Sent kind) → Option (kind field).Carrier
  | [] => none
  | sent :: rest => if h : sent.field = field then some (h ▸ sent.value) else get? field rest

/-- The last value a message carries in a field, which is the one that stays in the record. -/
def last? (field : Field) : List (Sent kind) → Option (kind field).Carrier
  | [] => none
  | sent :: rest => last? field rest <|> if h : sent.field = field then some (h ▸ sent.value) else none

omit [DecidableEq Field] in
def isTransient (msg : Msg kind) : Bool :=
  match msg.msgQual with
  | none => false
  | some q => !q.isDefinitelyDuplicate && (q.isOutOfSequence || q.isPossiblyDuplicate)

omit [DecidableEq Field] in
def isDuplicate (msg : Msg kind) : Bool :=
  match msg.msgQual with
  | none => false
  | some q => q.isDefinitelyDuplicate

end Msg

structure Settings where
  processPosDupAndOutOfSeqAsTransient : Bool := false
  resolvePossiblyDuplicate : Bool := false
  usePosDupAndOutOfSeqHandlers : Bool := false
  checkUpdatesForTrades : Bool := true
  hasHandler : Bool := true
deriving DecidableEq

/-- A callback of the handler: one of those for a message in order, a gap with its range, or one of those
for transient messages. -/
inductive Call (N : Type) where
  | normal (call : N)
  | gap (gapBegin gapEnd : Nat)
  | outOfSequence
  | possiblyDuplicate
deriving DecidableEq

structure Listener (C : Type) where
  regularCache : C
  transientCache : Option C := none
  msgQual : MsgQual := {}
  isTransientMsg : Bool := false
  ignoreUpdate : Bool := false

/-- The qualifier, whether the message is a duplicate, and whether it is transient. `seqNum` and `eventTime` are the
message's, `lastSeqNum` and `lastTime` those of the regular cache. -/
def evaluateMsgQual (cfg : Settings) (msgQual : Option MsgQual) (seqNum : Option Nat)
    (eventTime : Option DateTime) (lastSeqNum : Nat) (lastTime : DateTime) : MsgQual × Bool × Bool :=
  match msgQual with
  | none => ({}, false, false)
  | some q =>
    let older := match seqNum, eventTime with
      | some n, some t => decide (n < lastSeqNum) && decide (t.compare lastTime < 0)
      | _, _ => false
    let q := if q.isPossiblyDuplicate && cfg.resolvePossiblyDuplicate && older then q.resolve else q
    (q, q.isDefinitelyDuplicate,
      !q.isDefinitelyDuplicate && (q.isOutOfSequence || q.isPossiblyDuplicate))

/-- The symbol and the participant of a message are stored if it has them. -/
def storeSymbols {C : Type} (setSymbol setPartId : C → String → C) (c : C) (symbols : Symbols) : C :=
  let (symbol, partId) := symbols.getSymbolAndPartId
  let c := match symbol with
    | some symbol => setSymbol c symbol
    | none => c
  match partId with
  | some partId => setPartId c partId
  | none => c

def invokeTransientHandler {N : Type} (q : MsgQual) : List (Call N) :=
  (if q.isOutOfSequence then [.outOfSequence] else []) ++
    if q.isPossiblyDuplicate then [.possiblyDuplicate] else []

/-- The end of every handler function: the transient callbacks, or the one for the message. -/
def invoke {C N : Type} (cfg : Settings) (s : Listener C) (call : N) : List (Call N) :=
  if cfg.hasHandler then
    if cfg.usePosDupAndOutOfSeqHandlers && s.isTransientMsg then invokeTransientHandler s.msgQual
    else [.normal call]
  else []

/-- What `handleTradeMessage` and `handleQuoteMessage` do around a message that is no duplicate. For a transient one the
transient cache is copied into the regular one first, and cleared afterwards. -/
def handleMessage {C N : Type} (cfg : Settings) (newCache : C) (clearCache : C → C)
    (isDuplicateMsg : Bool) (handle : Listener C → Listener C × List (Call N)) (s : Listener C) :
    Listener C × List (Call N) :=
  if isDuplicateMsg then (s, [])
  else if s.isTransientMsg && cfg.processPosDupAndOutOfSeqAsTransient then
    let transientCache := s.transientCache.getD newCache
    let (s', calls) := handle
      { s with regularCache := transientCache, transientCache := some transientCache }
    ({ s' with transientCache := s'.transientCache.map clearCache }, calls)
  else handle s

/-- What `checkTradeCount` and `checkQuoteCount` find: the gap they report, and whether the message is
ignored as a duplicate. -/
structure CountCheck where
  gap : Option (Nat × Nat) := none
  ignore : Bool := false
deriving DecidableEq

/-- The comparison of the count received last, `tmp`, with the record's. A gap sets the record's count before the test
for a duplicate reads it. -/
def checkCount (checkForGap got : Bool) (count tmp : Nat) (conflateCount : Option Nat) : CountCheck :=
  let conflateCount := conflateCount.getD 1
  let gap := checkForGap && got && decide (0 < count) &&
    decide ((count + conflateCount) % 2 ^ 32 < tmp)
  let count' := if gap then tmp else count
  { gap := if gap then some ((count + conflateCount) % 2 ^ 32, tmp - 1) else none
    ignore := got && decide (0 < tmp) && decide (tmp = count') }

/-- What `checkTradeCount` and `checkQuoteCount` use of a cache: whether a count came, the record's count, the count
received last, and the members they store. -/
structure Counter (C : Type) where
  got : C → Bool
  count : C → Nat
  tmpCount : C → Nat
  setGap : C → Nat → Nat → C
  setCount : C → Nat → C
  count_setCount : ∀ c n, count (setCount c n) = n
  tmpCount_setCount : ∀ c n, tmpCount (setCount c n) = tmpCount c
  tmpCount_setGap : ∀ c gapBegin gapEnd, tmpCount (setGap c gapBegin gapEnd) = tmpCount c

namespace Counter

variable {C N : Type} (k : Counter C) (cfg : Settings) (s : Listener C) (conflateCount : Option Nat)

/-- The count of a message is checked and becomes that of the record. A transient message only moves the count. -/
def check (checkForGap : Bool) : Listener C × List (Call N) :=
  let c := s.regularCache
  if s.isTransientMsg then
    ({ s with ignoreUpdate := false, regularCache := k.setCount c (k.tmpCount c) }, [])
  else
    let check := checkCount checkForGap (k.got c) (k.count c) (k.tmpCount c) conflateCount
    let c' := match check.gap with
      | some (gapBegin, gapEnd) => k.setGap c gapBegin gapEnd
      | none => c
    ({ s with ignoreUpdate := check.ignore, regularCache := k.setCount c' (k.tmpCount c) },
      match check.gap with
      | some (gapBegin, gapEnd) => if cfg.hasHandler then [.gap gapBegin gapEnd] else []
      | none => [])

/-- The rest of a handler function is left out for a message that the check finds to be a duplicate. -/
def counted (rest : Listener C → Listener C × List (Call N)) : Listener C × List (Call N) :=
  let (s', calls) := k.check cfg s conflateCount true
  if s'.ignoreUpdate then ({ s' with ignoreUpdate := false }, calls)
  else ((rest s').1, calls ++ (rest s').2)

end Counter

end OpenMama.TradeQuote
