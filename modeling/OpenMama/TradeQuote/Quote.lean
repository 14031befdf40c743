import OpenMama.TradeQuote.Record

/-!
# The quote listener

`MamdaQuoteListener.cpp`. The record is the `QuoteListenerCache`: the values with their field states, and
the flags that say what the current message changed. The mid price is left out: its accessor computes
it.
-/

namespace OpenMama.TradeQuote.Quote

open DataQuality (MsgType)

/-! ### The record -/

inductive Slot where
  | symbol | partId | srcTime | actTime | lineTime | sendTime | pubId | bidPrice | bidSize
  | bidDepth | bidPartId | bidClosePrice | bidCloseDate | bidPrevClosePrice | bidPrevCloseDate
  | bidHigh | bidLow | askPrice | askSize | askDepth | askPartId | askClosePrice | askCloseDate
  | askPrevClosePrice | askPrevCloseDate | askHigh | askLow | eventSeqNum | eventTime | quoteDate
  | quoteQualStr | quoteQualNative | askTime | bidTime | askIndicator | bidIndicator
  | askUpdateCount | bidUpdateCount | askYield | bidYield | tmpQuoteCount | quoteCount | gapBegin
  | gapEnd | bidSizesList | askSizesList | shortSaleCircuitBreaker | shortSaleBidTick
deriving DecidableEq

def Slot.kind : Slot → Kind
  | .symbol | .partId | .pubId | .bidPartId | .askPartId | .quoteQualStr | .quoteQualNative
  | .askIndicator | .bidIndicator | .bidSizesList | .askSizesList => .text
  | .srcTime | .actTime | .lineTime | .sendTime | .bidCloseDate | .bidPrevCloseDate | .askCloseDate
  | .askPrevCloseDate | .eventTime | .quoteDate | .askTime | .bidTime => .time
  | .bidPrice | .bidClosePrice | .bidPrevClosePrice | .bidHigh | .bidLow | .askPrice
  | .askClosePrice | .askPrevClosePrice | .askHigh | .askLow => .price
  | .bidSize | .bidDepth | .askSize | .askDepth | .askYield | .bidYield => .real
  | .eventSeqNum | .askUpdateCount | .bidUpdateCount | .tmpQuoteCount | .quoteCount | .gapBegin
  | .gapEnd => .number
  | .shortSaleCircuitBreaker | .shortSaleBidTick => .char

/-- The fields that have an updater, by their names in `MamdaCommonFields` and `MamdaQuoteFields`. -/
inductive Field where
  | srcTime | activityTime | lineTime | pubId | sendTime | bidPrice | bidSize | bidDepth | bidPartId
  | bidClosePrice | bidCloseDate | bidPrevClosePrice | bidPrevCloseDate | bidHigh | bidLow
  | askPrice | askSize | askDepth | askPartId | askClosePrice | askCloseDate | askPrevClosePrice
  | askPrevCloseDate | askHigh | askLow | quoteSeqNum | quoteTime | quoteDate | quoteQual
  | quoteQualNative | quoteCount | shortSaleBidTick | bidTick | askTime | bidTime | askIndicator
  | bidIndicator | askUpdateCount | bidUpdateCount | askYield | bidYield | bidSizesList
  | askSizesList | shortSaleCircuitBreaker
deriving DecidableEq

def Field.slot : Field → Slot
  | .srcTime => .srcTime
  | .activityTime => .actTime
  | .lineTime => .lineTime
  | .pubId => .pubId
  | .sendTime => .sendTime
  | .bidPrice => .bidPrice
  | .bidSize => .bidSize
  | .bidDepth => .bidDepth
  | .bidPartId => .bidPartId
  | .bidClosePrice => .bidClosePrice
  | .bidCloseDate => .bidCloseDate
  | .bidPrevClosePrice => .bidPrevClosePrice
  | .bidPrevCloseDate => .bidPrevCloseDate
  | .bidHigh => .bidHigh
  | .bidLow => .bidLow
  | .askPrice => .askPrice
  | .askSize => .askSize
  | .askDepth => .askDepth
  | .askPartId => .askPartId
  | .askClosePrice => .askClosePrice
  | .askCloseDate => .askCloseDate
  | .askPrevClosePrice => .askPrevClosePrice
  | .askPrevCloseDate => .askPrevCloseDate
  | .askHigh => .askHigh
  | .askLow => .askLow
  | .quoteSeqNum => .eventSeqNum
  | .quoteTime => .eventTime
  | .quoteDate => .quoteDate
  | .quoteQual => .quoteQualStr
  | .quoteQualNative => .quoteQualNative
  | .quoteCount => .tmpQuoteCount
  | .shortSaleBidTick => .shortSaleBidTick
  | .bidTick => .shortSaleBidTick
  | .askTime => .askTime
  | .bidTime => .bidTime
  | .askIndicator => .askIndicator
  | .bidIndicator => .bidIndicator
  | .askUpdateCount => .askUpdateCount
  | .bidUpdateCount => .bidUpdateCount
  | .askYield => .askYield
  | .bidYield => .bidYield
  | .bidSizesList => .bidSizesList
  | .askSizesList => .askSizesList
  | .shortSaleCircuitBreaker => .shortSaleCircuitBreaker

def Field.kind (field : Field) : Kind := field.slot.kind

abbrev QuoteMsg := Msg Field.kind

structure QuoteListenerCache where
  record : Record Slot.kind
  lastGenericMsgWasQuote : Bool := false
  gotBidPrice : Bool := false
  gotAskPrice : Bool := false
  gotBidSize : Bool := false
  gotAskSize : Bool := false
  gotBidDepth : Bool := false
  gotAskDepth : Bool := false
  gotBidPartId : Bool := false
  gotAskPartId : Bool := false
  gotQuoteCount : Bool := false

namespace QuoteListenerCache

variable (c : QuoteListenerCache)

def set (slot : Slot) (v : slot.kind.Carrier) : QuoteListenerCache :=
  { c with record := c.record.set slot v }

def put (slot : Slot) (v : slot.kind.Carrier) : QuoteListenerCache :=
  { c with record := c.record.put slot v }

def quoteCount : Nat := c.record.value .quoteCount
def tmpQuoteCount : Nat := c.record.value .tmpQuoteCount

def new : QuoteListenerCache where
  record := { value := fun slot => slot.kind.zero, state := fun _ => .notInitialised }

def cleared : (slot : Slot) → slot.kind.Carrier
  | .shortSaleBidTick => 'Z'
  | .shortSaleCircuitBreaker => ' '
  | slot => slot.kind.zero

/-- `clearCache`, which leaves the participant of the ask alone. -/
def clearCache : QuoteListenerCache where
  record :=
    { value := fun slot => if slot = .askPartId then c.record.value slot else cleared slot
      state := fun slot =>
        if slot = .askPartId ∨ slot = .shortSaleBidTick then c.record.state slot else .notInitialised }

def resetFlags : QuoteListenerCache where
  record := c.record

/-- `updateFieldStates`, which leaves out three of the fields. -/
def updateFieldStates : QuoteListenerCache :=
  { c with record := c.record.settle fun slot =>
      !(slot == .symbol || slot == .askPartId || slot == .shortSaleBidTick) }

end QuoteListenerCache

/-- The updater of a field. Prices, sizes, depths and participants are stored, and noted, if they differ; the bid price
also if it was never stored before. -/
def onField (c : QuoteListenerCache) (sent : Sent Field.kind) : QuoteListenerCache :=
  match sent with
  | ⟨.bidPrice, v⟩ =>
    if c.record.holds .bidPrice v && c.record.state .bidPrice != .notInitialised then c
    else { c.set .bidPrice v with gotBidPrice := true }
  | ⟨.askPrice, v⟩ => if c.record.holds .askPrice v then c else { c.set .askPrice v with gotAskPrice := true }
  | ⟨.bidSize, v⟩ => if c.record.holds .bidSize v then c else { c.set .bidSize v with gotBidSize := true }
  | ⟨.askSize, v⟩ => if c.record.holds .askSize v then c else { c.set .askSize v with gotAskSize := true }
  | ⟨.bidDepth, v⟩ => if c.record.holds .bidDepth v then c else { c.set .bidDepth v with gotBidDepth := true }
  | ⟨.askDepth, v⟩ => if c.record.holds .askDepth v then c else { c.set .askDepth v with gotAskDepth := true }
  | ⟨.bidPartId, v⟩ => if c.record.holds .bidPartId v then c else { c.set .bidPartId v with gotBidPartId := true }
  | ⟨.askPartId, v⟩ => if c.record.holds .askPartId v then c else { c.set .askPartId v with gotAskPartId := true }
  | ⟨.quoteCount, v⟩ => { c.set .tmpQuoteCount v with gotQuoteCount := true }
  | ⟨.shortSaleCircuitBreaker, v⟩ =>
    if c.record.holds .shortSaleCircuitBreaker v then c else c.set .shortSaleCircuitBreaker v
  | ⟨.shortSaleBidTick, v⟩ => c.put .shortSaleBidTick v
  | ⟨.bidTick, v⟩ => c.put .shortSaleBidTick v
  | ⟨field, v⟩ => c.set field.slot v

variable (c : QuoteListenerCache)

theorem value_onField (sent : Sent Field.kind) :
    (onField c sent).record.value = Function.update c.record.value sent.field.slot sent.value := by
  rcases sent with ⟨⟨⟩, v⟩
  case bidPrice =>
    refine Record.value_unlessHeld QuoteListenerCache.record (fun h => ?_) rfl
    exact (Bool.and_eq_true_iff.mp h).1
  case askPrice | bidSize | askSize | bidDepth | askDepth | bidPartId | askPartId | shortSaleCircuitBreaker =>
    exact Record.value_unlessHeld QuoteListenerCache.record id rfl
  all_goals rfl

theorem gotQuoteCount_onField (sent : Sent Field.kind) :
    (onField c sent).gotQuoteCount = (decide (sent.field = .quoteCount) || c.gotQuoteCount) := by
  rcases sent with ⟨⟨⟩, v⟩
  all_goals
    first
      | rfl
      | exact apply_ite QuoteListenerCache.gotQuoteCount _ _ _ |>.trans (ite_self _)

def setSymbols (symbols : Symbols) : QuoteListenerCache :=
  storeSymbols (fun c symbol => c.set .symbol symbol) (fun c partId => c.set .partId partId) c symbols

def updateQuoteFields (msg : QuoteMsg) : QuoteListenerCache :=
  let read := msg.fields.foldl onField (setSymbols c msg.symbols).resetFlags
  { read with lastGenericMsgWasQuote :=
      read.gotBidSize || read.gotAskSize || read.gotBidDepth || read.gotAskDepth ||
        read.gotBidPrice || read.gotAskPrice || read.gotBidPartId || read.gotAskPartId }

inductive QuoteCall where
  | onQuoteRecap
  | onQuoteUpdate
  | onQuoteClosing
deriving DecidableEq

abbrev QuoteListener := Listener QuoteListenerCache
abbrev Result := QuoteListener × List (Call QuoteCall)

def new : QuoteListener where
  regularCache := QuoteListenerCache.new.clearCache

variable (cfg : Settings) (s : QuoteListener) (msg : QuoteMsg)

/-- The quote listener stores the counts without their field states. -/
def quoteCounter : Counter QuoteListenerCache where
  got := QuoteListenerCache.gotQuoteCount
  count := QuoteListenerCache.quoteCount
  tmpCount := QuoteListenerCache.tmpQuoteCount
  setGap c gapBegin gapEnd := (c.put .gapBegin gapBegin).put .gapEnd gapEnd
  setCount c n := c.put .quoteCount n
  count_setCount _ _ := rfl
  tmpCount_setCount _ _ := rfl
  tmpCount_setGap _ _ _ := rfl

def checkQuoteCount (checkForGap : Bool) : Result := quoteCounter.check cfg s msg.conflateCount checkForGap

def counted (rest : QuoteListener → Result) : Result := quoteCounter.counted cfg s msg.conflateCount rest

def handleRecap : Result :=
  let (s', calls) := checkQuoteCount cfg s msg false
  (s', calls ++ invoke cfg s' .onQuoteRecap)

/-- `handleQuote`: a closing quote has a callback of its own. -/
def handleQuote : Result :=
  counted cfg s msg fun s =>
    (s, invoke cfg s
      (if s.regularCache.record.holds .quoteQualStr "Closing" then .onQuoteClosing else .onQuoteUpdate))

/-- `handleUpdate`: an update is reported if it changed a part of the quote. -/
def handleUpdate : Result :=
  counted cfg s msg fun s =>
    if cfg.hasHandler && s.regularCache.lastGenericMsgWasQuote then
      ({ s with regularCache := { s.regularCache with lastGenericMsgWasQuote := false } },
        invoke cfg s .onQuoteUpdate)
    else (s, [])

def handleByType (s : QuoteListener) : Result :=
  let s := { s with regularCache := updateQuoteFields s.regularCache.updateFieldStates msg }
  match msg.type with
  | .initial | .recap | .preopening | .snapshot => handleRecap cfg s msg
  | .quote => handleQuote cfg s msg
  | .update | .trade => handleUpdate cfg s msg
  | _ => (s, [])

def handleQuoteMessage (cfg : Settings) (s : QuoteListener) (msg : QuoteMsg) : Result :=
  let (msgQual, isDuplicateMsg, isTransientMsg) := evaluateMsgQual cfg msg.msgQual
    (Msg.get? Field.quoteSeqNum msg.fields) (Msg.get? Field.quoteTime msg.fields)
    (s.regularCache.record.value .eventSeqNum) (s.regularCache.record.value .eventTime)
  handleMessage cfg QuoteListenerCache.new QuoteListenerCache.clearCache isDuplicateMsg
    (handleByType cfg msg) { s with msgQual := msgQual, isTransientMsg := isTransientMsg }

def handles : MsgType → Bool
  | .snapshot | .initial | .recap | .preopening | .quote | .update | .trade => true
  | _ => false

def onMsg : Result :=
  if handles msg.type then handleQuoteMessage cfg s msg else (s, [])

def step : QuoteListener := (onMsg cfg s msg).1

end OpenMama.TradeQuote.Quote
