import OpenMama.TradeQuote.Record

/-!
# The trade listener

`MamdaTradeListener.cpp`. The record is the `TradeCache`: the values with their field states, and the
flags that say what the current message carried. `mWasIrregular` and `mTmpSide`, which nothing reads, are
left out, and so are logging and the set-up of the field updaters.
-/

namespace OpenMama.TradeQuote.Trade

open DataQuality (MsgType)

/-! ### The record -/

inductive Slot where
  | symbol | partId | srcTime | actTime | lineTime | sendTime | pubId | isIrregular | lastPrice
  | lastVolume | lastPartId | lastTime | tradeDate | side | irregPrice | irregVolume | irregPartId
  | irregTime | accVolume | offExAccVolume | onExAccVolume | tradeDirection | netChange | pctChange
  | openPrice | highPrice | lowPrice | closePrice | prevClosePrice | prevCloseDate | adjPrevClose
  | tradeCount | blockVolume | blockCount | vwap | offExVwap | onExVwap | totalValue
  | offExTotalValue | onExTotalValue | stdDev | orderId | stdDevSum | stdDevSumSquares | tradeUnits
  | lastSeqNum | highSeqNum | lowSeqNum | totalVolumeSeqNum | currencyCode | uniqueId | corrTradeId
  | tradeAction | settlePrice | settleDate | offExchangeTradePrice | onExchangeTradePrice | tradeId
  | origTradeId | genericFlag | eventSeqNum | eventTime | tradePrice | tradeVolume | tradePartId
  | tradeQualStr | tradeQualNativeStr | sellersSaleDays | stopStockInd | tmpTradeCount
  | tradeExecVenue | isCancel | origSeqNum | origPrice | origVolume | origPartId | origQualStr
  | origQualNativeStr | origSellersSaleDays | origStopStockInd | corrPrice | corrVolume | corrPartId
  | corrQualStr | corrQualNativeStr | corrSellersSaleDays | corrStopStockInd | cancelTime | corrTime
  | shortSaleCircuitBreaker | origShortSaleCircuitBreaker | corrShortSaleCircuitBreaker | gapBegin
  | gapEnd | isIndicative
deriving DecidableEq

def Slot.kind : Slot → Kind
  | .symbol | .partId | .pubId | .lastPartId | .side | .irregPartId | .tradeUnits | .currencyCode
  | .uniqueId | .corrTradeId | .tradeAction | .tradeId | .origTradeId | .tradePartId | .tradeQualStr
  | .tradeQualNativeStr | .origPartId | .origQualStr | .origQualNativeStr | .corrPartId
  | .corrQualStr | .corrQualNativeStr => .text
  | .srcTime | .actTime | .lineTime | .sendTime | .lastTime | .tradeDate | .irregTime
  | .prevCloseDate | .settleDate | .eventTime | .cancelTime | .corrTime => .time
  | .lastPrice | .irregPrice | .netChange | .openPrice | .highPrice | .lowPrice | .closePrice
  | .prevClosePrice | .adjPrevClose | .settlePrice | .offExchangeTradePrice | .onExchangeTradePrice
  | .tradePrice | .origPrice | .corrPrice => .price
  | .lastVolume | .irregVolume | .accVolume | .offExAccVolume | .onExAccVolume | .pctChange
  | .blockVolume | .vwap | .offExVwap | .onExVwap | .totalValue | .offExTotalValue | .onExTotalValue
  | .stdDev | .stdDevSum | .stdDevSumSquares | .tradeVolume | .origVolume | .corrVolume => .real
  | .tradeDirection | .tradeCount | .blockCount | .orderId | .lastSeqNum | .highSeqNum | .lowSeqNum
  | .totalVolumeSeqNum | .eventSeqNum | .sellersSaleDays | .tmpTradeCount | .tradeExecVenue
  | .origSeqNum | .origSellersSaleDays | .corrSellersSaleDays | .gapBegin | .gapEnd => .number
  | .stopStockInd | .origStopStockInd | .corrStopStockInd | .shortSaleCircuitBreaker
  | .origShortSaleCircuitBreaker | .corrShortSaleCircuitBreaker => .char
  | .isIrregular | .genericFlag | .isCancel | .isIndicative => .flag

/-- The fields that have an updater, by their names in `MamdaCommonFields` and `MamdaTradeFields`. -/
inductive Field where
  | srcTime | activityTime | sendTime | lineTime | pubId | tradePrice | tradeDate | tradeSide
  | aggressorSide | tradeTime | lastDirection | netChange | pctChange | tradeSize | totalVolume
  | offExchangeTotalVolume | onExchangeTotalVolume | tradeUnits | highPrice | lowPrice | openPrice
  | closePrice | prevClosePrice | prevCloseDate | adjPrevClose | tradeSeqnum | tradeQualifier
  | tradePartId | totalValue | offExchangeTotalValue | onExchangeTotalValue | vwap | offExchangeVwap
  | onExchangeVwap | stdDev | stdDevSum | stdDevSumSquares | lastSeqnum | highSeqnum | lowSeqnum
  | totalVolumeSeqnum | currencyCode | saleCondition | sellersSaleDays | isIrregular | irregPartId
  | irregPrice | irregSize | irregTime | origPartId | origPrice | origSize | origSeqnum
  | origTradeQualifier | origSaleCondition | origSellersSaleDays | origStopStockInd | stopStockInd
  | corrPartId | corrPrice | corrSize | corrTradeQualifier | corrSaleCondition | corrSellersSaleDays
  | corrStopStockInd | corrTime | cancelTime | corrTradeId | tradeId | origTradeId | tradeCount
  | blockCount | blockVolume | orderId | uniqueId | tradeAction | tradeExecVenue | settlePrice
  | settleDate | offExchangeTradePrice | onExchangeTradePrice | genericFlag
  | shortSaleCircuitBreaker | origShortSaleCircuitBreaker | corrShortSaleCircuitBreaker
deriving DecidableEq

def Field.slot : Field → Slot
  | .srcTime => .srcTime
  | .activityTime => .actTime
  | .sendTime => .sendTime
  | .lineTime => .lineTime
  | .pubId => .pubId
  | .tradePrice => .lastPrice
  | .tradeDate => .tradeDate
  | .tradeSide => .side
  | .aggressorSide => .side
  | .tradeTime => .lastTime
  | .lastDirection => .tradeDirection
  | .netChange => .netChange
  | .pctChange => .pctChange
  | .tradeSize => .lastVolume
  | .totalVolume => .accVolume
  | .offExchangeTotalVolume => .offExAccVolume
  | .onExchangeTotalVolume => .onExAccVolume
  | .tradeUnits => .tradeUnits
  | .highPrice => .highPrice
  | .lowPrice => .lowPrice
  | .openPrice => .openPrice
  | .closePrice => .closePrice
  | .prevClosePrice => .prevClosePrice
  | .prevCloseDate => .prevCloseDate
  | .adjPrevClose => .adjPrevClose
  | .tradeSeqnum => .eventSeqNum
  | .tradeQualifier => .tradeQualStr
  | .tradePartId => .lastPartId
  | .totalValue => .totalValue
  | .offExchangeTotalValue => .offExTotalValue
  | .onExchangeTotalValue => .onExTotalValue
  | .vwap => .vwap
  | .offExchangeVwap => .offExVwap
  | .onExchangeVwap => .onExVwap
  | .stdDev => .stdDev
  | .stdDevSum => .stdDevSum
  | .stdDevSumSquares => .stdDevSumSquares
  | .lastSeqnum => .lastSeqNum
  | .highSeqnum => .highSeqNum
  | .lowSeqnum => .lowSeqNum
  | .totalVolumeSeqnum => .totalVolumeSeqNum
  | .currencyCode => .currencyCode
  | .saleCondition => .tradeQualNativeStr
  | .sellersSaleDays => .sellersSaleDays
  | .isIrregular => .isIrregular
  | .irregPartId => .irregPartId
  | .irregPrice => .irregPrice
  | .irregSize => .irregVolume
  | .irregTime => .irregTime
  | .origPartId => .origPartId
  | .origPrice => .origPrice
  | .origSize => .origVolume
  | .origSeqnum => .origSeqNum
  | .origTradeQualifier => .origQualStr
  | .origSaleCondition => .origQualNativeStr
  | .origSellersSaleDays => .origSellersSaleDays
  | .origStopStockInd => .origStopStockInd
  | .stopStockInd => .stopStockInd
  | .corrPartId => .corrPartId
  | .corrPrice => .corrPrice
  | .corrSize => .corrVolume
  | .corrTradeQualifier => .corrQualStr
  | .corrSaleCondition => .corrQualNativeStr
  | .corrSellersSaleDays => .corrSellersSaleDays
  | .corrStopStockInd => .corrStopStockInd
  | .corrTime => .corrTime
  | .cancelTime => .cancelTime
  | .corrTradeId => .corrTradeId
  | .tradeId => .tradeId
  | .origTradeId => .origTradeId
  | .tradeCount => .tmpTradeCount
  | .blockCount => .blockCount
  | .blockVolume => .blockVolume
  | .orderId => .orderId
  | .uniqueId => .uniqueId
  | .tradeAction => .tradeAction
  | .tradeExecVenue => .tradeExecVenue
  | .settlePrice => .settlePrice
  | .settleDate => .settleDate
  | .offExchangeTradePrice => .offExchangeTradePrice
  | .onExchangeTradePrice => .onExchangeTradePrice
  | .genericFlag => .genericFlag
  | .shortSaleCircuitBreaker => .shortSaleCircuitBreaker
  | .origShortSaleCircuitBreaker => .origShortSaleCircuitBreaker
  | .corrShortSaleCircuitBreaker => .corrShortSaleCircuitBreaker

def Field.kind (field : Field) : Kind := field.slot.kind

abbrev TradeMsg := Msg Field.kind

structure TradeCache where
  record : Record Slot.kind
  lastGenericMsgWasTrade : Bool := false
  gotTradeTime : Bool := false
  gotTradePrice : Bool := false
  gotTradeSize : Bool := false
  gotTradeCount : Bool := false
  isSnapshot : Bool := false

namespace TradeCache

variable (c : TradeCache)

def set (slot : Slot) (v : slot.kind.Carrier) : TradeCache :=
  { c with record := c.record.set slot v }

def put (slot : Slot) (v : slot.kind.Carrier) : TradeCache :=
  { c with record := c.record.put slot v }

def isIrregular : Bool := c.record.value .isIrregular
def tradeCount : Nat := c.record.value .tradeCount
def tmpTradeCount : Nat := c.record.value .tmpTradeCount

def new : TradeCache where
  record := { value := fun slot => slot.kind.zero, state := fun _ => .notInitialised }

def isKept : Slot → Bool
  | .symbol | .partId | .srcTime | .actTime | .lineTime | .pubId | .lastPrice | .lastPartId | .lastTime
  | .tradeDate | .irregPrice => true
  | _ => false

def cleared : (slot : Slot) → slot.kind.Carrier
  | .tradeDirection => (99 : Nat)
  | .stopStockInd => ' '
  | .origStopStockInd => ' '
  | .corrStopStockInd => ' '
  | .shortSaleCircuitBreaker => ' '
  | .origShortSaleCircuitBreaker => ' '
  | .corrShortSaleCircuitBreaker => ' '
  | slot => slot.kind.zero

def clearCache : TradeCache where
  record :=
    { value := fun slot => if isKept slot then c.record.value slot else cleared slot
      state := fun _ => .notInitialised }

def resetFlags : TradeCache where
  record := c.record
  isSnapshot := c.isSnapshot

def updateFieldStates : TradeCache :=
  { c with record := c.record.settle fun _ => true }

end TradeCache

/-- A field of an official trade makes the trade regular again, unless the message is an image. -/
def regular (c : TradeCache) : TradeCache := if c.isSnapshot then c else c.put .isIrregular false

/-- A field of an irregular trade that is not blank makes the trade irregular, unless the message is an
image. -/
def irregular (c : TradeCache) (blank : Bool) : TradeCache :=
  if !c.isSnapshot && !blank && !c.isIrregular then c.set .isIrregular true else c

def hasTime (t : DateTime) : Bool := t.hints.testBit 1

variable (c : TradeCache)

def onField (sent : Sent Field.kind) : TradeCache :=
  match sent with
  | ⟨.tradePrice, v⟩ => regular { c.set .lastPrice v with gotTradePrice := true }
  | ⟨.tradeSize, v⟩ => regular { c.set .lastVolume v with gotTradeSize := true }
  | ⟨.tradePartId, v⟩ => regular (c.set .lastPartId v)
  | ⟨.tradeTime, v⟩ => if hasTime v then { c.set .lastTime v with gotTradeTime := true } else c
  | ⟨.irregPrice, v⟩ => irregular { c.set .irregPrice v with gotTradePrice := true } (Kind.isZero .price v)
  | ⟨.irregSize, v⟩ => irregular { c.set .irregVolume v with gotTradeSize := true } (Kind.isZero .real v)
  | ⟨.irregPartId, v⟩ => irregular (c.set .irregPartId v) (Kind.isZero .text v)
  | ⟨.irregTime, v⟩ => irregular { c.set .irregTime v with gotTradeTime := true } (!hasTime v)
  | ⟨.tradeCount, v⟩ => { c.set .tmpTradeCount v with gotTradeCount := true }
  | ⟨.shortSaleCircuitBreaker, v⟩ =>
    if c.record.holds .shortSaleCircuitBreaker v then c else c.set .shortSaleCircuitBreaker v
  | ⟨.origShortSaleCircuitBreaker, v⟩ =>
    if c.record.holds .origShortSaleCircuitBreaker v then c
    else c.set .origShortSaleCircuitBreaker v
  | ⟨.corrShortSaleCircuitBreaker, v⟩ =>
    if c.record.holds .corrShortSaleCircuitBreaker v then c
    else c.set .corrShortSaleCircuitBreaker v
  | ⟨field, v⟩ => c.set field.slot v

def setSymbols (symbols : Symbols) : TradeCache :=
  storeSymbols (fun c symbol => c.set .symbol symbol) (fun c partId => c.set .partId partId) c symbols

/-- The values of the trade the message reports: those of the irregular or of the official trade. -/
def setTrade : TradeCache :=
  let value := c.record.value
  if c.isIrregular then
    (((c.set .tradePrice (value .irregPrice)).set .tradeVolume (value .irregVolume)).set .tradePartId
      (value .irregPartId)).set .eventTime
        (if DateTime.empty (value .irregTime) then value .lastTime else value .irregTime)
  else
    (((c.set .tradePrice (value .lastPrice)).set .tradeVolume (value .lastVolume)).set .tradePartId
      (value .lastPartId)).set .eventTime (value .lastTime)

def updateTradeFields (msg : TradeMsg) : TradeCache :=
  let read := setTrade (msg.fields.foldl onField (setSymbols c msg.symbols).resetFlags)
  { read with lastGenericMsgWasTrade := read.gotTradeTime || read.gotTradePrice || read.gotTradeSize }

/-! ### The listener -/

inductive TradeCall where
  | onTradeRecap
  | onTradeReport
  | onTradeCancelOrError
  | onTradeCorrection
  | onTradeClosing
deriving DecidableEq

abbrev TradeListener := Listener TradeCache
abbrev Result := TradeListener × List (Call TradeCall)

def new : TradeListener where
  regularCache := TradeCache.new.clearCache

variable (cfg : Settings) (s : TradeListener) (msg : TradeMsg)

def tradeCounter : Counter TradeCache where
  got := TradeCache.gotTradeCount
  count := TradeCache.tradeCount
  tmpCount := TradeCache.tmpTradeCount
  setGap c gapBegin gapEnd := (c.set .gapBegin gapBegin).set .gapEnd gapEnd
  setCount c n := c.set .tradeCount n
  count_setCount _ _ := rfl
  tmpCount_setCount _ _ := rfl
  tmpCount_setGap _ _ _ := rfl

def checkTradeCount (checkForGap : Bool) : Result := tradeCounter.check cfg s msg.conflateCount checkForGap

def counted (rest : TradeListener → Result) : Result := tradeCounter.counted cfg s msg.conflateCount rest

def handleRecap : Result :=
  let (s', calls) := checkTradeCount cfg s msg false
  (s', calls ++ invoke cfg s' .onTradeRecap)

def handleTrade : Result :=
  counted cfg s msg fun s => (s, invoke cfg s .onTradeReport)

/-- The event happened at the time of the cancel or of the correction, if the record has one. -/
def eventAt (c : TradeCache) (time : DateTime) : TradeCache :=
  if time.empty then c else c.set .eventTime time

variable (cfg : Settings) (s : TradeListener)

def handleCancelOrError (msg : TradeMsg) (isCancel : Bool) : Result :=
  counted cfg s msg fun s =>
    let c := s.regularCache.put .isCancel isCancel
    let s' := { s with regularCache := eventAt c (c.record.value .cancelTime) }
    (s', invoke cfg s' .onTradeCancelOrError)

def handleCorrection (msg : TradeMsg) : Result :=
  counted cfg s msg fun s =>
    let c := s.regularCache
    let s' := { s with regularCache := eventAt c (c.record.value .corrTime) }
    (s', invoke cfg s' .onTradeCorrection)

/-- `handleClosing`, which does not check the count. -/
def handleClosing : Result := (s, invoke cfg s .onTradeClosing)

/-- `handleUpdate`: an update that is not transient is reported if it looks like a trade. -/
def handleUpdate (msg : TradeMsg) : Result :=
  counted cfg s msg fun s =>
    (s, if cfg.usePosDupAndOutOfSeqHandlers && s.isTransientMsg || s.regularCache.lastGenericMsgWasTrade then
      invoke cfg s .onTradeReport else [])

def handleByType (msg : TradeMsg) (s : TradeListener) : Result :=
  let s := { s with regularCache := updateTradeFields s.regularCache.updateFieldStates msg }
  match msg.type with
  | .initial | .recap | .preopening | .snapshot => handleRecap cfg s msg
  | .trade => handleTrade cfg s msg
  | .cancel => handleCancelOrError cfg s msg true
  | .error => handleCancelOrError cfg s msg false
  | .correction => handleCorrection cfg s msg
  | .closing => handleClosing cfg s
  | .update => handleUpdate cfg s msg
  | _ => (s, [])

def handleTradeMessage (s : TradeListener) (msg : TradeMsg) : Result :=
  let (msgQual, isDuplicateMsg, isTransientMsg) := evaluateMsgQual cfg msg.msgQual
    (Msg.get? Field.tradeSeqnum msg.fields) (Msg.get? Field.tradeTime msg.fields)
    (s.regularCache.record.value .eventSeqNum) (s.regularCache.record.value .eventTime)
  handleMessage cfg TradeCache.new TradeCache.clearCache isDuplicateMsg (handleByType cfg msg)
    { s with msgQual := msgQual, isTransientMsg := isTransientMsg }

def isImage : MsgType → Bool
  | .snapshot | .initial | .recap => true
  | _ => false

def handles (cfg : Settings) : MsgType → Bool
  | .snapshot | .initial | .recap | .preopening | .trade | .cancel | .error | .correction
  | .closing => true
  | .update => cfg.checkUpdatesForTrades
  | _ => false

def onMsg (cfg : Settings) (s : TradeListener) (msg : TradeMsg) : Result :=
  let s := { s with regularCache := { s.regularCache with isSnapshot := isImage msg.type } }
  if handles cfg msg.type then handleTradeMessage cfg s msg else (s, [])

def step (cfg : Settings) (s : TradeListener) (msg : TradeMsg) : TradeListener := (onMsg cfg s msg).1

end OpenMama.TradeQuote.Trade
