import Mathlib.Algebra.Group.Nat.Defs
import Mathlib.Tactic.Common

/-!
# The data quality strategy

`dqstrategyplugin.c` and `dqstrategy.c`: what is done with the sequence number and the sender of each message of a
subscription. The state has the `mamaDqContext`, the two fields of the `dqStrategyImpl`, and what was done to the
outside so far.

The subscription is not a group subscription. A callback that is not registered is called without effect. Statistics,
logging and the transport's own quality are left out.
-/

namespace OpenMama.DataQuality

inductive MsgType where
  | update | initial | cancel | error | correction | closing | recap | delete | expire | snapshot
  | preopening | quote | trade | order | bookInitial | bookUpdate | bookClear | bookRecap
  | bookSnapshot | notPermissioned | notFound | endOfInitials | wombatRequest | wombatCalc | secStatus
  | ddictSnapshot | misc | tibrv | featureSet | syncRequest | refresh | worldView | newsQuery | null
  | entitlementsRefresh | unknown
deriving DecidableEq

inductive MsgStatus where
  | ok | lineDown | noSubscribers | badSymbol | expired | timeout | misc | stale | tibrvStatus
  | notEntitled | notFound | possiblyStale | notPermissioned | topicChange | bandwidthExceeded
  | duplicate | unknown
deriving DecidableEq

inductive DqState where
  | ok
  | notEstablished
  | waitingForRecap
  | possiblyStale
  | duplicate
  | staleNoRecap
  | waitingForRecapAfterFt
deriving DecidableEq

/-- A message, as far as the strategy reads it. An absent sequence number or sender id reads 0. -/
structure Msg where
  type : MsgType := .update
  seqNum : UInt32 := 0
  senderId : UInt64 := 0
  conflateCount : Option UInt16 := none
  status : MsgStatus := .ok
  total : Nat := 0
  msgNum : Nat := 0
deriving DecidableEq

/-- The settings of the transport: `mDQStratScheme`, `mFTStratScheme`, `mPreInitialScheme` and
`mPreRecapCacheEnabled`. -/
structure Transport where
  ignoreDups : Bool := false
  ftWaitForRecap : Bool := false
  preInitialOnGap : Bool := true
  preRecapCache : Bool := false
deriving DecidableEq

inductive Quality where
  | ok
  | stale
  | duplicate
deriving DecidableEq

/-- What is done to the outside. `staleData` is the entry into `handleStaleData`. -/
inductive Event where
  | gap
  | quality (q : Quality)
  | staleData
  | recapRequest
  | forward (msg : Msg)
deriving DecidableEq

/-- `mCache` and `mCurCacheIdx`: a ring of messages. A NULL cache has no slots. The size is an `int`. -/
structure Cache where
  slots : List (Option Msg) := []
  cur : Nat := 0
  cur_le : cur ≤ slots.length := by decide
  small : slots.length < 2 ^ 31 := by decide
deriving DecidableEq

namespace Cache

def clear (c : Cache) : Cache where
  slots := c.slots.map fun _ => none
  cur := 0
  cur_le := Nat.zero_le _
  small := by simpa using c.small

def put (c : Cache) (msg : Msg) : Cache where
  slots := c.slots.set c.cur (some msg)
  cur := if c.cur + 1 ≥ c.slots.length then 0 else c.cur + 1
  cur_le := by
    rw [List.length_set]
    split
    · exact Nat.zero_le _
    · omega
  small := by simpa using c.small

/-- The slots as `fillGap` visits them: a ring that is not full yet from its beginning, a full one from the oldest
message on. -/
def oldestFirst (c : Cache) : List (Option Msg) :=
  match c.slots[c.cur]? with
  | some (some _) => c.slots.drop c.cur ++ c.slots.take c.cur
  | _ => c.slots.take c.cur

end Cache

/-- `mamaDqContext`, with the two fields of the strategy, `mInitialArrived` of the subject context, and what was done so
far. -/
structure Strategy where
  seqNum : UInt32 := 0
  dqState : DqState := .notEstablished
  cache : Cache := {}
  senderId : UInt64 := 0
  doNotForward : Bool := false
  setCacheMsgStale : Bool := false
  tryToFillGap : Bool := false
  recoverGaps : Bool := true
  initialArrived : Bool := false
  events : List Event := []
deriving DecidableEq

namespace Strategy

variable (s : Strategy)

def emit (e : Event) : Strategy := { s with events := s.events ++ [e] }

def clearCache : Strategy := { s with cache := s.cache.clear }

def resetDqContext (seqNum : UInt32) (senderId : UInt64) : Strategy :=
  { s with seqNum := seqNum, senderId := senderId }

def resetDqState : Strategy :=
  if s.dqState ≠ .ok ∧ s.dqState ≠ .notEstablished then
    { s.emit (.quality .ok) with dqState := .ok }
  else { s with dqState := .ok }

def sendRecapRequest : Strategy :=
  { s with dqState := .waitingForRecap }.emit .recapRequest

/-- `handleStaleData`. The second case sends the request without the quality callback. -/
def handleStaleData : Strategy :=
  let s := s.emit .staleData
  if s.dqState ≠ .waitingForRecap ∧ s.dqState ≠ .possiblyStale then
    s.sendRecapRequest.emit (.quality .stale)
  else if s.dqState = .possiblyStale then s.sendRecapRequest
  else s

/-- The loop of `fillGap` over the cached messages: what is forwarded, and whether the gap was filled. `next` is looked
for. -/
def fillLoop (stale : Bool) (stop : UInt32) : UInt32 → List (Option Msg) → List Msg × Bool
  | _, [] => ([], false)
  | _, none :: _ => ([], false)
  | next, some msg :: slots =>
    if msg.seqNum = next then
      let sent := { msg with status := if stale then .stale else msg.status }
      if next + 1 = stop then ([sent], true)
      else
        let rest := fillLoop stale stop (next + 1) slots
        (sent :: rest.1, rest.2)
    else fillLoop stale stop next slots

/-- `fillGap`. The mark on the cached messages is taken away when the gap could not be filled. -/
def fillGap (stop : UInt32) : Strategy × Bool :=
  let found := fillLoop s.setCacheMsgStale stop (s.seqNum + 1) s.cache.oldestFirst
  ({ s with events := s.events ++ found.1.map .forward,
            setCacheMsgStale := found.2 && s.setCacheMsgStale }, found.2)

def handleFTTakeover (msg : Msg) (recoverOnRecap : Bool) : Strategy :=
  if recoverOnRecap then { s with seqNum := msg.seqNum, dqState := .waitingForRecapAfterFt }
  else s.resetDqState.resetDqContext msg.seqNum msg.senderId

end Strategy

def MsgType.canConflate : MsgType → Bool
  | .secStatus | .bookUpdate => false
  | _ => true

def Msg.conflateCnt (msg : Msg) : UInt16 :=
  if msg.type.canConflate then msg.conflateCount.getD 1 else 1

def waiting (d : DqState) : Bool := d = .waitingForRecap || d = .waitingForRecapAfterFt

/-- No sequence number yet, a message without one, or the next one, for the context as it was before the message. -/
def isNext (ctxState : DqState) (ctxSeqNum : UInt32) (msg : Msg) : Bool :=
  ctxState = .notEstablished || msg.seqNum = 0 || msg.seqNum = ctxSeqNum + msg.conflateCnt.toUInt32

def reportGap (msg : Msg) (s : Strategy) : Strategy × Msg :=
  ((s.emit .gap).handleStaleData, { msg with status := .stale })

def checkGap (t : Transport) (msg : Msg) (s : Strategy) : Strategy × Msg :=
  if t.preInitialOnGap && s.tryToFillGap then
    let tried := { s with tryToFillGap := false }.fillGap msg.seqNum
    if tried.2 then ({ tried.1.clearCache with seqNum := msg.seqNum }, msg)
    else reportGap msg tried.1.clearCache
  else reportGap msg s

def checkLate (t : Transport) (ctxState : DqState) (ctxSeqNum : UInt32) (msg : Msg) (s : Strategy) : Strategy × Msg :=
  if t.ignoreDups && msg.seqNum ≤ ctxSeqNum && !waiting s.dqState then
    ({ s with doNotForward := true }, msg)
  else if msg.seqNum = ctxSeqNum ∧ ctxState ≠ .waitingForRecapAfterFt then
    ({ s with dqState := .duplicate }.emit (.quality .duplicate), { msg with status := .duplicate })
  else if ctxState = .waitingForRecapAfterFt then ({ s with doNotForward := true }, msg)
  else checkGap t msg s

/-- The update case. The source also asks that the state is not one of the two waiting states, with an "or" between
them, so the answer is always yes. -/
def checkUpdate (t : Transport) (ctxState : DqState) (ctxSeqNum : UInt32) (msg : Msg) (s : Strategy) : Strategy × Msg :=
  if isNext ctxState ctxSeqNum msg
      && (ctxState != .waitingForRecap || ctxState != .waitingForRecapAfterFt) then
    let s := if s.tryToFillGap then { s with tryToFillGap := false }.clearCache else s
    if msg.status = .ok then ({ s.resetDqState with seqNum := msg.seqNum }, msg)
    else checkLate t ctxState ctxSeqNum msg s
  else checkLate t ctxState ctxSeqNum msg s

def isOldRecap (ctxSeqNum : UInt32) (msg : Msg) (s : Strategy) : Bool :=
  match msg.type with
  | .recap => msg.seqNum ≤ ctxSeqNum && !waiting s.dqState
  | .bookRecap =>
    if msg.seqNum = 0 ∧ ctxSeqNum > 0 then s.dqState != .waitingForRecapAfterFt
    else msg.seqNum ≤ ctxSeqNum && !waiting s.dqState
  | _ => false

def checkRecap (t : Transport) (ctxSeqNum : UInt32) (msg : Msg) (s : Strategy) : Strategy × Msg :=
  if t.ignoreDups && isOldRecap ctxSeqNum msg s then ({ s with doNotForward := true }, msg)
  else
    let s := if t.preRecapCache then { s with tryToFillGap := true } else s
    ({ s.resetDqState.resetDqContext msg.seqNum msg.senderId with doNotForward := false }, msg)

def checkInitial (t : Transport) (ctxSeqNum : UInt32) (msg : Msg) (s : Strategy) : Strategy × Msg :=
  let s := { s with tryToFillGap := true }
  if msg.status = .possiblyStale ∨ msg.status = .stale then
    ({ s with dqState := .staleNoRecap }.resetDqContext msg.seqNum msg.senderId, msg)
  else checkRecap t ctxSeqNum msg s

def checkType (t : Transport) (ctxState : DqState) (ctxSeqNum : UInt32) (msg : Msg) (s : Strategy) : Strategy × Msg :=
  match msg.type with
  | .initial | .bookInitial => checkInitial t ctxSeqNum msg s
  | .recap | .bookRecap => checkRecap t ctxSeqNum msg s
  | .ddictSnapshot => (s, msg)
  | _ => checkUpdate t ctxState ctxSeqNum msg s

def isTakeover (s : Strategy) (msg : Msg) : Bool :=
  s.senderId != 0 && msg.senderId != 0 && s.senderId != msg.senderId

/-- `checkSeqNum`: the strategy afterwards, and the message, whose status may have been changed. -/
def checkSeqNum (t : Transport) (msg : Msg) (s : Strategy) : Strategy × Msg :=
  if s.recoverGaps then
    let fresh := { s with doNotForward := false }
    if isTakeover s msg then
      if t.ftWaitForRecap then
        checkType t s.dqState s.seqNum msg
          ({ fresh with doNotForward := true }.handleFTTakeover msg true)
      else (fresh.handleFTTakeover msg false, msg)
    else checkType t s.dqState s.seqNum msg fresh
  else (s, msg)

namespace Strategy

/-- The loop of `applyPreInitialCache` below `mCurCacheIdx`. It stops at a message beyond the next one and passes over
earlier ones. -/
def applyLoop : List (Option Msg) → Strategy → Strategy
  | [], s => s
  | none :: _, s => s
  | some msg :: slots, s =>
    if msg.seqNum = s.seqNum + 1 then
      applyLoop slots { s.emit (.forward msg) with seqNum := msg.seqNum }
    else if msg.seqNum > s.seqNum + 1 then s
    else applyLoop slots s

def applyPreInitialCache (s : Strategy) : Strategy := applyLoop (s.cache.slots.take s.cache.cur) s

def checkAndForward (t : Transport) (msg : Msg) (s : Strategy) : Strategy :=
  let checked := checkSeqNum t msg s
  if checked.1.doNotForward then checked.1 else checked.1.emit (.forward checked.2)

def opensCache (t : Transport) : MsgType → Bool
  | .initial | .bookInitial => true
  | .recap | .bookRecap => t.preRecapCache
  | _ => false

def processPointToPointMessage (t : Transport) (msg : Msg) (s : Strategy) : Strategy :=
  let s := if msg.total = 0 ∨ msg.msgNum = msg.total then { s with initialArrived := true } else s
  let s := s.checkAndForward t msg
  if !t.preInitialOnGap && opensCache t msg.type then s.applyPreInitialCache.clearCache else s

end Strategy

def isInitialMessageOrRecap : MsgType → Bool
  | .initial | .snapshot | .ddictSnapshot | .recap | .bookInitial | .bookSnapshot | .bookRecap => true
  | _ => false

/-- The messages that no image can make good for are not put aside while a recap is awaited. -/
def MsgType.isFinal : MsgType → Bool
  | .delete | .expire | .unknown => true
  | _ => false

/-- `dqstrategyMamaPlugin_subscriptionPreMsgHook`. That the subscription still expects its initial is
known to the subscription. -/
def subscriptionPreMsgHook (t : Transport) (expectingInitial : Bool) (msg : Msg) (s : Strategy) : Strategy :=
  if isInitialMessageOrRecap msg.type then s.processPointToPointMessage t msg
  else if (expectingInitial && !s.initialArrived)
      || (s.dqState = .waitingForRecap && t.preRecapCache && !msg.type.isFinal) then
    let s := if s.dqState = .waitingForRecap && t.preRecapCache then
        { s with setCacheMsgStale := true } else s
    { s with cache := s.cache.put msg }
  else
    match msg.type with
    | .refresh | .delete | .expire | .notPermissioned | .notFound | .unknown => s
    | _ => s.checkAndForward t msg

end OpenMama.DataQuality
