import Mathlib.Algebra.Order.Ring.Rat
import OpenMama.Common.DestroyHandle

/-!
# Image requests

`imagerequest.c`: a request for an image is sent, by way of the throttle or at once, and a reply timer is started with
it. A tick sends the request again, until the request has timed out. A timer and the inbox refer to the request
through a destroy handle. A timer that is close to its tick is not destroyed when the request is stopped.

The subscription, the transport and the throttle do not fail. Of the throttle's queue the model has the actions of
this request. A timer and an action carry the number of the request that they were made for.
-/

namespace OpenMama.ImageRequest

open DestroyHandle (Handle Exit)

structure Timer where
  id : Nat
  request : Nat
  start : ℚ
  interval : ℚ
  destroyed : Bool := false
deriving DecidableEq

def Timer.IsDue (timer : Timer) (now : ℚ) : Prop := timer.start + timer.interval ≤ now

instance (timer : Timer) (now : ℚ) : Decidable (timer.IsDue now) := by unfold Timer.IsDue; infer_instance

/-- An action in the queue of the throttle, to run `requestAction`. -/
structure Action where
  id : Nat
  request : Nat
deriving DecidableEq

/-- What is seen of a request: its messages, the retries that ticks use up, and the calls of the
subscription's callbacks. -/
inductive Output where
  | sent (request : Nat)
  | retried (request timer : Nat)
  | timedOut (request timer : Nat)
  | endOfInitials
deriving DecidableEq

/-- `imageReqImpl`, with the timers and the actions that it started. The initial count of the subscription and the image
count of its context move together. `fault`: a freed handle was used; `negative`: the handle's count went below zero. -/
structure World where
  replyTimer : Option Nat := none
  waitingForResponse : Bool := false
  p2pListener : Bool := true
  timeout : ℚ := 30
  retries : Int := 2
  msg : Bool := false
  reqCount : Int := 0
  pendingActions : List Nat := []
  isRecapRequest : Bool := false
  replyTimerStart : ℚ := 0
  imageCount : Nat := 0
  response : Handle := {}
  frees : Nat := 0
  fault : Bool := false
  negative : Bool := false
  destroyed : Bool := false
  timers : List Timer := []
  queue : List Action := []
  requests : Nat := 0
  started : Nat := 0
  dispatched : Nat := 0
  answers : Nat := 0
  lateTicks : Nat := 0
  log : List Output := []
deriving DecidableEq

namespace World

variable (w : World)

def retain : World :=
  if w.frees ≠ 0 then { w with fault := true }
  else { w with response := w.response.incrementRefCount.1 }

def release : World × Bool :=
  if w.frees ≠ 0 then ({ w with fault := true }, false)
  else
    let (response, owner, exit) := w.response.removeReference
    ({ w with
      response := response
      frees := w.frees + if exit = .frees then 1 else 0
      negative := w.negative || decide (response.numberReferences < 0) }, owner)

def disown : World :=
  if w.frees ≠ 0 then { w with fault := true }
  else
    let (response, exit) := w.response.destroyOwner
    { w with response := response, frees := w.frees + if exit = .frees then 1 else 0 }

def startReplyTimer (now : ℚ) : World :=
  match w.replyTimer with
  | some _ => w
  | none =>
    { w.retain with
      replyTimerStart := now
      replyTimer := some w.started
      started := w.started + 1
      timers := w.timers ++ [{ id := w.started, request := w.requests, start := now, interval := w.timeout }] }

def emit (out : Output) : World := { w with log := w.log ++ [out] }

def dropAction (action : Option Nat) : World :=
  { w with pendingActions := w.pendingActions.filter (fun id => some id ≠ action) }

def requestAction (now : ℚ) (action : Option Nat) : World :=
  let w := w.dropAction action
  if w.msg = false then w
  else
    let w := w.startReplyTimer now
    w.emit (.sent w.requests)

/-- An action is pushed to `mPendingActions` and given to `wombatThrottle_dispatch`. A throttle that is
off runs it at once. -/
def dispatch (now : ℚ) (immediate off : Bool) : World :=
  let action : Action := { id := w.dispatched, request := w.requests }
  let w := { w with dispatched := w.dispatched + 1, pendingActions := w.pendingActions ++ [action.id] }
  if off then w.requestAction now (some action.id)
  else { w with queue := if immediate then action :: w.queue else w.queue ++ [action] }

def accept (timeout : ℚ) (retries : Int) (isRecapRequest : Bool) : World :=
  { w with
    timeout := timeout
    retries := retries
    isRecapRequest := isRecapRequest
    waitingForResponse := true
    reqCount := 0
    msg := true
    imageCount := 0
    p2pListener := true
    requests := w.requests + 1 }

def sendRequest (now timeout : ℚ) (retries : Int) (throttle isRecapRequest off : Bool) : World :=
  let w := (w.accept timeout retries isRecapRequest).retain
  if throttle then w.dispatch now isRecapRequest off else w.requestAction now none

variable (now : ℚ)

/-- `imageRequestImpl_checkDestroyReplyTimer`. A timer that is due when it is destroyed has a tick in the
queue. -/
def checkDestroyReplyTimer : World :=
  match w.replyTimer with
  | none => w
  | some id =>
    if now - w.replyTimerStart + 1 / 10 < w.timeout then
      { w.release.1 with
        replyTimer := none
        timers := (w.timers.map (fun timer => if timer.id = id then { timer with destroyed := true } else timer)).filter
          (fun timer => timer.id ≠ id ∨ timer.IsDue now) }
    else w

/-- `imageRequest_stopWaitForResponse`. The actions stay in `mPendingActions`. -/
def stopWaitForResponse : World :=
  let w := w.checkDestroyReplyTimer now
  { w with
    queue := if w.pendingActions = [] then w.queue else w.queue.filter (fun action => action.id ∉ w.pendingActions)
    waitingForResponse := false
    isRecapRequest := false
    p2pListener := false
    msg := false }

/-- What `imageRequest_destroy` stops. Without a transport this is nothing, and there is no throttle to run an action. -/
def stopPending (transport : Bool) : World :=
  if transport then if w.waitingForResponse then w.stopWaitForResponse now else w
  else { w with queue := [] }

def destroy (transport : Bool) : World :=
  { (w.stopPending now transport).disown with p2pListener := false, msg := false, destroyed := true }

/-- `imageRequestImpl_processTimeout`, for the tick of a timer that was started for the given request. -/
def processTimeout (off : Bool) (timer : Nat) : World :=
  if w.p2pListener = false then w
  else if 0 < w.imageCount then
    let isRecap := w.isRecapRequest
    let w := w.stopWaitForResponse now
    if isRecap then w else w.emit .endOfInitials
  else if w.reqCount < w.retries then
    let w := { w with reqCount := w.reqCount + 1 }.emit (.retried w.requests timer)
    if w.waitingForResponse = false then w else (w.dispatch now true off).startReplyTimer now
  else
    let w := { w with reqCount := w.reqCount + 1 }
    let w := (w.stopWaitForResponse now).release.1
    w.emit (.timedOut w.requests timer)

def take (timer : Timer) : World :=
  { w with
    timers := w.timers.filter (·.id ≠ timer.id)
    lateTicks := w.lateTicks + if timer.destroyed then 1 else 0 }

def onReplyTimeout (timer : Timer) (now : ℚ) (off : Bool) : World :=
  let (w, owner) := (w.take timer).release
  if owner then { w with replyTimer := none }.processTimeout now off timer.request else w

/-- `imageRequestImpl_onInitialMessage`. The subscription counts the message if it is active and the message
is an image. -/
def onInitialMessage (counted : Bool) : World :=
  let (w, owner) := { w with answers := w.answers + 1 }.release
  if owner && counted then { w with imageCount := w.imageCount + 1 } else w

end World

inductive Op where
  | sendRequest (now timeout : ℚ) (retries : Int) (throttle isRecapRequest off : Bool)
  /-- The throttle runs the first of the queued actions. -/
  | fire (now : ℚ)
  /-- The tick of a timer. -/
  | tick (id : Nat) (now : ℚ) (off : Bool)
  /-- A message in the inbox. -/
  | image (counted : Bool)
  | stop (now : ℚ)
  /-- The subscription has a transport, or NULL in its place. -/
  | destroy (now : ℚ) (transport : Bool)
deriving DecidableEq

def Op.IsRequest : Op → Prop
  | .sendRequest .. => True
  | _ => False

/-- A tick comes from a timer that was started and did not tick, a message from an inbox that was not
destroyed. -/
def World.step (w : World) : Op → World
  | .sendRequest now timeout retries throttle isRecapRequest off =>
    w.sendRequest now timeout retries throttle isRecapRequest off
  | .fire now =>
    match w.queue with
    | [] => w
    | action :: queue => { w with queue := queue }.requestAction now (some action.id)
  | .tick id now off =>
    match w.timers.find? (·.id = id) with
    | none => w
    | some timer => w.onReplyTimeout timer now off
  | .image counted => if w.p2pListener then w.onInitialMessage counted else w
  | .stop now => w.stopWaitForResponse now
  | .destroy now transport => w.destroy now transport

end OpenMama.ImageRequest
