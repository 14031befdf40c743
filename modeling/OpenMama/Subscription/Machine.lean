import Mathlib.Tactic.Common

/-!
# The state machine of a subscription

`subscription.c`. A subscription is driven by the calls of its user, by the throttle and by the bridge. Every call
holds `mCreateDestroyLock`, so a call is one step; `mamaSubscription_destroy` is two. The record has the members that
the calls read and write, and what they leave in the surroundings. `fault` is set when the code uses an object that
was freed, or removes an action that is NULL; nothing is said about what comes after.
-/

namespace OpenMama.Subscription

inductive State where
  | allocated
  | setup
  | activating
  | activated
  | deactivating
  | deactivated
  | destroying
  | destroyed
  | deallocating
  | deallocated
  | reactivating
deriving DecidableEq

/-- `mType`: a basic subscription, or one of those for market data. -/
inductive SubscType where
  | basic
  | marketData
deriving DecidableEq

inductive Status where
  | ok
  | invalidArg
  | subscriptionInvalidType
  | subscriptionInvalidState
  | failed
deriving DecidableEq

structure World where
  type : SubscType := .marketData
  /-- `mSubscMsgType` is one of the two snapshot types. -/
  snapshot : Bool := false
  state : State := .allocated
  /-- `mSubscBridge` is not NULL. -/
  subscBridge : Bool := false
  /-- `mAction` is not NULL. -/
  action : Bool := false
  referenceCount : Int := 0
  /-- How often `mCreateDestroyLock`, which is recursive, is held. -/
  createDestroyLock : Nat := 0
  freed : Bool := false
  /-- The actions on the throttle that would create the subscription. -/
  queued : Nat := 0
  /-- The bridge subscriptions that the bridge was asked to destroy and has not called back for. -/
  outstanding : Nat := 0
  /-- What the subscription has added to the open objects of the queue. -/
  openObjects : Int := 0
  /-- How often the user's `onDestroy` was invoked. -/
  onDestroy : Nat := 0
  /-- How often `mamaSubscription_destroy` began to destroy the subscription. -/
  destroys : Nat := 0
  fault : Bool := false
deriving DecidableEq

/-- Whether `mamaTransport_addSubscription` and the bridge do what the create action asks for. -/
structure Creation where
  added : Bool := true
  bridged : Bool := true
deriving DecidableEq

/-- How `mamaSubscription_activate_internal` ends: it fails, the throttle queues the action, or there is no
throttling and the action is run at once. -/
inductive Throttling where
  | fails
  | queues
  | runs (creation : Creation)
deriving DecidableEq

namespace World

variable (w : World)

def lock : World := { w with createDestroyLock := w.createDestroyLock + 1 }

def unlock : World := { w with createDestroyLock := w.createDestroyLock - 1 }

def release : World := { w with referenceCount := w.referenceCount - 1 }

def use (f : World → World) : World := if w.freed then { w with fault := true } else f w

def subscriptionInitialize (c : Creation) (w : World) : World :=
  let w := if !w.snapshot && c.bridged then
      { w with subscBridge := true, referenceCount := w.referenceCount + 1 }
    else w
  { w with openObjects := w.openObjects + 1 }

def completeMarketDataInitialisation (c : Creation) (w : World) : World × Status :=
  let w := w.lock
  let w := { w with action := false }
  let (w, ret) : World × Status :=
    if w.state = .activating then
      if w.snapshot || c.added then ({ w.subscriptionInitialize c with state := .activated }, .ok) else (w, .failed)
    else (w, .ok)
  (w.unlock, ret)

def activateInternal (t : Throttling) (w : World) : World × Status :=
  match t with
  | .fails => (w, .failed)
  | .queues => ({ w with action := true, queued := w.queued + 1 }, .ok)
  | .runs c => ((w.completeMarketDataInitialisation c).1, .ok)

def activate (t : Throttling) (w : World) : World × Status :=
  let w := w.lock
  let (w, ret) : World × Status :=
    if w.type = .basic then (w, .subscriptionInvalidType)
    else
      match w.state with
      | .deactivated | .setup => { w with state := .activating }.activateInternal t
      | .activated | .activating | .reactivating => (w, .ok)
      | .deactivating => ({ w with state := .reactivating }, .ok)
      | _ => (w, .subscriptionInvalidState)
  (w.unlock, ret)

/-- `mamaSubscription_setup`; `ok` says whether `mamaSubscription_setupBasic` gets to its end. -/
def setup (snapshot ok : Bool) (w : World) : World × Status :=
  let w := w.lock
  let (w, ret) : World × Status :=
    if w.state = .allocated ∨ w.state = .destroyed then
      if w.type = .basic then (w, .invalidArg)
      else if ok then ({ w with snapshot := snapshot, state := .setup }, .ok)
      else (w, .failed)
    else (w, .subscriptionInvalidState)
  (w.unlock, ret)

/-- `mamaSubscriptionImpl_createBasic`, with `mamaSubscriptionImpl_completeBasicInitialisation`. -/
def createBasic (bridged : Bool) (w : World) : World × Status :=
  let w := w.lock
  let (w, ret) : World × Status :=
    if w.state = .allocated ∨ w.state = .destroyed then
      let w := { w with type := .basic, state := .activating }
      if bridged then
        ({ w with
            subscBridge := true
            openObjects := w.openObjects + 1
            state := .activated
            referenceCount := w.referenceCount + 1 }, .ok)
      else (w, .failed)
    else (w, .subscriptionInvalidState)
  (w.unlock, ret)

def deactivateInternal : World :=
  if w.subscBridge then { w with subscBridge := false, outstanding := w.outstanding + 1 } else w

/-- `mamaSubscription_deactivate`. The result of a call that stops a reactivation is not set. -/
def deactivate : World × Status :=
  let w := w.lock
  let (w, ret) : World × Status :=
    match w.type, w.state with
    | .marketData, .activating =>
      if w.action then ({ w with action := false, queued := w.queued - 1, state := .deactivated }, .ok)
      else ({ w with fault := true }, .ok)
    | .marketData, .reactivating => ({ w with state := .deactivating }, .subscriptionInvalidType)
    | .marketData, .activated =>
      let w := { w with state := .deactivating }.deactivateInternal
      if w.snapshot then ({ w with openObjects := w.openObjects - 1, state := .deactivated }, .ok) else (w, .ok)
    | .basic, .activated => ({ w with state := .deactivating }.deactivateInternal, .ok)
    | _, .deactivating | _, .deactivated => (w, .ok)
    | _, _ => (w, .subscriptionInvalidState)
  (w.unlock, ret)

def implDeallocate : World :=
  if w.referenceCount ≠ 0 ∧ 0 < w.referenceCount - 1 then w.release
  else { w with state := .deallocated, freed := true }

/-- `mamaSubscription_deallocate`. The lock is kept if the object may have been freed. -/
def deallocate : World × Status :=
  let w := w.lock
  match w.state with
  | .destroying => ({ w with state := .deallocating }.unlock, .ok)
  | .allocated | .destroyed => (w.implDeallocate, .ok)
  | _ => (w.unlock, .subscriptionInvalidState)

/-- `mamaSubscriptionImpl_invokeDestroyedCallback`, for a user whose `onDestroy` calls
`mamaSubscription_deallocate` or does not. -/
def invokeDestroyedCallback (deallocates : Bool) (w : World) : World :=
  let w := { w with onDestroy := w.onDestroy + 1 }
  if deallocates then w.deallocate.1 else w

/-- What `mamaSubscription_destroy` does after it has called `mamaSubscription_deactivate`. -/
def finishDestroy (deallocates : Bool) (w : World) : World × Status :=
  let w := w.lock
  match w.state with
  | .setup | .deactivated =>
    let w := { w with state := .destroyed, destroys := w.destroys + 1 }
    (w.unlock.invokeDestroyedCallback deallocates, .ok)
  | .deactivating => ({ w with state := .destroying, destroys := w.destroys + 1 }.unlock, .ok)
  | .destroying | .destroyed | .allocated => (w.unlock, .ok)
  | _ => (w.unlock, .subscriptionInvalidState)

def onSubscriptionDestroyed (t : Throttling) (deallocates : Bool) (w : World) : World :=
  let w := { w with openObjects := w.openObjects - 1 }.lock
  match w.state with
  | .deactivating => { w with state := .deactivated }.release.unlock
  | .deallocating => ((w.invokeDestroyedCallback deallocates).use unlock).use implDeallocate
  | .destroying => ({ w with state := .destroyed }.invokeDestroyedCallback deallocates).use fun w => w.release.unlock
  | .reactivating => ({ w with state := .deactivated }.activate t).1.release.unlock
  | _ => w.release.unlock

def registerReference (w : World) : World := { w with referenceCount := w.referenceCount + 1 }

end World

/-- The steps of a run. The throttle and the bridge step only if there is something to do. -/
inductive Op where
  | setup (snapshot ok : Bool)
  | createBasic (bridged : Bool)
  | activate (t : Throttling)
  | deactivate
  | finishDestroy (deallocates : Bool)
  | fire (c : Creation)
  | bridgeDestroyed (t : Throttling) (deallocates : Bool)
  | registerReference
  | deallocate
deriving DecidableEq

def World.step (w : World) (op : Op) : World :=
  if w.fault then w
  else
    match op with
    | .setup snapshot ok => w.use fun w => (w.setup snapshot ok).1
    | .createBasic bridged => w.use fun w => (w.createBasic bridged).1
    | .activate t => w.use fun w => (w.activate t).1
    | .deactivate => w.use fun w => w.deactivate.1
    | .finishDestroy deallocates => w.use fun w => (w.finishDestroy deallocates).1
    | .fire c =>
      if 0 < w.queued then
        { w with queued := w.queued - 1 }.use fun w => (w.completeMarketDataInitialisation c).1
      else w
    | .bridgeDestroyed t deallocates =>
      if 0 < w.outstanding then
        { w with outstanding := w.outstanding - 1 }.use (World.onSubscriptionDestroyed t deallocates)
      else w
    | .registerReference => w.use World.registerReference
    | .deallocate => w.use fun w => w.deallocate.1

end OpenMama.Subscription
