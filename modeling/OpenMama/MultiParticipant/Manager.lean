import OpenMama.Mama.Symbols
import OpenMama.DataQuality.Strategy
import OpenMama.Lib.OrderedMap

/-!
# The multi-participant manager

`MamdaMultiParticipantManager.cpp`: a message goes to the listeners of its participant, or to the consolidated
listeners. The first message of a participant makes an entry for it, and the handlers are told; they may register
listeners then. The state keeps a log of what was invoked.
-/

namespace OpenMama.MultiParticipant

open DataQuality (MsgType)

structure Msg where
  type : MsgType
  symbols : Symbols := {}
deriving DecidableEq

/-- What the manager invokes: `onParticipantCreate`, `onConsolidatedCreate`, and `onMsg` of a listener. -/
inductive Event (H L : Type) where
  | participantCreate (handler : H) (partId : String)
  | consolidatedCreate (handler : H)
  | delivered (listener : L) (msg : Msg)
deriving DecidableEq

/-- A call of `addParticipantListener`, or of `addConsolidatedListener` if there is no part id. -/
structure Registration (L : Type) where
  listener : L
  partId : Option String
deriving DecidableEq

structure Manager (H L : Type) where
  handlers : List H := []
  consListeners : List L := []
  partListeners : Std.TreeMap String (List L) := ∅
  gotConsolidated : Bool := false
  log : List (Event H L) := []

/-- `getPartId`. The pointer to an empty part id is still there when the symbol has no participant. -/
def getPartId (msg : Msg) : Option String :=
  let partId := msg.symbols.partId
  if partId.any (· ≠ "") then partId
  else
    match msg.symbols.name with
    | none => none
    | some symbol =>
      match Symbols.afterLastDot symbol with
      | some id => some id
      | none => partId

namespace Manager

variable {H L : Type} (m : Manager H L)

def addHandler (handler : H) : Manager H L := { m with handlers := m.handlers ++ [handler] }

def addConsolidatedListener (listener : L) : Manager H L :=
  { m with consListeners := m.consListeners ++ [listener] }

def addParticipantListener (listener : L) (partId : String) : Manager H L :=
  { m with
    partListeners := m.partListeners.insert partId ((m.partListeners[partId]?).getD [] ++ [listener]) }

def register (r : Registration L) : Manager H L :=
  match r.partId with
  | none => m.addConsolidatedListener r.listener
  | some partId => m.addParticipantListener r.listener partId

def notify (event : H → Event H L) (reply : H → List (Registration L)) (m : Manager H L) : Manager H L :=
  m.handlers.foldl (fun m h => (reply h).foldl register { m with log := m.log ++ [event h] }) m

def createPartListAndNotify (partId : String) (reply : H → List (Registration L)) (m : Manager H L) : Manager H L :=
  notify (.participantCreate · partId) reply { m with partListeners := m.partListeners.insertIfNew partId [] }

def notifyConsolidatedCreate (reply : H → List (Registration L)) (m : Manager H L) : Manager H L :=
  if m.gotConsolidated then m else notify .consolidatedCreate reply { m with gotConsolidated := true }

def handleFullImage (msg : Msg) (reply : H → List (Registration L)) (m : Manager H L) : Manager H L :=
  match getPartId msg with
  | none => m.notifyConsolidatedCreate reply
  | some partId => if partId ∈ m.partListeners then m else m.createPartListAndNotify partId reply

def deliver (listeners : List L) (msg : Msg) (m : Manager H L) : Manager H L :=
  { m with log := m.log ++ listeners.map (.delivered · msg) }

def forwardMsg (msg : Msg) (reply : H → List (Registration L)) (m : Manager H L) : Manager H L :=
  match getPartId msg with
  | some partId =>
    match m.partListeners[partId]? with
    | some listeners => m.deliver listeners msg
    | none =>
      let m := m.createPartListAndNotify partId reply
      match m.partListeners[partId]? with
      | some listeners => m.deliver listeners msg
      | none => m
  | none =>
    if m.consListeners ≠ [] then m.deliver m.consListeners msg
    else
      let m := m.notifyConsolidatedCreate reply
      if m.consListeners ≠ [] then m.deliver m.consListeners msg else m

/-- `onMsg`, with what each handler registers if it is told something. -/
def onMsg (msg : Msg) (reply : H → List (Registration L)) (m : Manager H L) : Manager H L :=
  match msg.type with
  | .initial | .recap => (m.handleFullImage msg reply).forwardMsg msg reply
  | .endOfInitials => m
  | _ => m.forwardMsg msg reply

end Manager

inductive Op (H L : Type) where
  | addHandler (handler : H)
  | register (r : Registration L)
  | onMsg (msg : Msg) (reply : H → List (Registration L))

def Manager.step {H L : Type} (m : Manager H L) : Op H L → Manager H L
  | .addHandler handler => m.addHandler handler
  | .register r => m.register r
  | .onMsg msg reply => m.onMsg msg reply

end OpenMama.MultiParticipant
