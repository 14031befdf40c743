import Mathlib.Data.Prod.Lex
import OpenMama.Lib.Run

/-!
# Fault tolerance members

`ft.c`: the members of a group send heartbeats and decide, each on its own, which of them is the active one. Timers
are either armed or not. Creating a timer, an io handler or a subscription does not fail. A heartbeat is read back as
it was written, without its field `hbPrimary`, which nothing reads.
-/

namespace OpenMama.FaultTolerance

inductive FtState where
  | standby
  | active
  | unknown
deriving DecidableEq

inductive FtType where
  | multicast
  | bridge
deriving DecidableEq

structure Heartbeat where
  weight : UInt32
  incarnation : UInt32
  pid : Int32
  ipAddr : Int32
  groupName : String
deriving DecidableEq

/-- `mamaFtMemberImpl`, with the states its callback was called with and the heartbeats it sent.
`foundheartbeat` belongs to the process; it is read by the timeout callback only, which clears it
first. -/
structure FtMember where
  fttype : FtType
  groupName : String
  weight : UInt32
  pid : Int32
  ip : Int32 := 0
  incarnation : UInt32 := 0
  nextIncarnation : UInt32 := 0
  isActive : Bool := false
  heartbeatTimer : Bool := false
  timeoutTimer : Bool := false
  heartbeatTick : UInt32 := 0
  state : FtState := .unknown
  foundheartbeat : Nat := 0
  callbacks : List FtState := []
  sent : List Heartbeat := []
deriving DecidableEq

def setup (fttype : FtType) (groupName : String) (weight : UInt32) (pid : Int32) : FtMember :=
  { fttype, groupName, weight, pid }

namespace FtMember

variable (m : FtMember)

def heartbeat : Heartbeat where
  weight := m.weight
  incarnation := m.incarnation
  pid := m.pid
  ipAddr := m.ip
  groupName := m.groupName

def sendHeartbeat : FtMember := { m with sent := m.sent ++ [m.heartbeat] }

/-- `startTimeoutTimer`, which resets a timer that is there. -/
def startTimeoutTimer : FtMember := { m with timeoutTimer := true }

def stopTimeoutTimer : FtMember := { m with timeoutTimer := false }

def invokeStateChange (state : FtState) : FtMember :=
  if m.state = state then m
  else
    let m := match state with
      | .active => { m with incarnation := m.nextIncarnation }.sendHeartbeat.stopTimeoutTimer
      | .standby | .unknown => m.startTimeoutTimer
    { m with state := state, callbacks := m.callbacks ++ [state] }

def checkState (state : FtState) : FtMember :=
  match state, m.state with
  | .standby, .unknown | .standby, .active => m.invokeStateChange .standby
  | .standby, .standby => m
  | .active, .unknown | .active, .standby => m.invokeStateChange .active
  | .active, .active => m
  | .unknown, .active | .unknown, .standby => m.invokeStateChange .unknown
  | .unknown, .unknown => m

/-- `mamaBetterCredentials`: true where the source returns 0, and the other sender is the better one. -/
def mamaBetterCredentials (weight incarnation : UInt32) (ipAddr : UInt32) (pid : Int32) : Bool :=
  if weight > m.weight then true
  else if weight = m.weight ∧ incarnation > m.incarnation then true
  else if weight = m.weight ∧ incarnation = m.incarnation ∧ ipAddr.toInt32 > m.ip then true
  else if weight = m.weight ∧ incarnation = m.incarnation ∧ ipAddr = m.ip.toUInt32 ∧ pid > m.pid then true
  else false

def mamaCheckHeartbeat (hb : Heartbeat) : FtMember :=
  if hb.groupName ≠ m.groupName then m
  else if hb.pid = m.pid ∧ hb.ipAddr = m.ip then m
  else if m.mamaBetterCredentials hb.weight hb.incarnation hb.ipAddr.toUInt32 hb.pid then
    let m := if hb.incarnation ≥ m.nextIncarnation then { m with nextIncarnation := hb.incarnation + 1 } else m
    let m := m.checkState .standby
    { m with foundheartbeat := m.foundheartbeat + 1 }
  else m

def ftHeartbeatTimerCb : FtMember :=
  { m with heartbeatTick := m.heartbeatTick + 1 }.sendHeartbeat

/-- What `ftRecvHeartbeat` gets from a socket that holds these heartbeats. A member of the type bridge
does not read one. -/
def polled (pending : List Heartbeat) : List Heartbeat :=
  match m.fttype with
  | .multicast => pending
  | .bridge => []

def ftTimeoutTimerCb (pending : List Heartbeat) : FtMember :=
  let m := (m.polled pending).foldl mamaCheckHeartbeat { m with foundheartbeat := 0 }
  if m.foundheartbeat = 0 then m.checkState .active else m

def deactivate : FtMember :=
  { { m with heartbeatTimer := false }.stopTimeoutTimer with
    isActive := false, incarnation := 0, nextIncarnation := 0 }

/-- `mamaFtMember_activate`, on a host of this address. -/
def activate (ip : Int32) (m : FtMember) : FtMember :=
  let m := if m.isActive then m.deactivate else m
  { { m with heartbeatTimer := true, ip := ip, nextIncarnation := 1, heartbeatTick := 0 }.startTimeoutTimer with
    isActive := true }

end FtMember

inductive FtEvent where
  | activate (ip : Int32)
  | deactivate
  | heartbeat (hb : Heartbeat)
  | heartbeatTimer
  | timeout (pending : List Heartbeat)
deriving DecidableEq

def FtMember.step (m : FtMember) : FtEvent → FtMember
  | .activate ip => m.activate ip
  | .deactivate => m.deactivate
  | .heartbeat hb => m.mamaCheckHeartbeat hb
  | .heartbeatTimer => if m.heartbeatTimer then m.ftHeartbeatTimerCb else m
  | .timeout pending => if m.timeoutTimer then m.ftTimeoutTimerCb pending else m

abbrev Credentials := ℕ ×ₗ ℕ ×ₗ ℤ ×ₗ ℤ

def Heartbeat.credentials (hb : Heartbeat) : Credentials :=
  toLex (hb.weight.toNat, toLex (hb.incarnation.toNat, toLex (hb.ipAddr.toInt, hb.pid.toInt)))

namespace FtMember

def credentials (m : FtMember) : Credentials := m.heartbeat.credentials

variable {m : FtMember} {hb : Heartbeat} {hbs : List Heartbeat}

theorem mamaBetterCredentials_iff :
    m.mamaBetterCredentials hb.weight hb.incarnation hb.ipAddr.toUInt32 hb.pid
      ↔ m.credentials < hb.credentials := by
  have hip : hb.ipAddr.toUInt32 = m.ip.toUInt32 ↔ hb.ipAddr = m.ip :=
    ⟨fun h => by rw [← Int32.toInt32_toUInt32 hb.ipAddr, h, Int32.toInt32_toUInt32], fun h => h ▸ rfl⟩
  simp only [mamaBetterCredentials, credentials, heartbeat, Heartbeat.credentials, Prod.Lex.toLex_lt_toLex,
    hip, Int32.toInt32_toUInt32, gt_iff_lt, UInt32.lt_iff_toNat_lt, Int32.lt_iff_toInt_lt,
    UInt32.toNat_inj, Int32.toInt_inj]
  grind

def Accepts (m : FtMember) (hb : Heartbeat) : Prop :=
  hb.groupName = m.groupName ∧ ¬ (hb.pid = m.pid ∧ hb.ipAddr = m.ip) ∧ m.credentials < hb.credentials

instance (m : FtMember) (hb : Heartbeat) : Decidable (m.Accepts hb) := inferInstanceAs (Decidable (_ ∧ _))

theorem invokeStateChange_same {state : FtState} (h : m.state = state) : m.invokeStateChange state = m := by
  exact if_pos h

theorem invokeStateChange_active (h : m.state ≠ .active) :
    m.invokeStateChange .active = { m with
      incarnation := m.nextIncarnation
      state := .active
      timeoutTimer := false
      callbacks := m.callbacks ++ [.active]
      sent := m.sent ++ [{ m with incarnation := m.nextIncarnation }.heartbeat] } := by
  exact if_neg h

theorem checkState_eq (m : FtMember) (state : FtState) : m.checkState state = m.invokeStateChange state := by
  unfold checkState invokeStateChange
  cases state <;> cases hm : m.state <;> rfl

theorem mamaCheckHeartbeat_of_not_accepts (h : ¬ m.Accepts hb) : m.mamaCheckHeartbeat hb = m := by
  unfold mamaCheckHeartbeat
  split
  · rfl
  next hgroup =>
    split
    · rfl
    next hother => refine if_neg fun hbetter => h ⟨not_not.mp hgroup, hother, mamaBetterCredentials_iff.mp hbetter⟩

theorem mamaCheckHeartbeat_of_accepts (h : m.Accepts hb) :
    m.mamaCheckHeartbeat hb = { m with
      nextIncarnation := if hb.incarnation ≥ m.nextIncarnation then hb.incarnation + 1 else m.nextIncarnation
      state := .standby
      timeoutTimer := m.timeoutTimer || m.state ≠ .standby
      callbacks := m.callbacks ++ if m.state = .standby then [] else [.standby]
      foundheartbeat := m.foundheartbeat + 1 } := by
  obtain ⟨hgroup, hother, hbetter⟩ := h
  rw [mamaCheckHeartbeat, if_neg (not_not.mpr hgroup), if_neg hother, if_pos (mamaBetterCredentials_iff.mpr hbetter)]
  simp only [checkState_eq, invokeStateChange]
  by_cases hnext : hb.incarnation ≥ m.nextIncarnation
  · by_cases hstate : m.state = .standby
    · simp [hnext, hstate]
    · simp [hnext, hstate, startTimeoutTimer]
  · by_cases hstate : m.state = .standby
    · simp [hnext, hstate]
    · simp [hnext, hstate, startTimeoutTimer]

def checkHeartbeats (m : FtMember) (hbs : List Heartbeat) : FtMember := hbs.foldl mamaCheckHeartbeat m

def accepted : FtMember → List Heartbeat → List Heartbeat
  | _, [] => []
  | m, hb :: hbs =>
    if m.Accepts hb then hb :: accepted (m.mamaCheckHeartbeat hb) hbs
    else accepted (m.mamaCheckHeartbeat hb) hbs

theorem accepted_cons_of_accepts (h : m.Accepts hb) (hbs : List Heartbeat) :
    m.accepted (hb :: hbs) = hb :: (m.mamaCheckHeartbeat hb).accepted hbs := if_pos h

theorem accepted_cons_of_not (h : ¬ m.Accepts hb) (hbs : List Heartbeat) : m.accepted (hb :: hbs) = m.accepted hbs := by
  rw [accepted, if_neg h, mamaCheckHeartbeat_of_not_accepts h]

theorem accepted_eq_nil_iff : m.accepted hbs = [] ↔ ∀ hb ∈ hbs, ¬ m.Accepts hb := by
  induction hbs with
  | nil => simp [accepted]
  | cons hb _ ih =>
    rw [List.forall_mem_cons]
    by_cases hacc : m.Accepts hb
    · rw [accepted_cons_of_accepts hacc]
      exact iff_of_false (List.cons_ne_nil _ _) fun h => h.1 hacc
    · rw [accepted_cons_of_not hacc, ih]
      exact (and_iff_right hacc).symm

theorem checkHeartbeats_of_accepted_eq_nil (h : m.accepted hbs = []) : m.checkHeartbeats hbs = m := by
  induction hbs with
  | nil => rfl
  | cons hb _ ih =>
    by_cases hacc : m.Accepts hb
    · rw [accepted_cons_of_accepts hacc] at h
      cases h
    · rw [accepted_cons_of_not hacc] at h
      rw [checkHeartbeats, List.foldl_cons, mamaCheckHeartbeat_of_not_accepts hacc]
      exact ih h

theorem checkHeartbeats_of_accepted_ne_nil (h : m.accepted hbs ≠ []) : ∃ next found, 0 < found ∧
      m.checkHeartbeats hbs = { m with
        nextIncarnation := next
        state := .standby
        timeoutTimer := m.timeoutTimer || m.state ≠ .standby
        callbacks := m.callbacks ++ if m.state = .standby then [] else [.standby]
        foundheartbeat := found } := by
  induction hbs generalizing m with
  | nil => exact absurd rfl h
  | cons hb hbs ih =>
    rw [checkHeartbeats, List.foldl_cons]
    by_cases hacc : m.Accepts hb
    · rw [mamaCheckHeartbeat_of_accepts hacc]
      by_cases hrest : (m.mamaCheckHeartbeat hb).accepted hbs = []
      · rw [mamaCheckHeartbeat_of_accepts hacc] at hrest
        have hsame := checkHeartbeats_of_accepted_eq_nil hrest
        exact ⟨_, _, Nat.succ_pos _, hsame⟩
      · rw [mamaCheckHeartbeat_of_accepts hacc] at hrest
        obtain ⟨next, found, hfound, heq⟩ := ih hrest
        refine ⟨next, found, hfound, heq.trans ?_⟩
        simp
    · rw [accepted_cons_of_not hacc] at h
      rw [mamaCheckHeartbeat_of_not_accepts hacc]
      exact ih h

theorem ftTimeoutTimerCb_of_none {pending : List Heartbeat} (h : ∀ hb ∈ m.polled pending, ¬ m.Accepts hb) :
    m.ftTimeoutTimerCb pending = { m with foundheartbeat := 0 }.invokeStateChange .active := by
  have hnone : { m with foundheartbeat := 0 }.accepted (m.polled pending) = [] := accepted_eq_nil_iff.mpr h
  have hsame := checkHeartbeats_of_accepted_eq_nil hnone
  rw [checkHeartbeats] at hsame
  rw [ftTimeoutTimerCb, hsame, if_pos rfl, checkState_eq]

theorem ftTimeoutTimerCb_of_some {pending : List Heartbeat} (h : ¬ ∀ hb ∈ m.polled pending, ¬ m.Accepts hb) :
    m.ftTimeoutTimerCb pending = { m with foundheartbeat := 0 }.checkHeartbeats (m.polled pending) := by
  have hsome : { m with foundheartbeat := 0 }.accepted (m.polled pending) ≠ [] :=
    fun hnil => h fun hb hmem => accepted_eq_nil_iff.mp hnil hb hmem
  obtain ⟨_, _, hfound, heq⟩ := checkHeartbeats_of_accepted_ne_nil hsome
  rw [heq]
  rw [checkHeartbeats] at heq
  rw [ftTimeoutTimerCb, heq, if_neg (Nat.pos_iff_ne_zero.mp hfound)]

end FtMember

end OpenMama.FaultTolerance
