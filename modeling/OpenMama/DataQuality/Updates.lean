import OpenMama.DataQuality.Strategy
import OpenMama.Lib.Run

/-!
# Updates in a data quality context

What `checkSeqNum` does to a context when the message is not an image. A context that waits for a recap is meant to
leave that state by an image only, but the test that is to keep it there is always passed: `never_ok_iff`. An update
that is in sequence is taken as such only when its status is OK: `counted_iff`.
-/

namespace OpenMama.DataQuality

open Strategy

def MsgType.isImage : MsgType → Bool
  | .initial | .bookInitial | .recap | .bookRecap => true
  | _ => false

def MsgType.isUpdate (m : MsgType) : Bool := !m.isImage && m != .ddictSnapshot

def step (t : Transport) (s : Strategy) (msg : Msg) : Strategy := (checkSeqNum t msg s).1

def run (t : Transport) (msgs : List Msg) (s : Strategy) : Strategy := msgs.foldl (step t) s

variable {msg : Msg} {ctxState : DqState} {ctxSeqNum : UInt32} {s : Strategy} {t : Transport}

theorem checkType_update (h : msg.type.isUpdate) (t : Transport) (ctxState : DqState) (ctxSeqNum : UInt32)
    (s : Strategy) :
    checkType t ctxState ctxSeqNum msg s = checkUpdate t ctxState ctxSeqNum msg s := by
  unfold checkType
  cases htype : msg.type <;> simp_all [MsgType.isUpdate, MsgType.isImage]

def Accepted (ctxState : DqState) (ctxSeqNum : UInt32) (msg : Msg) : Prop :=
  isNext ctxState ctxSeqNum msg ∧ msg.status = .ok

instance (ctxState : DqState) (ctxSeqNum : UInt32) (msg : Msg) : Decidable (Accepted ctxState ctxSeqNum msg) :=
  inferInstanceAs (Decidable (_ ∧ _))

def settled (s : Strategy) : Strategy :=
  if s.tryToFillGap then { s with tryToFillGap := false }.clearCache else s

theorem checkUpdate_accepted (h : Accepted ctxState ctxSeqNum msg) (t : Transport) (s : Strategy) :
    checkUpdate t ctxState ctxSeqNum msg s
      = ({ (settled s).resetDqState with seqNum := msg.seqNum }, msg) := by
  have hguard : (ctxState != .waitingForRecap || ctxState != .waitingForRecapAfterFt) := by
    cases ctxState <;> decide
  rw [checkUpdate, hguard, h.1, Bool.and_true, if_pos h.2]
  rfl

theorem checkUpdate_late (h : ¬ Accepted ctxState ctxSeqNum msg) (t : Transport) (s : Strategy) :
    checkUpdate t ctxState ctxSeqNum msg s
      = checkLate t ctxState ctxSeqNum msg (if isNext ctxState ctxSeqNum msg then settled s else s) := by
  have hguard : (ctxState != .waitingForRecap || ctxState != .waitingForRecapAfterFt) := by
    cases ctxState <;> decide
  rw [checkUpdate, hguard, Bool.and_true]
  by_cases hnext : isNext ctxState ctxSeqNum msg
  · have hstatus : msg.status ≠ .ok := fun hok => h ⟨hnext, hok⟩
    rw [if_pos hnext, if_pos hnext, if_neg hstatus]
    rfl
  · rw [if_neg hnext, if_neg hnext]

/-- What a message that is not taken as the next one leaves alone: the sender, the setting, and the number while there
is no gap to fill. -/
structure Late (s r : Strategy) : Prop where
  senderId : r.senderId = s.senderId
  recoverGaps : r.recoverGaps = s.recoverGaps
  dqState : r.dqState = s.dqState ∨ r.dqState = .duplicate ∨ r.dqState = .waitingForRecap
  seqNum : s.tryToFillGap = false → r.seqNum = s.seqNum

theorem handleStaleData_frame (s : Strategy) :
    ∃ evs, s.handleStaleData = { s with dqState := .waitingForRecap, events := evs } := by
  by_cases hidle : s.dqState ≠ .waitingForRecap ∧ s.dqState ≠ .possiblyStale
  · exact ⟨_, if_pos hidle⟩
  · by_cases hstale : s.dqState = .possiblyStale
    · exact ⟨_, (if_neg hidle).trans (if_pos hstale)⟩
    · have hwait : s.dqState = .waitingForRecap := by tauto
      refine ⟨s.events ++ [.staleData], ((if_neg hidle).trans (if_neg hstale)).trans ?_⟩
      rw [← hwait]
      rfl

theorem reportGap_late (msg : Msg) (s : Strategy) :
    Late s (reportGap msg s).1 ∧ (reportGap msg s).1.doNotForward = s.doNotForward := by
  obtain ⟨_, hevs⟩ := handleStaleData_frame (s.emit .gap)
  rw [reportGap, hevs]
  exact ⟨⟨rfl, rfl, .inr (.inr rfl), fun _ => rfl⟩, rfl⟩

theorem checkGap_late (t : Transport) (msg : Msg) (s : Strategy) :
    Late s (checkGap t msg s).1 ∧ (checkGap t msg s).1.doNotForward = s.doNotForward := by
  rw [checkGap]
  by_cases hfill : (t.preInitialOnGap && s.tryToFillGap)
  · have htry : s.tryToFillGap := (Bool.and_eq_true_iff.mp hfill).2
    have hnot {p : Prop} (hno : s.tryToFillGap = false) : p := nomatch htry.symm.trans hno
    rw [if_pos hfill]
    by_cases hfilled : ({ s with tryToFillGap := false }.fillGap msg.seqNum).2
    · rw [if_pos hfilled]
      exact ⟨⟨rfl, rfl, .inl rfl, hnot⟩, rfl⟩
    · rw [if_neg hfilled]
      obtain ⟨hlate, hforward⟩ := reportGap_late msg ({ s with tryToFillGap := false }.fillGap msg.seqNum).1.clearCache
      exact ⟨⟨hlate.senderId, hlate.recoverGaps, hlate.dqState, hnot⟩, hforward⟩
  · rw [if_neg hfill]
    exact reportGap_late msg s

def dropped (t : Transport) (ctxSeqNum : UInt32) (msg : Msg) (s : Strategy) : Bool :=
  t.ignoreDups && msg.seqNum ≤ ctxSeqNum && !waiting s.dqState

theorem checkLate_late (t : Transport) (ctxState : DqState) (ctxSeqNum : UInt32) (msg : Msg) (s : Strategy) :
    Late s (checkLate t ctxState ctxSeqNum msg s).1
      ∧ (checkLate t ctxState ctxSeqNum msg s).1.doNotForward
        = (s.doNotForward || dropped t ctxSeqNum msg s || ctxState = .waitingForRecapAfterFt) := by
  unfold checkLate dropped
  split
  next hdrop => exact ⟨⟨rfl, rfl, .inl rfl, fun _ => rfl⟩, by simp [hdrop]⟩
  next hdrop =>
    split
    next hdup => exact ⟨⟨rfl, rfl, .inr (.inl rfl), fun _ => rfl⟩, by simp [emit, hdrop, hdup.2]⟩
    · split
      next hft => exact ⟨⟨rfl, rfl, .inl rfl, fun _ => rfl⟩, by simp [hft]⟩
      next hft =>
        obtain ⟨hlate, hforward⟩ := checkGap_late t msg s
        exact ⟨hlate, by simp [hforward, hdrop, hft]⟩

/-! ### One message -/

/-- The context as the update case finds it. A takeover that is to be recovered by a recap is recorded
first. -/
def received (s : Strategy) (msg : Msg) : Strategy :=
  if isTakeover s msg then { s with doNotForward := true }.handleFTTakeover msg true
  else { s with doNotForward := false }

theorem received_frame (s : Strategy) (msg : Msg) :
    (received s msg).senderId = s.senderId ∧ (received s msg).recoverGaps = s.recoverGaps := by
  unfold received
  split <;> exact ⟨rfl, rfl⟩

theorem step_of_not_recoverGaps (h : s.recoverGaps = false) (t : Transport) (msg : Msg) : step t s msg = s := by
  rw [step, checkSeqNum, h]
  rfl

theorem step_checkType (hs : s.recoverGaps) (ht : isTakeover s msg → t.ftWaitForRecap) :
    step t s msg = (checkType t s.dqState s.seqNum msg (received s msg)).1 := by
  rw [step, checkSeqNum, if_pos hs, received]
  by_cases htake : isTakeover s msg
  · rw [if_pos htake, if_pos htake, if_pos (ht htake)]
  · rw [if_neg htake, if_neg htake]

theorem settled_frame (s : Strategy) :
    (settled s).senderId = s.senderId ∧ (settled s).recoverGaps = s.recoverGaps
      ∧ (settled s).dqState = s.dqState ∧ (settled s).seqNum = s.seqNum
      ∧ (settled s).doNotForward = s.doNotForward ∧ (settled s).events = s.events
      ∧ (settled s).tryToFillGap = false := by
  unfold settled
  split
  · exact ⟨rfl, rfl, rfl, rfl, rfl, rfl, rfl⟩
  next h => exact ⟨rfl, rfl, rfl, rfl, rfl, rfl, Bool.not_eq_true _ ▸ h⟩

@[simp]
theorem resetDqState_dqState (s : Strategy) : s.resetDqState.dqState = .ok := by
  unfold resetDqState
  split <;> rfl

theorem resetDqState_frame (s : Strategy) :
    s.resetDqState.senderId = s.senderId ∧ s.resetDqState.recoverGaps = s.recoverGaps
      ∧ s.resetDqState.doNotForward = s.doNotForward := by
  unfold resetDqState
  split <;> exact ⟨rfl, rfl, rfl⟩

theorem step_frame (hupd : msg.type.isUpdate) (ht : isTakeover s msg → t.ftWaitForRecap) :
    (step t s msg).senderId = s.senderId ∧ (step t s msg).recoverGaps = s.recoverGaps := by
  by_cases hrec : s.recoverGaps
  · obtain ⟨hsender, hrecover⟩ := received_frame s msg
    obtain ⟨hsender', hrecover', -⟩ := settled_frame (received s msg)
    rw [step_checkType hrec ht, checkType_update hupd]
    by_cases haccepted : Accepted s.dqState s.seqNum msg
    · rw [checkUpdate_accepted haccepted]
      obtain ⟨hsender'', hrecover'', -⟩ := resetDqState_frame (settled (received s msg))
      exact ⟨hsender''.trans (hsender'.trans hsender), hrecover''.trans (hrecover'.trans hrecover)⟩
    · rw [checkUpdate_late haccepted]
      have hlate := (checkLate_late t s.dqState s.seqNum msg
        (if isNext s.dqState s.seqNum msg then settled (received s msg) else received s msg)).1
      refine ⟨hlate.senderId.trans ?_, hlate.recoverGaps.trans ?_⟩
      · split
        · exact hsender'.trans hsender
        · exact hsender
      · split
        · exact hrecover'.trans hrecover
        · exact hrecover
  · rw [step_of_not_recoverGaps (Bool.not_eq_true _ ▸ hrec)]
    exact ⟨rfl, rfl⟩

/-- The messages, other than images, that set the state to OK: the first after a takeover that needs no recap, and an
update that is accepted. -/
def Recovers (t : Transport) (s : Strategy) (msg : Msg) : Prop :=
  s.recoverGaps ∧ ((isTakeover s msg ∧ t.ftWaitForRecap = false)
    ∨ ((isTakeover s msg → t.ftWaitForRecap) ∧ msg.type.isUpdate
      ∧ Accepted s.dqState s.seqNum msg))

instance (t : Transport) (s : Strategy) (msg : Msg) : Decidable (Recovers t s msg) :=
  inferInstanceAs (Decidable (_ ∧ _))

theorem checkUpdate_dqState (hs : s.dqState ≠ .ok) (t : Transport) :
    (checkUpdate t ctxState ctxSeqNum msg s).1.dqState = .ok ↔ Accepted ctxState ctxSeqNum msg := by
  constructor
  · intro hok
    by_contra hlate
    rw [checkUpdate_late hlate] at hok
    have hstate : (if isNext ctxState ctxSeqNum msg then settled s else s).dqState = s.dqState := by
      split
      · exact (settled_frame s).2.2.1
      · rfl
    rcases (checkLate_late t ctxState ctxSeqNum msg _).1.dqState with hsame | hdup | hwait
    · exact hs (hstate.symm.trans (hsame.symm.trans hok))
    · cases hdup.symm.trans hok
    · cases hwait.symm.trans hok
  · intro haccepted
    rw [checkUpdate_accepted haccepted]
    exact resetDqState_dqState (settled s)

theorem step_dqState_ok_iff (hs : s.dqState ≠ .ok) (hmsg : ¬ msg.type.isImage) :
    (step t s msg).dqState = .ok ↔ Recovers t s msg := by
  by_cases hrec : s.recoverGaps
  · by_cases hreset : isTakeover s msg ∧ t.ftWaitForRecap = false
    · rw [step, checkSeqNum, if_pos hrec, if_pos hreset.1, hreset.2]
      exact iff_of_true (resetDqState_dqState _) ⟨hrec, .inl hreset⟩
    · have ht : isTakeover s msg → t.ftWaitForRecap := fun htake => by
        by_contra hwait
        exact hreset ⟨htake, Bool.not_eq_true _ ▸ hwait⟩
      have hreceived : (received s msg).dqState ≠ .ok := by
        unfold received
        split
        · exact show DqState.waitingForRecapAfterFt ≠ .ok by decide
        · exact hs
      rw [step_checkType hrec ht]
      by_cases hupd : msg.type.isUpdate
      · rw [checkType_update hupd, checkUpdate_dqState hreceived]
        exact ⟨fun h => ⟨hrec, .inr ⟨ht, hupd, h⟩⟩, fun h => h.2.elim (absurd · hreset) (·.2.2)⟩
      · have htype : msg.type = .ddictSnapshot := by simpa [MsgType.isUpdate, hmsg] using hupd
        have hsame : checkType t s.dqState s.seqNum msg (received s msg) = (received s msg, msg) := by
          rw [checkType, htype]
        rw [hsame]
        exact iff_of_false hreceived fun h => h.2.elim (absurd · hreset) (fun h => hupd h.2.1)
  · rw [step_of_not_recoverGaps (Bool.not_eq_true _ ▸ hrec)]
    exact iff_of_false hs fun h => hrec h.1

theorem ne_ok_of_waiting {d : DqState} (h : waiting d) : d ≠ .ok := by
  rintro rfl
  cases h

/-- A context that waits for a recap is never OK during a run of messages that are not images, exactly
when none of them recovers the state it meets. -/
theorem never_ok_iff (t : Transport) (s : Strategy) (msgs : List Msg) (hs : waiting s.dqState)
    (hmsgs : ∀ msg ∈ msgs, ¬ msg.type.isImage) :
    (∀ n < msgs.length, (run t (msgs.take (n + 1)) s).dqState ≠ .ok)
      ↔ Along (step t) (fun s msg => ¬ Recovers t s msg) s msgs := by
  have hpoints : Along (step t) (fun s msg => (step t s msg).dqState ≠ .ok) s msgs
      ↔ ∀ n < msgs.length, (run t (msgs.take (n + 1)) s).dqState ≠ .ok :=
    along_iff_forall_take (I := fun s => s.dqState ≠ .ok) s msgs
  refine hpoints.symm.trans (Along.congr_on (I := fun s => s.dqState ≠ .ok) (ne_ok_of_waiting hs) ?_ ?_)
  · intro s hs msg hmsg
    exact not_congr (step_dqState_ok_iff hs (hmsgs msg hmsg))
  · intro s _ _ _ hok
    exact hok

def waitingAt10 : Strategy := { seqNum := 10, dqState := .waitingForRecap }

theorem never_ok_late : waiting waitingAt10.dqState ∧ ∀ n < 2,
    (run {} ([{ seqNum := 13 }, { seqNum := 11, status := .stale }].take (n + 1)) waitingAt10).dqState
      ≠ .ok :=
  ⟨by decide, (never_ok_iff {} waitingAt10 [{ seqNum := 13 }, { seqNum := 11, status := .stale }]
    (by decide) (by decide)).mpr ⟨by decide, by decide, trivial⟩⟩

theorem not_never_ok_next : ¬ ∀ n < 1, (run {} ([{ seqNum := 11 }].take (n + 1)) waitingAt10).dqState ≠ .ok := by
  decide

/-! ### Messages in sequence -/

/-- Each number is the one before plus the number of messages that the update stands for. -/
def Consecutive : UInt32 → List Msg → Prop
  | _, [] => True
  | seqNum, msg :: msgs => msg.seqNum = seqNum + msg.conflateCnt.toUInt32 ∧ Consecutive msg.seqNum msgs

/-- The message is taken as the next one: no gap is reported, the data is not handled as stale, and its
number is the last one seen. -/
def Counted (t : Transport) (s : Strategy) (msg : Msg) : Prop :=
  (step t s msg).seqNum = msg.seqNum
    ∧ (step t s msg).events.count .gap = s.events.count .gap
    ∧ (step t s msg).events.count .staleData = s.events.count .staleData

theorem resetDqState_counts (s : Strategy) :
    s.resetDqState.events.count .gap = s.events.count .gap
      ∧ s.resetDqState.events.count .staleData = s.events.count .staleData := by
  unfold resetDqState
  split
  · simp [emit]
  · exact ⟨rfl, rfl⟩

theorem toUInt32_eq_zero {c : UInt16} (h : c.toUInt32 = 0) : c = 0 := by
  have hnat : c.toUInt32.toNat = (0 : UInt32).toNat := by rw [h]
  exact UInt16.toNat_inj.mp (by simpa using hnat)

theorem seqNum_eq_iff (h : msg.seqNum = ctxSeqNum + msg.conflateCnt.toUInt32) :
    ctxSeqNum = msg.seqNum ↔ msg.conflateCnt = 0 := by
  constructor
  · intro heq
    rw [← heq] at h
    exact toUInt32_eq_zero (UInt32.left_eq_add.mp h)
  · intro hzero
    rw [h, hzero]
    exact (UInt32.add_zero _).symm

theorem step_update (hs : s.recoverGaps) (hupd : msg.type.isUpdate) (hsame : isTakeover s msg = false) :
    step t s msg = (checkUpdate t s.dqState s.seqNum msg { s with doNotForward := false }).1 := by
  rw [step_checkType hs (fun htake => nomatch hsame.symm.trans htake), checkType_update hupd, received, hsame]
  rfl

theorem checkLate_repeated (hseq : msg.seqNum = ctxSeqNum) (t : Transport) (ctxState : DqState) (s : Strategy) :
    (checkLate t ctxState ctxSeqNum msg s).1.seqNum = s.seqNum
      ∧ (checkLate t ctxState ctxSeqNum msg s).1.events.count .gap = s.events.count .gap
      ∧ (checkLate t ctxState ctxSeqNum msg s).1.events.count .staleData
        = s.events.count .staleData := by
  unfold checkLate
  split
  · exact ⟨rfl, rfl, rfl⟩
  · by_cases hft : ctxState = .waitingForRecapAfterFt
    · rw [if_neg (fun h => h.2 hft), if_pos hft]
      exact ⟨rfl, rfl, rfl⟩
    · rw [if_pos ⟨hseq, hft⟩]
      simp [emit]

theorem counted_step_iff (hupd : msg.type.isUpdate) (hsame : isTakeover s msg = false)
    (hseq : msg.seqNum = s.seqNum + msg.conflateCnt.toUInt32) :
    Counted t s msg ↔ msg.conflateCnt = 0 ∨ (s.recoverGaps ∧ msg.status = .ok) := by
  rw [← seqNum_eq_iff hseq]
  by_cases hrec : s.recoverGaps
  · have hnext : isNext s.dqState s.seqNum msg := by simp [isNext, hseq]
    obtain ⟨-, -, -, hnum, -, hevents, htry⟩ := settled_frame { s with doNotForward := false }
    rw [Counted, step_update hrec hupd hsame]
    by_cases hstatus : msg.status = .ok
    · rw [checkUpdate_accepted ⟨hnext, hstatus⟩]
      have hcounts := resetDqState_counts (settled { s with doNotForward := false })
      rw [hevents] at hcounts
      exact iff_of_true ⟨rfl, hcounts⟩ (.inr ⟨hrec, hstatus⟩)
    · rw [checkUpdate_late (fun h => hstatus h.2), if_pos hnext]
      constructor
      · intro hcounted
        have hkept := (checkLate_late t s.dqState s.seqNum msg (settled { s with doNotForward := false })).1.seqNum htry
        exact .inl ((hkept.trans hnum).symm.trans hcounted.1)
      · rintro (hrepeat | hok)
        · obtain ⟨hkept, hgap, hstale⟩ := checkLate_repeated hrepeat.symm t s.dqState
            (settled { s with doNotForward := false })
          rw [hevents] at hgap hstale
          exact ⟨(hkept.trans hnum).trans hrepeat, hgap, hstale⟩
        · exact absurd hok.2 hstatus
  · rw [Counted, step_of_not_recoverGaps (Bool.not_eq_true _ ▸ hrec)]
    simp [hrec]

/-- In a stream of consecutive updates of one sender every update is taken as the next one, exactly when each stands for
no message at all, or is checked and has the status OK. -/
theorem counted_iff (t : Transport) (s : Strategy) (msgs : List Msg)
    (hupd : ∀ msg ∈ msgs, msg.type.isUpdate) (hsame : ∀ msg ∈ msgs, isTakeover s msg = false)
    (hseq : Consecutive s.seqNum msgs) :
    Along (step t) (Counted t) s msgs
      ↔ ∀ msg ∈ msgs, msg.conflateCnt = 0 ∨ (s.recoverGaps ∧ msg.status = .ok) := by
  induction msgs generalizing s with
  | nil => simp [Along]
  | cons msg msgs ih =>
    obtain ⟨hupd, hupds⟩ := List.forall_mem_cons.mp hupd
    obtain ⟨hsame, hsames⟩ := List.forall_mem_cons.mp hsame
    obtain ⟨hsender, hrecover⟩ := step_frame (s := s) (t := t) hupd (by simp [hsame])
    -- A message that is counted leaves the number from which the rest of the stream goes on.
    have htail : Counted t s msg → (Along (step t) (Counted t) (step t s msg) msgs
        ↔ ∀ msg ∈ msgs, msg.conflateCnt = 0 ∨ (s.recoverGaps ∧ msg.status = .ok)) := by
      intro hcounted
      have hnum := hcounted.1
      rw [← hrecover]
      refine ih (step t s msg) hupds (fun msg' hmem => ?_) (hnum ▸ hseq.2)
      rw [← hsames msg' hmem, isTakeover, isTakeover, hsender]
    have hhead : Counted t s msg ↔ _ := counted_step_iff hupd hsame hseq.1
    rw [List.forall_mem_cons]
    exact ⟨fun h => ⟨hhead.mp h.1, (htail h.1).mp h.2⟩, fun h => ⟨hhead.mpr h.1, (htail (hhead.mpr h.1)).mpr h.2⟩⟩

def okAt10 : Strategy := { seqNum := 10, dqState := .ok, senderId := 7 }

theorem counted_okAt10 : Along (step {}) (Counted {}) okAt10
    [{ seqNum := 11, senderId := 7 }, { seqNum := 14, conflateCount := some 3 }] :=
  (counted_iff {} okAt10 [{ seqNum := 11, senderId := 7 }, { seqNum := 14, conflateCount := some 3 }]
    (by decide) (by decide) ⟨by decide, by decide, trivial⟩).mpr (by decide)

theorem not_counted_stale :
    Consecutive okAt10.seqNum [{ seqNum := 11, status := .stale }, { seqNum := 12 }]
      ∧ (run {} [{ seqNum := 11, status := .stale }, { seqNum := 12 }] okAt10).events
        = [.gap, .staleData, .recapRequest, .quality .stale, .gap, .staleData]
      ∧ (run {} [{ seqNum := 11, status := .stale }, { seqNum := 12 }] okAt10).seqNum = 10 :=
  ⟨⟨by decide, by decide, trivial⟩, by decide, by decide⟩

end OpenMama.DataQuality
