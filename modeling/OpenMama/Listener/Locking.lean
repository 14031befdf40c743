import OpenMama.Listener.Session
import OpenMama.Lib.Run
import Mathlib.Data.Int.Order.Basic

/-!
# The lock of the book

Each event acquires the lock of the book once and is to release it once. `handleUpdate` has one way out
on which it does not: it conflates, and the timer of the interval is already there. `balanced_iff` says
that no other call, setting or exception leaks the lock.
-/

namespace OpenMama.Listener

open OrderBook

variable {B M P T : Type} [LinearOrder P]

namespace Session

def locks (l : Session B P T) : Nat × Nat := (l.acquired, l.released)

variable (E : Engine B M P T) (l : Session B P T) (header : Header)

theorem startMessage_locks (isRecap : Bool) : (startMessage E l header isRecap).locks = l.locks := by
  unfold startMessage
  split <;> rfl

theorem checkNumber_locks : (l.checkNumber header).locks = l.locks := by
  unfold checkNumber
  split
  · rfl
  · split <;> rfl

theorem processBookMessage_locks (isRecap : Bool) : (l.processBookMessage E header isRecap).locks = l.locks := by
  cases isRecap with
  | true => exact startMessage_locks E l header true
  | false => exact (checkNumber_locks _ header).trans (startMessage_locks E l header false)

theorem invokeDeltaHandler_eq (handler : Handler) :
    ∃ deltas log, invokeDeltaHandler l handler = { l with deltas := deltas, log := log } := by
  unfold invokeDeltaHandler
  split <;> exact ⟨_, _, rfl⟩

theorem foldl_invokeDeltaHandler_eq (handlers : List Handler) (l : Session B P T) :
    ∃ deltas log, handlers.foldl invokeDeltaHandler l = { l with deltas := deltas, log := log } := by
  induction handlers generalizing l with
  | nil => exact ⟨_, _, rfl⟩
  | cons handler _ ih =>
    obtain ⟨deltas, log, hone⟩ := invokeDeltaHandler_eq l handler
    rw [List.foldl_cons, hone]
    exact ih { l with deltas := deltas, log := log }

theorem invokeDeltaHandlers_eq :
    ∃ book deltas log, l.invokeDeltaHandlers E = { l with book := book, deltas := deltas, log := log } := by
  unfold invokeDeltaHandlers
  split
  · exact ⟨_, _, _, rfl⟩
  · obtain ⟨_, _, htold⟩ := foldl_invokeDeltaHandler_eq l.handlers l
    rw [htold]
    exact ⟨_, _, _, rfl⟩

/-- The lock was acquired once and released once. -/
def Balanced (l l' : Session B P T) : Prop :=
  l'.acquired = l.acquired + 1 ∧ l'.released = l.released + 1

theorem handleClear_balanced (msg : Message M) : Balanced l (l.handleClear E msg) := by
  have hlocks := processBookMessage_locks E l.acquireLock msg.header true
  simp only [locks, Prod.mk.injEq] at hlocks
  exact ⟨hlocks.1, congrArg (· + 1) hlocks.2⟩

theorem finishRecap_locks (header : Header) (complete : Option Bool) :
    (l.finishRecap header complete).locks = l.locks := by
  unfold finishRecap
  split <;> rfl

theorem handleRecap_balanced (msg : Message M) : Balanced l (l.handleRecap E msg) := by
  have hprocessed := processBookMessage_locks E l.acquireLock msg.header true
  have hfinished := finishRecap_locks ((l.acquireLock.processBookMessage E msg.header true).createDelta
    E msg true) msg.header
    (E.createDelta true msg (l.acquireLock.processBookMessage E msg.header true).book).complete
  have hlocks := hfinished.trans hprocessed
  simp only [locks, Prod.mk.injEq] at hlocks
  exact ⟨hlocks.1, congrArg (· + 1) hlocks.2⟩

theorem onTimer_balanced : Balanced l (l.onTimer E) := by
  obtain ⟨_, _, _, hsent⟩ := invokeDeltaHandlers_eq E l.acquireLock
  unfold onTimer
  dsimp only
  split
  · exact ⟨rfl, rfl⟩
  · split
    · rw [hsent]
      exact ⟨rfl, rfl⟩
    · exact ⟨rfl, rfl⟩

/-! ### Updates -/

theorem armTimer_released :
    l.armTimer.acquired = l.acquired
      ∧ (l.armTimer.released = l.released + 1 ↔ l.timerArmed = false) := by
  unfold armTimer
  cases l.timerArmed <;> simp [releaseLock]

theorem conflateUpdate_released :
    (l.conflateUpdate E).acquired = l.acquired
      ∧ ((l.conflateUpdate E).released = l.released + 1
        ↔ ¬ (l.timerArmed ∧ (l.flushConflationInterval && E.moved (E.top l.book) l.topOfBook) = false)) := by
  unfold conflateUpdate
  by_cases hflush : (l.flushConflationInterval && E.moved (E.top l.book) l.topOfBook)
  · obtain ⟨book, deltas, log, hsent⟩ := invokeDeltaHandlers_eq E { l with topOfBook := E.top l.book }
    rw [hsent, hflush]
    by_cases htimer : l.timerArmed
    · rw [if_pos htimer]
      exact ⟨rfl, iff_of_true rfl (by simp)⟩
    · rw [if_neg htimer]
      have harm := armTimer_released { l with topOfBook := E.top l.book, book := book, deltas := deltas, log := log }
      exact ⟨harm.1, iff_of_true (harm.2.mpr (Bool.not_eq_true _ ▸ htimer)) (by simp)⟩
  · rw [Bool.eq_false_iff.mpr hflush]
    simpa using armTimer_released l

def Tells (l : Session B P T) : Prop :=
  l.handlers ≠ [] ∧ (l.updateInconsistentBook ∨ l.isConsistent)

theorem deliverUpdate_released :
    (l.deliverUpdate E).acquired = l.acquired
      ∧ ((l.deliverUpdate E).released = l.released + 1
        ↔ ¬ (l.Tells ∧ l.conflateDeltas ∧ l.deltas.complex.sendImmediately = false ∧ l.timerArmed
          ∧ (l.flushConflationInterval && E.moved (E.top l.book) l.topOfBook) = false)) := by
  unfold deliverUpdate Tells
  split
  · exact ⟨rfl, iff_of_true rfl (by simp_all)⟩
  · by_cases htell : (l.updateInconsistentBook || l.isConsistent)
    · rw [if_pos htell]
      by_cases hconflate : (l.conflateDeltas && !l.deltas.complex.sendImmediately)
      · rw [if_pos hconflate]
        obtain ⟨hacquired, hreleased⟩ := conflateUpdate_released E l
        simp_all
      · rw [if_neg hconflate]
        obtain ⟨_, _, _, hsent⟩ := invokeDeltaHandlers_eq E l
        rw [hsent]
        exact ⟨rfl, iff_of_true rfl (by simp_all)⟩
    · rw [if_neg htell]
      exact ⟨rfl, iff_of_true rfl (by simp_all)⟩

def staysConsistent (l : Session B P T) (header : Header) : Bool :=
  l.isConsistent && !(isGap l.eventSeqNum header && header.senderId == l.prevSenderId)

structure Looked (l : Session B P T) (header : Header) (r : Session B P T) : Prop where
  handlers : r.handlers = l.handlers
  updateInconsistentBook : r.updateInconsistentBook = l.updateInconsistentBook
  conflateDeltas : r.conflateDeltas = l.conflateDeltas
  flushConflationInterval : r.flushConflationInterval = l.flushConflationInterval
  book : r.book = l.book
  timerArmed : r.timerArmed = l.timerArmed
  topOfBook : r.topOfBook = l.topOfBook
  isConsistent : r.isConsistent = l.staysConsistent header
  deltas : l.conflateDeltas → r.deltas = l.deltas
  ignoreUpdate : r.ignoreUpdate = l.ignoreUpdate

theorem processBookMessage_looked {header : Header} (hseq : header.seqNum ≠ l.eventSeqNum) :
    Looked l header (l.processBookMessage E header false) := by
  have hstart : ∃ deltas, startMessage E l header false = { l with deltas := deltas }
      ∧ (l.conflateDeltas → deltas = l.deltas) := by
    unfold startMessage
    split
    · exact ⟨_, rfl, fun hconflate => by simp [hconflate]⟩
    · exact ⟨_, rfl, fun _ => rfl⟩
  obtain ⟨deltas, hstart, hdeltas⟩ := hstart
  have hprocess : l.processBookMessage E header false
      = { ({ l with deltas := deltas } : Session B P T).checkNumber header with
          prevSenderId := header.senderId, eventSeqNum := header.seqNum } := by
    rw [processBookMessage, hstart]
    rfl
  rw [hprocess, checkNumber, if_neg hseq]
  split
  next hgap => exact ⟨rfl, rfl, rfl, rfl, rfl, rfl, rfl, by simp [staysConsistent, hgap, reportGap, bne], hdeltas, rfl⟩
  next hgap => exact ⟨rfl, rfl, rfl, rfl, rfl, rfl, rfl, by simp [staysConsistent, hgap], hdeltas, rfl⟩

/-- The conflated updates that return with the lock held. -/
def Leaks (E : Engine B M P T) (l : Session B P T) : Event M → Prop
  | .update msg =>
    let created := E.createDelta false msg l.book
    l.gotInitial ∧ l.ignoreUpdate = false ∧ msg.header.seqNum ≠ l.eventSeqNum
      ∧ l.handlers ≠ [] ∧ (l.updateInconsistentBook ∨ l.staysConsistent msg.header)
      ∧ l.conflateDeltas ∧ l.timerArmed
      ∧ (created.deltas.foldl Collected.addDelta l.deltas).complex.sendImmediately = false
      ∧ (l.flushConflationInterval && E.moved (E.top created.book) l.topOfBook) = false
  | _ => False

/-- The call returns; an update before the initial throws instead, without touching the lock. -/
def Returns (l : Session B P T) : Event M → Prop
  | .update _ => l.gotInitial
  | _ => True

theorem processBookMessage_ignored {header : Header} (hseq : header.seqNum = l.eventSeqNum) :
    (l.processBookMessage E header false).ignoreUpdate := by
  have hstart : (startMessage E l header false).eventSeqNum = l.eventSeqNum := by
    unfold startMessage
    split <;> rfl
  have hcheck : (startMessage E l header false).checkNumber header
      = { startMessage E l header false with ignoreUpdate := true } := if_pos (hseq.trans hstart.symm)
  rw [processBookMessage, if_neg (by decide), hcheck]

theorem handleUpdate_balanced_iff (msg : Message M) (hl : l.gotInitial) :
    Balanced l (l.handle E (.update msg)) ↔ ¬ Leaks E l (.update msg) := by
  have hlocks := processBookMessage_locks E l.acquireLock msg.header false
  simp only [locks, Prod.mk.injEq] at hlocks
  have hhandle : l.handle E (.update msg)
      = (l.acquireLock.processBookMessage E msg.header false).applyUpdate E msg := by
    rw [handle, handleUpdate, if_pos hl]
    rfl
  rw [hhandle, applyUpdate]
  by_cases hseq : msg.header.seqNum = l.eventSeqNum
  · rw [if_pos (processBookMessage_ignored E l.acquireLock hseq)]
    exact iff_of_true ⟨hlocks.1, congrArg (· + 1) hlocks.2⟩ fun h => h.2.2.1 hseq
  · have hlooked := processBookMessage_looked E l.acquireLock hseq
    generalize l.acquireLock.processBookMessage E msg.header false = r at hlocks hlooked ⊢
    by_cases hignore : l.ignoreUpdate
    · rw [if_pos (hlooked.ignoreUpdate.trans hignore)]
      exact iff_of_true ⟨hlocks.1, congrArg (· + 1) hlocks.2⟩ fun h => nomatch h.2.1.symm.trans hignore
    · rw [if_neg (by rw [hlooked.ignoreUpdate]; exact hignore)]
      obtain ⟨hacquired, hreleased⟩ := deliverUpdate_released E (r.createDelta E msg false)
      have hbalanced : Balanced l ((r.createDelta E msg false).deliverUpdate E)
          ↔ ((r.createDelta E msg false).deliverUpdate E).released = r.released + 1 := by
        rw [Balanced, hacquired, hlocks.2]
        exact and_iff_right hlocks.1
      refine hbalanced.trans (hreleased.trans (not_congr ?_))
      by_cases hconflate : l.conflateDeltas
      · have hdeltas : r.deltas = l.deltas := hlooked.deltas hconflate
        have hconflate' : r.conflateDeltas := hlooked.conflateDeltas.trans hconflate
        have hbook : r.book = l.book := hlooked.book
        have hhandlers : r.handlers = l.handlers := hlooked.handlers
        have htell : r.updateInconsistentBook = l.updateInconsistentBook := hlooked.updateInconsistentBook
        have hconsistent : r.isConsistent = l.staysConsistent msg.header := hlooked.isConsistent
        have htimer : r.timerArmed = l.timerArmed := hlooked.timerArmed
        have hflush : r.flushConflationInterval = l.flushConflationInterval := hlooked.flushConflationInterval
        have htop : r.topOfBook = l.topOfBook := hlooked.topOfBook
        simp only [Leaks, Tells, createDelta, call, hdeltas, hconflate', hbook, hhandlers, htell,
          hconsistent, htimer, hflush, htop, hl, hconflate, Bool.eq_false_iff.mpr hignore, true_and]
        tauto
      · refine iff_of_false (fun h => ?_) (fun h => hconflate h.2.2.2.2.2.1)
        exact hconflate (hlooked.conflateDeltas.symm.trans h.2.1)

/-- In every run each call that returns has acquired and released the lock once, exactly when no call
leaks it. -/
theorem balanced_iff (E : Engine B M P T) (l : Session B P T) (events : List (Event M)) :
    Along (handle E) (fun l event => Returns l event → Balanced l (l.handle E event)) l events
      ↔ Along (handle E) (fun l event => ¬ Leaks E l event) l events := by
  refine Along.congr (fun l event => ?_) l events
  cases event with
  | recap msg => exact iff_of_true (fun _ => handleRecap_balanced E l msg) (fun h => h)
  | clear msg => exact iff_of_true (fun _ => handleClear_balanced E l msg) (fun h => h)
  | timer => exact iff_of_true (fun _ => onTimer_balanced E l) (fun h => h)
  | update msg =>
    by_cases hl : l.gotInitial
    · exact (forall_prop_of_true hl).trans (handleUpdate_balanced_iff E l msg hl)
    · exact iff_of_true (fun h => absurd h hl) (fun h => hl h.1)

def idle : Engine Unit Unit Int Unit where
  clear := id
  createDelta := fun _ _ _ => { book := () }
  cleanupDetached := id
  top := id
  moved := fun _ _ => false

def conflating : Session Unit Int Unit :=
  { handlers := [0], conflateDeltas := true, gotInitial := true, eventSeqNum := 1
    book := (), topOfBook := () }

def numbered (seqNum : UInt32) : Message Unit := { header := { seqNum := seqNum }, body := () }

theorem balanced_interval : conflating.gotInitial ∧
    Along (handle idle) (fun l event => Returns l event → Balanced l (l.handle idle event)) conflating
      [.update (numbered 2), .timer, .update (numbered 3), .recap (numbered 9)] :=
  ⟨rfl, (balanced_iff idle conflating _).mpr
    ⟨fun h => (nomatch h.2.2.2.2.2.2.1), fun h => h,
      fun h => (nomatch h.2.2.2.2.2.2.1), fun h => h, trivial⟩⟩

theorem not_balanced_interval :
    ((conflating.handle idle (.update (numbered 2))).handle idle (.update (numbered 3))).acquired = 2
      ∧ ((conflating.handle idle (.update (numbered 2))).handle idle (.update (numbered 3))).released
        = 1 := by
  decide

end Session

end OpenMama.Listener
