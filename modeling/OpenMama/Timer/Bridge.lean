import OpenMama.Lib.Run

/-!
# Destroying a bridge timer

Three parties work on a timer of the base bridge: the thread of the timer heap, which holds the heap's lock while it
runs callbacks, the thread that dispatches the queue and destroys the timer, and any number of threads that reset it.
A `reset` that is waiting for the lock as `destroy` takes it resets a freed element.
-/

namespace OpenMama

open List

namespace BridgeTimer

variable {τ : Type} [DecidableEq τ]

inductive Phase where
  | before
  | called
  | locked
  | freed
  | unlocked
  | done
deriving DecidableEq

def Phase.isFreed : Phase → Bool
  | .freed | .unlocked | .done => true
  | _ => false

/-- Where the heap's thread is: without the lock, with it, or in the callback before the check of `mDestroying`, the
reset, the enqueueing. -/
inductive HeapPlace where
  | out
  | inside
  | fired
  | resetting
  | ticking
deriving DecidableEq

inductive Party (τ : Type) where
  | heap
  | queue
  | other (t : τ)
deriving DecidableEq

inductive QueueEvent where
  | tick
  | destroy
deriving DecidableEq

/-- The action runs, `destroy` is called, a heap operation uses the freed element, `onTimerDestroyed` runs. -/
inductive Output where
  | acted
  | called
  | usedFreed
  | destroyed
deriving DecidableEq

structure World (τ : Type) where
  holder : Option (Party τ) := none
  phase : Phase := .before
  destroying : Bool := false
  /-- `mAction` is not NULL. -/
  action : Bool := true
  inTree : Bool := true
  heap : HeapPlace := .out
  /-- The threads that called `reset` and do not have the lock yet. -/
  waiting : List τ := []
  events : List QueueEvent := []
  log : List Output := []

inductive Event (τ : Type) where
  | heapLock
  | heapFire
  | heapNext
  | heapUnlock
  | dispatch
  | destroy
  | destroyNext
  | reset (t : τ)
  | resetLock (t : τ)
  | resetRun (t : τ)

/-- `resetTimer` puts the element into the tree. -/
def World.resetTimer (w : World τ) : World τ :=
  { w with inTree := true, log := if w.phase.isFreed then w.log ++ [.usedFreed] else w.log }

/-- An event that cannot happen leaves the world as it is. A reset is called before `destroy` is. -/
def step (w : World τ) : Event τ → World τ
  | .heapLock => if w.holder = none ∧ w.heap = .out then { w with holder := some .heap, heap := .inside } else w
  -- the element is due: it leaves the tree and its callback is called
  | .heapFire =>
    if w.heap = .inside ∧ w.inTree then
      { w with
        inTree := false
        heap := .fired
        log := if w.phase.isFreed then w.log ++ [.usedFreed] else w.log }
    else w
  | .heapNext =>
    match w.heap with
    | .fired => { w with heap := if w.destroying then .inside else .resetting }
    | .resetting => { w.resetTimer with heap := .ticking }
    | .ticking => { w with heap := .inside, events := w.events ++ [.tick] }
    | _ => w
  | .heapUnlock => if w.heap = .inside then { w with holder := none, heap := .out } else w
  | .dispatch =>
    if w.phase = .before ∨ w.phase = .done then
      match w.events with
      | [] => w
      | .tick :: rest => { w with events := rest, log := if w.action then w.log ++ [.acted] else w.log }
      | .destroy :: rest => { w with events := rest, log := w.log ++ [.destroyed] }
    else w
  | .destroy =>
    if w.phase = .before then
      { w with phase := .called, destroying := true, action := false, log := w.log ++ [.called] }
    else w
  | .destroyNext =>
    match w.phase with
    | .called => if w.holder = none then { w with holder := some .queue, phase := .locked } else w
    | .locked => { w with inTree := false, phase := .freed }
    | .freed => { w with holder := none, phase := .unlocked }
    | .unlocked => { w with events := w.events ++ [.destroy], phase := .done }
    | _ => w
  | .reset t => if w.phase = .before then { w with waiting := t :: w.waiting } else w
  | .resetLock t =>
    if t ∈ w.waiting ∧ w.holder = none then
      { w with waiting := w.waiting.erase t, holder := some (.other t) }
    else w
  | .resetRun t => if w.holder = some (.other t) then { w.resetTimer with holder := none } else w

def Fenced (w : World τ) : Event τ → Prop
  | .destroyNext => w.phase = .called → w.holder = none → w.waiting = []
  | _ => True

instance (w : World τ) : (e : Event τ) → Decidable (Fenced w e)
  | .destroyNext => inferInstanceAs (Decidable (_ → _))
  | .heapLock | .heapFire | .heapNext | .heapUnlock | .dispatch | .destroy | .reset _ | .resetLock _ | .resetRun _ =>
    isTrue trivial

/-- The action does not run after the call of `destroy`, no heap operation uses the freed element, and
`onTimerDestroyed` runs once at most, with no tick left in the queue; after `destroy` it has run or is still to come. -/
structure Right (w : World τ) : Prop where
  acts : .called ∈ w.log → ∃ past since, w.log = past ++ .called :: since ∧ .called ∉ past ++ since ∧ .acted ∉ since
  uses : .usedFreed ∉ w.log
  once : w.log.count .destroyed ≤ 1
  last : .destroyed ∈ w.log → .tick ∉ w.events
  comes : w.phase = .done → w.log.count .destroyed + w.events.count .destroy = 1

/-- The heap or the queue holds the lock where it is in its section. -/
structure Locked (w : World τ) : Prop where
  heap : w.holder = some .heap ↔ w.heap ≠ .out
  queue : w.holder = some .queue ↔ w.phase = .locked ∨ w.phase = .freed

/-- From the lock of `destroy` on no reset is under way, and the freed element is in nobody's hands. -/
structure Closed (w : World τ) : Prop where
  flags : w.destroying = (w.phase != .before) ∧ w.action = (w.phase == .before)
  resets : w.phase ≠ .before → w.phase ≠ .called → w.waiting = [] ∧ ∀ t, w.holder ≠ some (.other t)
  element : w.phase.isFreed → w.inTree = false ∧ (w.heap = .out ∨ w.heap = .inside)

/-- What has happened and what is queued, by the phase of `destroy`. -/
structure Told (w : World τ) : Prop where
  uses : .usedFreed ∉ w.log
  before : w.phase = .before → .called ∉ w.log
  after : w.phase ≠ .before → ∃ past since, w.log = past ++ .called :: since ∧ .called ∉ past ++ since ∧ .acted ∉ since
  early : w.phase ≠ .done → .destroy ∉ w.events ∧ .destroyed ∉ w.log
  done : w.phase = .done →
    (∃ ticks, w.events = ticks ++ [.destroy] ∧ .destroy ∉ ticks) ∧ .destroyed ∉ w.log ∨
      w.events = [] ∧ w.log.count .destroyed = 1

theorem Phase.isFreed_iff (p : Phase) : p.isFreed ↔ p = .freed ∨ p = .unlocked ∨ p = .done := by
  cases p <;> decide

variable {w : World τ}

theorem step_dispatch (w : World τ) : ∃ events log, step w .dispatch = { w with events, log } := by
  unfold step
  dsimp only
  split
  · split
    · exact ⟨w.events, w.log, rfl⟩
    · exact ⟨_, _, rfl⟩
    · exact ⟨_, _, rfl⟩
  · exact ⟨w.events, w.log, rfl⟩

theorem Locked.step (h : Locked w) (e : Event τ) : Locked (step w e) := by
  obtain ⟨hheap, hqueue⟩ := h
  cases e with
  | heapNext =>
    simp only [BridgeTimer.step]
    split <;> constructor <;> grind [World.resetTimer]
  | destroyNext => cases hphase : w.phase <;> simp only [BridgeTimer.step, hphase] <;> constructor <;> grind
  | dispatch =>
    obtain ⟨_, _, heq⟩ := step_dispatch w
    rw [heq]
    exact ⟨hheap, hqueue⟩
  | _ =>
    simp only [BridgeTimer.step]
    split <;> constructor <;> grind [World.resetTimer]

theorem Closed.flags_step (h : Closed w) (e : Event τ) :
    (step w e).destroying = ((step w e).phase != .before) ∧ (step w e).action = ((step w e).phase == .before) := by
  have hflags := h.flags
  cases e with
  | dispatch =>
    obtain ⟨_, _, heq⟩ := step_dispatch w
    rw [heq]
    exact hflags
  | destroyNext => cases hphase : w.phase <;> simp only [BridgeTimer.step, hphase] <;> grind
  | _ =>
    simp only [BridgeTimer.step]
    split <;> first | exact hflags | exact ⟨rfl, rfl⟩

section

variable (hlocked : Locked w) (h : Closed w) {e : Event τ}
include hlocked h

omit hlocked in
theorem Closed.resets_step (hok : Fenced w e) (hbefore : (step w e).phase ≠ .before)
    (hcalled : (step w e).phase ≠ .called) : (step w e).waiting = [] ∧ ∀ t, (step w e).holder ≠ some (.other t) := by
  have hresets := h.resets
  cases e with
  | dispatch =>
    obtain ⟨_, _, heq⟩ := step_dispatch w
    rw [heq] at hbefore hcalled ⊢
    exact hresets hbefore hcalled
  | destroyNext =>
    cases hphase : w.phase <;> simp only [BridgeTimer.step, hphase] at hbefore hcalled ⊢ <;> grind [Fenced]
  | _ =>
    simp only [BridgeTimer.step] at hbefore hcalled ⊢
    split <;> grind [World.resetTimer]

theorem Closed.element_step (hfreed : (step w e).phase.isFreed) :
    (step w e).inTree = false ∧ ((step w e).heap = .out ∨ (step w e).heap = .inside) := by
  have helement := h.element
  cases e with
  | dispatch =>
    obtain ⟨_, _, heq⟩ := step_dispatch w
    rw [heq] at hfreed ⊢
    exact helement hfreed
  | destroyNext =>
    have hheap := hlocked.heap
    have hqueue := hlocked.queue
    cases hphase : w.phase <;> simp only [BridgeTimer.step, hphase] at hfreed ⊢ <;> grind [Phase.isFreed_iff]
  | resetRun t =>
    have hresets := h.resets
    simp only [BridgeTimer.step] at hfreed ⊢
    split <;> grind [World.resetTimer, Phase.isFreed_iff]
  | _ =>
    simp only [BridgeTimer.step] at hfreed ⊢
    split <;> grind [World.resetTimer, Phase.isFreed]

end

theorem Told.dispatch (hclosed : Closed w) (h : Told w) : Told (step w .dispatch) := by
  by_cases hidle : w.phase = .before ∨ w.phase = .done
  · simp only [BridgeTimer.step, if_pos hidle]
    cases hevents : w.events with
    | nil => exact h
    | cons event _ =>
      cases event with
      | tick =>
        rcases hidle with hphase | hphase
        · -- the action runs, since `destroy` was not called
          have haction : w.action := by rw [hclosed.flags.2, hphase]; rfl
          have hearly := h.early (by rw [hphase]; nofun)
          rw [hevents] at hearly
          have hcalled := h.before hphase
          refine ⟨?_, fun _ => ?_, (absurd hphase), fun _ => ⟨?_, ?_⟩, fun hdone => ?_⟩
          · simp [haction, h.uses]
          · simp [haction, hcalled]
          · exact fun hmem => hearly.1 (mem_cons_of_mem _ hmem)
          · simp [haction, hearly.2]
          · cases hphase.symm.trans hdone
        · have haction : w.action = false := by rw [hclosed.flags.2, hphase]; rfl
          simp only [haction]
          refine ⟨h.uses, h.before, h.after, (absurd hphase), fun _ => ?_⟩
          rcases h.done hphase with ⟨⟨ticks, hticks, hmem⟩, hlog⟩ | ⟨hnil, _⟩
          · cases ticks with
            | nil => cases hevents.symm.trans hticks
            | cons _ ticks =>
              obtain ⟨-, hrest⟩ := List.cons.inj (hevents.symm.trans hticks)
              exact .inl ⟨⟨ticks, hrest, fun hin => hmem (mem_cons_of_mem _ hin)⟩, hlog⟩
          · cases hevents.symm.trans hnil
      | destroy =>
        have hphase : w.phase = .done := by
          by_contra hne
          exact (h.early hne).1 (by rw [hevents]; exact mem_cons_self)
        obtain ⟨past, since, hlog, hcalled, hacted⟩ := h.after (by rw [hphase]; nofun)
        refine ⟨by simp [h.uses], fun hbefore => ?_, fun _ => ⟨past, since ++ [.destroyed], by simp [hlog], ?_, ?_⟩,
          (absurd hphase), fun _ => ?_⟩
        · cases hphase.symm.trans hbefore
        · simpa using hcalled
        · simpa using hacted
        rcases h.done hphase with ⟨⟨ticks, hticks, hmem⟩, hnot⟩ | ⟨hnil, _⟩
        · cases ticks with
          | nil =>
            obtain ⟨-, hrest⟩ := List.cons.inj (hevents.symm.trans hticks)
            exact .inr ⟨hrest, by simp [count_eq_zero_of_not_mem hnot]⟩
          | cons _ _ =>
            obtain ⟨rfl, -⟩ := List.cons.inj (hevents.symm.trans hticks)
            exact absurd mem_cons_self hmem
        · cases hevents.symm.trans hnil
  · simpa only [BridgeTimer.step, if_neg hidle] using h

theorem Told.destroy (h : Told w) : Told (step w .destroy) := by
  by_cases hphase : w.phase = .before
  · simp only [BridgeTimer.step, if_pos hphase]
    have hearly := h.early (by rw [hphase]; nofun)
    refine ⟨by simp [h.uses], by nofun, fun _ => ⟨w.log, [], rfl, ?_, by nofun⟩, fun _ => ⟨hearly.1, ?_⟩, by nofun⟩
    · simpa using h.before hphase
    · simp [hearly.2]
  · simpa only [BridgeTimer.step, if_neg hphase] using h

omit [DecidableEq τ] in
theorem Told.onwards (h : Told w) (hphase : w.phase ≠ .before ∧ w.phase ≠ .done) {w' : World τ}
    (hphase' : w'.phase ≠ .before ∧ w'.phase ≠ .done) (hevents : w'.events = w.events) (hlog : w'.log = w.log) :
    Told w' := by
  refine ⟨hlog ▸ h.uses, fun hbefore => absurd hbefore hphase'.1, fun _ => hlog ▸ h.after hphase.1, fun _ => ?_,
    fun hdone => absurd hdone hphase'.2⟩
  rw [hevents, hlog]
  exact h.early hphase.2

theorem Told.destroyNext (h : Told w) : Told (step w .destroyNext) := by
  cases hphase : w.phase with
  | before | done => simpa only [BridgeTimer.step, hphase] using h
  | called =>
    simp only [BridgeTimer.step, hphase]
    split
    · exact h.onwards (by simp [hphase]) (by simp) rfl rfl
    · exact h
  | locked | freed =>
    simp only [BridgeTimer.step, hphase]
    exact h.onwards (by simp [hphase]) (by simp) rfl rfl
  | unlocked =>
    have hearly := h.early (by rw [hphase]; nofun)
    simp only [BridgeTimer.step, hphase]
    exact ⟨h.uses, by nofun, fun _ => h.after (by rw [hphase]; nofun), (absurd rfl),
      fun _ => .inl ⟨⟨w.events, rfl, hearly.1⟩, hearly.2⟩⟩

omit [DecidableEq τ] in
theorem Told.of_eq (h : Told w) {w' : World τ} (hphase : w'.phase = w.phase) (hevents : w'.events = w.events)
    (hlog : w'.log = w.log) : Told w' := by
  refine ⟨hlog ▸ h.uses, ?_, ?_, ?_, ?_⟩ <;> rw [hphase]
  · exact hlog ▸ h.before
  · exact hlog ▸ h.after
  · exact hevents ▸ hlog ▸ h.early
  · exact hevents ▸ hlog ▸ h.done

omit [DecidableEq τ] in
theorem Told.tick (h : Told w) (hphase : w.phase ≠ .done) : Told { w with events := w.events ++ [.tick] } := by
  refine ⟨h.uses, h.before, h.after, fun _ => ?_, fun hdone => absurd hdone hphase⟩
  simpa using h.early hphase

omit [DecidableEq τ] in
theorem Told.resetTimer (h : Told w) (hfreed : ¬w.phase.isFreed) : Told w.resetTimer := by
  rw [World.resetTimer, if_neg hfreed]
  exact h.of_eq rfl rfl rfl

theorem Told.step (hclosed : Closed w) (h : Told w) (e : Event τ) : Told (step w e) := by
  cases e with
  | dispatch => exact h.dispatch hclosed
  | destroy => exact h.destroy
  | destroyNext => exact h.destroyNext
  | heapFire =>
    simp only [BridgeTimer.step]
    split
    next hdue =>
      have hfreed : ¬w.phase.isFreed := fun hfreed => by
        cases (hclosed.element hfreed).1.symm.trans hdue.2
      rw [if_neg hfreed]
      exact h.of_eq rfl rfl rfl
    · exact h
  | heapNext =>
    -- the callback is under way, so the element is not freed
    have hfreed : w.heap ≠ .out → w.heap ≠ .inside → ¬w.phase.isFreed := fun hout hinside hfreed =>
      (hclosed.element hfreed).2.elim hout hinside
    cases hplace : w.heap with
    | out | inside => simpa only [BridgeTimer.step, hplace] using h
    | fired =>
      simp only [BridgeTimer.step, hplace]
      exact h.of_eq rfl rfl rfl
    | resetting =>
      simp only [BridgeTimer.step, hplace]
      exact (h.resetTimer (hfreed (by rw [hplace]; nofun) (by rw [hplace]; nofun))).of_eq rfl rfl rfl
    | ticking =>
      simp only [BridgeTimer.step, hplace]
      have hnot := hfreed (by rw [hplace]; nofun) (by rw [hplace]; nofun)
      exact (h.tick (fun hdone => hnot (by rw [hdone]; rfl))).of_eq rfl rfl rfl
  | resetRun t =>
    simp only [BridgeTimer.step]
    split
    next hholder =>
      have hfreed : ¬w.phase.isFreed := fun hfreed =>
        (hclosed.resets (by rintro hphase; rw [hphase] at hfreed; cases hfreed)
          (by rintro hphase; rw [hphase] at hfreed; cases hfreed)).2 t hholder
      exact (h.resetTimer hfreed).of_eq rfl rfl rfl
    · exact h
  | _ =>
    simp only [BridgeTimer.step]
    split
    · exact h.of_eq rfl rfl rfl
    · exact h

omit [DecidableEq τ] in
theorem Told.right (h : Told w) : Right w := by
  refine ⟨fun hcalled => h.after (fun hphase => h.before hphase hcalled), h.uses, ?_, fun hdestroyed => ?_,
    fun hphase => ?_⟩
  · by_cases hphase : w.phase = .done
    · rcases h.done hphase with ⟨-, hnot⟩ | ⟨-, hcount⟩
      · rw [count_eq_zero_of_not_mem hnot]
        exact Nat.zero_le 1
      · exact Nat.le_of_eq hcount
    · rw [count_eq_zero_of_not_mem (h.early hphase).2]
      exact Nat.zero_le 1
  · by_cases hphase : w.phase = .done
    · rcases h.done hphase with ⟨-, hnot⟩ | ⟨hnil, -⟩
      · exact absurd hdestroyed hnot
      · rw [hnil]
        nofun
    · exact absurd hdestroyed (h.early hphase).2
  · rcases h.done hphase with ⟨⟨_, hticks, hmem⟩, hnot⟩ | ⟨hnil, hcount⟩
    · rw [count_eq_zero_of_not_mem hnot, hticks]
      simp [count_eq_zero_of_not_mem hmem]
    · rw [hnil, hcount]
      rfl

theorem told_run {es : List (Event τ)} (h : Along step Fenced {} es) : Told (es.foldl step {}) := by
  have hstart : Locked ({} : World τ) ∧ Closed ({} : World τ) ∧ Told ({} : World τ) := by
    refine ⟨⟨by simp, by simp⟩, ⟨⟨rfl, rfl⟩, by simp, by nofun⟩, ?_⟩
    exact ⟨by nofun, by nofun, (absurd rfl), fun _ => ⟨by nofun, by nofun⟩, by nofun⟩
  refine (h.invariant (I := fun w => Locked w ∧ Closed w ∧ Told w) hstart ?_).2.2
  rintro w e ⟨hlocked, hclosed, htold⟩ hok
  exact ⟨hlocked.step e, ⟨hclosed.flags_step e, hclosed.resets_step hok, hclosed.element_step hlocked⟩,
    htold.step hclosed e⟩

/-- After every schedule in which no reset waits for the lock as `destroy` takes it, the timer is destroyed as it
should be. -/
theorem destroy_right {es : List (Event τ)} (h : Along step Fenced {} es) : Right (es.foldl step {}) :=
  (told_run h).right

theorem destroy_right_after_tick :
    Right (([.heapLock, .heapFire, .heapNext, .reset 1, .heapNext, .heapNext, .heapUnlock, .destroy, .resetLock 1,
      .resetRun 1, .destroyNext, .destroyNext, .destroyNext, .destroyNext, .dispatch, .dispatch] :
        List (Event Nat)).foldl step {}) :=
  destroy_right (by decide)

theorem not_right_waiting_reset :
    ¬ Right (([.reset 1, .destroy, .destroyNext, .destroyNext, .destroyNext, .resetLock 1, .resetRun 1] :
      List (Event Nat)).foldl step {}) :=
  fun h => nomatch h.uses

end BridgeTimer

end OpenMama
