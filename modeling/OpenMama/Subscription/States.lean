import OpenMama.Subscription.Machine
import OpenMama.Lib.Run

/-!
# The states of a subscription

`Phase` is what a subscription is meant to be, `Phase.world` what the rest of the record and the surroundings are
then, and `Phase.next` the state machine. The code follows it as long as every activation gets its action on the
throttle and through, and nothing is deactivated that has no bridge subscription.
-/

namespace OpenMama.Subscription

open State World

def State.isPending : State → Bool
  | .deactivating | .reactivating | .destroying => true
  | _ => false

/-- What the state says of the calls and callbacks to come. -/
structure Inv (w : World) : Prop where
  activating : w.state = .activating ↔ 0 < w.queued
  pending : w.state.isPending = true ↔ 0 < w.outstanding
  counted : w.openObjects = if w.state = .activated ∨ 0 < w.outstanding then 1 else 0
  destroyed : w.destroys = w.onDestroy + if w.state = .destroying then 1 else 0
  defined : w.fault = false

/-- The user's `onDestroy` is invoked once when the state becomes DESTROYED, and otherwise not. -/
def InvokesOnDestroy (w : World) (op : Op) : Prop :=
  (w.step op).onDestroy = w.onDestroy + if w.state ≠ .destroyed ∧ (w.step op).state = .destroyed then 1 else 0

/-! ### The state machine -/

structure Phase where
  type : SubscType := .marketData
  snapshot : Bool := false
  state : State := .allocated
  bridged : Bool := false
  referenceCount : Int := 0
  destroyed : Nat := 0
deriving DecidableEq

namespace Phase

def world (a : Phase) : World where
  type := a.type
  snapshot := a.snapshot
  state := a.state
  subscBridge := a.bridged
  action := a.state = .activating
  referenceCount := a.referenceCount
  queued := if a.state = .activating then 1 else 0
  outstanding := if a.state.isPending then 1 else 0
  openObjects := if a.state = .activated ∨ a.state.isPending then 1 else 0
  onDestroy := a.destroyed
  destroys := a.destroyed + if a.state = .destroying then 1 else 0

structure Valid (a : Phase) : Prop where
  used : a.state ≠ .deallocating ∧ a.state ≠ .deallocated
  active : a.bridged = true → a.state = .activated
  snapshot : a.bridged = true → a.type = .marketData → a.snapshot = false
  basic : a.type = .basic → a.state ≠ .setup ∧ a.state ≠ .activating ∧ a.state ≠ .reactivating

def create (c : Creation) (a : Phase) : Phase :=
  if !a.snapshot && c.bridged then
    { a with state := .activated, bridged := true, referenceCount := a.referenceCount + 1 }
  else { a with state := .activated }

def start (t : Throttling) (a : Phase) : Phase :=
  match t with
  | .fails => a
  | .queues => { a with state := .activating }
  | .runs c => a.create c

def next (a : Phase) : Op → Phase
  | .setup snapshot ok =>
    if ok ∧ a.type = .marketData ∧ (a.state = .allocated ∨ a.state = .destroyed) then
      { a with snapshot := snapshot, state := .setup }
    else a
  | .createBasic bridged =>
    if bridged ∧ (a.state = .allocated ∨ a.state = .destroyed) then
      { a with type := .basic, state := .activated, bridged := true, referenceCount := a.referenceCount + 1 }
    else a
  | .activate t =>
    match a.type, a.state with
    | .marketData, .setup | .marketData, .deactivated => a.start t
    | .marketData, .deactivating => { a with state := .reactivating }
    | _, _ => a
  | .deactivate =>
    match a.type, a.state with
    | .marketData, .activating => { a with state := .deactivated }
    | .marketData, .reactivating => { a with state := .deactivating }
    | _, .activated => { a with state := if a.bridged then .deactivating else .deactivated, bridged := false }
    | _, _ => a
  | .finishDestroy _ =>
    match a.state with
    | .setup | .deactivated => { a with state := .destroyed, destroyed := a.destroyed + 1 }
    | .deactivating => { a with state := .destroying }
    | _ => a
  | .fire c => if a.state = .activating then a.create c else a
  | .bridgeDestroyed t _ =>
    match a.state with
    | .deactivating => { a with state := .deactivated, referenceCount := a.referenceCount - 1 }
    | .destroying =>
      { a with state := .destroyed, destroyed := a.destroyed + 1, referenceCount := a.referenceCount - 1 }
    | .reactivating =>
      let started := { a with state := .deactivated }.start t
      { started with referenceCount := started.referenceCount - 1 }
    | _ => a
  | .registerReference => { a with referenceCount := a.referenceCount + 1 }
  | .deallocate => a

theorem inv_world {a : Phase} : Inv a.world := by
  obtain ⟨_, _, state, _, _, _⟩ := a
  refine ⟨?_, ?_, ?_, rfl, rfl⟩
  · cases state <;> simp [world]
  · cases state <;> simp [world, isPending]
  · cases state <;> simp [world, isPending]

end Phase

def Throttling.Fails (t : Throttling) (snapshot : Bool) : Prop :=
  match t with
  | .fails => True
  | .queues => False
  | .runs c => snapshot = false ∧ c.added = false

instance (t : Throttling) (snapshot : Bool) : Decidable (t.Fails snapshot) := by
  unfold Throttling.Fails
  split <;> infer_instance

def Breaks (w : World) : Op → Prop
  | .createBasic bridged => (w.state = .allocated ∨ w.state = .destroyed) ∧ bridged = false
  | .activate t => w.type = .marketData ∧ (w.state = .setup ∨ w.state = .deactivated) ∧ t.Fails w.snapshot
  | .fire c => w.state = .activating ∧ w.snapshot = false ∧ c.added = false
  | .bridgeDestroyed t _ => w.state = .reactivating ∧ t.Fails w.snapshot
  | .deactivate => w.state = .activated ∧ (w.type = .marketData → w.snapshot = false) ∧ w.subscBridge = false
  | _ => False

instance (w : World) (op : Op) : Decidable (Breaks w op) := by
  unfold Breaks
  split <;> infer_instance

/-- The calls of the user who does not deallocate the subscription yet, and the steps of the throttle and the
bridge. -/
def Op.IsUse : Op → Prop
  | .finishDestroy true | .bridgeDestroyed _ true | .deallocate => False
  | _ => True

namespace Phase

variable {a : Phase}

theorem step_setup (a : Phase) (snapshot ok : Bool) :
    a.world.step (.setup snapshot ok) = (a.next (.setup snapshot ok)).world := by
  obtain ⟨type, _, state, _, _, _⟩ := a
  cases state <;> cases type <;> cases ok <;> rfl

theorem step_createBasic (bridged : Bool) (hgood : ¬ Breaks a.world (.createBasic bridged)) :
    a.world.step (.createBasic bridged) = (a.next (.createBasic bridged)).world := by
  obtain ⟨_, _, state, _, _, destroyed⟩ := a
  cases bridged with
  | true => cases state <;> rfl
  | false =>
    cases state with
    | allocated => exact absurd ⟨.inl rfl, rfl⟩ hgood
    | destroyed => exact absurd ⟨.inr rfl, rfl⟩ hgood
    | _ => rfl

theorem activateInternal_world (t : Throttling) (htype : a.type = .marketData) (hbridged : a.bridged = false)
    (hstate : a.state = .setup ∨ a.state = .deactivated) (ht : ¬ t.Fails a.snapshot) :
    (({ a.world.lock with state := .activating }.activateInternal t).1).unlock = (a.start t).world := by
  obtain ⟨_, snapshot, _, _, _, _⟩ := a
  cases t with
  | fails => exact absurd trivial ht
  | queues => rcases hstate with rfl | rfl <;> rfl
  | runs c =>
    obtain ⟨added, bridged'⟩ := c
    cases snapshot with
    | true => rcases hstate with rfl | rfl <;> rfl
    | false =>
      cases added with
      | true => rcases hstate with rfl | rfl <;> cases bridged' <;> rfl
      | false => exact absurd ⟨rfl, rfl⟩ ht

theorem step_activate (t : Throttling) (h : a.Valid) (hgood : ¬ Breaks a.world (.activate t)) :
    a.world.step (.activate t) = (a.next (.activate t)).world := by
  have hstart : a.type = .marketData → a.state = .setup ∨ a.state = .deactivated →
      (({ a.world.lock with state := .activating }.activateInternal t).1).unlock = (a.start t).world := by
    intro htype hstate
    refine activateInternal_world t htype ?_ hstate fun hfails => hgood ⟨htype, hstate, hfails⟩
    rw [← Bool.not_eq_true]
    intro hbridged
    rcases hstate with hs | hs <;> cases hs.symm.trans (h.active hbridged)
  obtain ⟨type, _, state, _, _, _⟩ := a
  cases type with
  | basic => cases state <;> rfl
  | marketData =>
    cases state with
    | setup => exact hstart rfl (.inl rfl)
    | deactivated => exact hstart rfl (.inr rfl)
    | _ => rfl

theorem step_deactivate (h : a.Valid) (hgood : ¬ Breaks a.world .deactivate) :
    a.world.step .deactivate = (a.next .deactivate).world := by
  have hsnapshot := h.snapshot
  obtain ⟨type, snapshot, state, bridged, _, _⟩ := a
  cases state with
  | activated =>
    cases type with
    | basic =>
      cases bridged with
      | true => rfl
      | false => exact absurd ⟨rfl, nofun, rfl⟩ hgood
    | marketData =>
      cases bridged with
      | true =>
        obtain rfl : snapshot = false := hsnapshot rfl rfl
        rfl
      | false =>
        cases snapshot with
        | true => rfl
        | false => exact absurd ⟨rfl, fun _ => rfl, rfl⟩ hgood
  | activating =>
    cases type with
    | basic => exact absurd rfl (h.basic rfl).2.1
    | marketData => rfl
  | reactivating =>
    cases type with
    | basic => exact absurd rfl (h.basic rfl).2.2
    | marketData => rfl
  | _ => cases type <;> rfl

theorem step_finishDestroy (a : Phase) :
    a.world.step (.finishDestroy false) = (a.next (.finishDestroy false)).world := by
  obtain ⟨_, _, state, _, _, _⟩ := a
  cases state <;> rfl

theorem step_fire (c : Creation) (hgood : ¬ Breaks a.world (.fire c)) :
    a.world.step (.fire c) = (a.next (.fire c)).world := by
  obtain ⟨_, snapshot, state, _, _, _⟩ := a
  obtain ⟨added, bridged'⟩ := c
  cases state with
  | activating =>
    cases snapshot with
    | true => rfl
    | false =>
      cases added with
      | true => cases bridged' <;> rfl
      | false => exact absurd ⟨rfl, rfl, rfl⟩ hgood
  | _ => rfl

theorem step_bridgeDestroyed (t : Throttling) (h : a.Valid) (hgood : ¬ Breaks a.world (.bridgeDestroyed t false)) :
    a.world.step (.bridgeDestroyed t false) = (a.next (.bridgeDestroyed t false)).world := by
  obtain ⟨type, snapshot, state, _, _, _⟩ := a
  cases state with
  | reactivating =>
    obtain rfl : type = .marketData := by
      cases type with
      | basic => exact absurd rfl (h.basic rfl).2.2
      | marketData => rfl
    cases t with
    | fails => exact absurd ⟨rfl, trivial⟩ hgood
    | queues => rfl
    | runs c =>
      obtain ⟨added, bridged'⟩ := c
      cases snapshot with
      | true => rfl
      | false =>
        cases added with
        | true => cases bridged' <;> rfl
        | false => exact absurd ⟨rfl, rfl, rfl⟩ hgood
  | _ => rfl

theorem step_world (h : a.Valid) {op : Op} (hop : op.IsUse) (hgood : ¬ Breaks a.world op) :
    a.world.step op = (a.next op).world := by
  cases op with
  | setup snapshot ok => exact step_setup a snapshot ok
  | createBasic bridged => exact step_createBasic bridged hgood
  | activate t => exact step_activate t h hgood
  | deactivate => exact step_deactivate h hgood
  | finishDestroy deallocates =>
    cases deallocates with
    | true => exact hop.elim
    | false => exact step_finishDestroy a
  | fire c => exact step_fire c hgood
  | bridgeDestroyed t deallocates =>
    cases deallocates with
    | true => exact hop.elim
    | false => exact step_bridgeDestroyed t h hgood
  | registerReference => rfl
  | deallocate => exact hop.elim

theorem valid_of_not_bridged (hbridged : a.bridged = false) (hused : a.state ≠ .deallocating ∧ a.state ≠ .deallocated)
    (hbasic : a.type = .basic → a.state ≠ .setup ∧ a.state ≠ .activating ∧ a.state ≠ .reactivating) : a.Valid where
  used := hused
  active hb := absurd hb (by rw [hbridged]; exact Bool.false_ne_true)
  snapshot hb := absurd hb (by rw [hbridged]; exact Bool.false_ne_true)
  basic := hbasic

theorem Valid.bridged_eq_false (h : a.Valid) (hstate : a.state ≠ .activated) : a.bridged = false := by
  rw [← Bool.not_eq_true]
  exact fun hb => hstate (h.active hb)

theorem Valid.type_eq (h : a.Valid) (hstate : a.state = .setup ∨ a.state = .activating ∨ a.state = .reactivating) :
    a.type = .marketData := by
  cases htype : a.type with
  | marketData => rfl
  | basic =>
    obtain ⟨h₁, h₂, h₃⟩ := h.basic htype
    rcases hstate with hs | hs | hs
    · exact absurd hs h₁
    · exact absurd hs h₂
    · exact absurd hs h₃

def registered (a : Phase) : Int :=
  a.referenceCount - (if a.bridged then 1 else 0) - if a.state.isPending then 1 else 0

/-- One `onDestroy` from one phase to the other if the second is DESTROYED, and otherwise none. -/
def Counts (a b : Phase) : Prop :=
  b.destroyed = a.destroyed + if a.state ≠ .destroyed ∧ b.state = .destroyed then 1 else 0

/-- A step of a subscription in use. -/
structure Moves (a b : Phase) (registers : Int) : Prop where
  valid : b.Valid
  counts : Counts a b
  registered : b.registered = a.registered + registers

section

variable (h : a.Valid)
include h

theorem Valid.stays : Moves a a 0 := ⟨h, by simp [Counts], (Int.add_zero _).symm⟩

theorem Valid.moves {b : Phase} {s : State} (hs : a.state = s) (hstate : s ≠ .activated := by decide)
    (hbridged : b.bridged = a.bridged := by rfl)
    (hused : b.state ≠ .deallocating ∧ b.state ≠ .deallocated := by simp)
    (hbasic : b.type = .basic → b.state ≠ .setup ∧ b.state ≠ .activating ∧ b.state ≠ .reactivating := by simp [*])
    (hcounts : Counts a b := by simp [Counts, *])
    (hreferences : b.referenceCount - (if b.state.isPending then 1 else 0) =
      a.referenceCount - if a.state.isPending then 1 else 0 := by simp [isPending, *]) : Moves a b 0 := by
  have hnone := h.bridged_eq_false (hs ▸ hstate)
  refine ⟨valid_of_not_bridged (hbridged.trans hnone) hused hbasic, hcounts, ?_⟩
  simpa [registered, hbridged, hnone] using hreferences

theorem moves_start (t : Throttling) (htype : a.type = .marketData)
    (hstate : a.state = .setup ∨ a.state = .deactivated ∨ a.state = .activating) : Moves a (a.start t) 0 := by
  have hactive : a.state ≠ .activated := by rcases hstate with hs | hs | hs <;> simp [hs]
  have hpending : a.state.isPending = false := by rcases hstate with hs | hs | hs <;> simp [hs, isPending]
  cases t with
  | fails => exact h.stays
  | queues =>
    exact h.moves rfl hactive rfl (by simp [start]) (by simp [start, htype]) (by simp [Counts, start])
      (by rw [hpending]; rfl)
  | runs c =>
    simp only [start, create]
    split
    next hb =>
      refine ⟨⟨⟨nofun, nofun⟩, fun _ => rfl, fun _ _ => ?_, by simp [htype]⟩, by simp [Counts], ?_⟩
      · simpa using (Bool.and_eq_true_iff.mp hb).1
      · have hdone : activated.isPending = false := rfl
        simp [registered, hpending, hdone, h.bridged_eq_false hactive]
    · exact h.moves rfl hactive rfl (by simp) (by simp) (by simp [Counts]) (by rw [hpending]; rfl)

theorem moves_bridgeDestroyed (t : Throttling) (deallocates : Bool) :
    Moves a (a.next (.bridgeDestroyed t deallocates)) 0 := by
  simp only [next]
  split
  next hs => exact h.moves hs
  next hs => exact h.moves hs
  next hs =>
    have hnone := h.bridged_eq_false (by simp [hs])
    have hidle : { a with state := .deactivated }.Valid := valid_of_not_bridged hnone (by simp) (by simp)
    obtain ⟨⟨hused, hactive, hsnapshot, hbasic⟩, hcounts, hregistered⟩ :=
      moves_start hidle t (h.type_eq (.inr (.inr hs))) (.inr (.inl rfl))
    refine ⟨⟨hused, hactive, hsnapshot, hbasic⟩, by simpa [Counts, hs] using hcounts, ?_⟩
    simp only [registered, hs, hnone, isPending] at hregistered ⊢
    simp at hregistered ⊢
    omega
  · exact h.stays

theorem moves_next (op : Op) : Moves a (a.next op) (if op = .registerReference then 1 else 0) := by
  cases op with
  | setup _ _ =>
    simp only [next]
    split
    next hcond =>
      obtain ⟨-, htype, hs | hs⟩ := hcond <;> exact h.moves hs
    · exact h.stays
  | createBasic _ =>
    simp only [next]
    split
    next hcond =>
      refine ⟨⟨by simp, fun _ => rfl, nofun, by simp⟩, by simp [Counts], ?_⟩
      rcases hcond.2 with hs | hs <;> simp [registered, hs, h.bridged_eq_false (by simp [hs]), isPending]
    · exact h.stays
  | activate t =>
    simp only [next]
    split
    next htype hs => exact moves_start h t htype (.inl hs)
    next htype hs => exact moves_start h t htype (.inr (.inl hs))
    next _ hs => exact h.moves hs
    · exact h.stays
  | deactivate =>
    simp only [next]
    split
    next hs => exact h.moves hs
    next hs => exact h.moves hs
    next hs =>
      -- the reference of the bridge subscription is that of the callback it owes
      cases hbridged : a.bridged <;>
        exact ⟨valid_of_not_bridged rfl (by simp) (by simp), by simp [Counts],
          by simp [registered, hs, hbridged, isPending]⟩
    · exact h.stays
  | finishDestroy _ =>
    simp only [next]
    split
    next hs => exact h.moves hs
    next hs => exact h.moves hs
    next hs => exact h.moves hs
    · exact h.stays
  | fire c =>
    simp only [next]
    split
    next hs => exact moves_start h (.runs c) (h.type_eq (.inr (.inl hs))) (.inr (.inr hs))
    · exact h.stays
  | bridgeDestroyed t deallocates => exact moves_bridgeDestroyed h t deallocates
  | registerReference =>
    refine ⟨{ h with }, by simp [Counts, next], ?_⟩
    simp only [registered, next, ↓reduceIte]
    grind
  | deallocate => exact h.stays

end

theorem not_inv_of_breaks {op : Op} (h : a.Valid) (hbreaks : Breaks a.world op) : ¬ Inv (a.world.step op) := by
  have hactivating : ∀ w : World, w.state = .activating → w.queued = 0 → ¬ Inv w := fun w hstate hqueued hinv =>
    absurd (hinv.activating.mp hstate) (by rw [hqueued]; exact Nat.lt_irrefl 0)
  have hpending : ∀ w : World, w.state = .deactivating → w.outstanding = 0 → ¬ Inv w :=
    fun w hstate houtstanding hinv =>
      absurd (hinv.pending.mp (by rw [hstate]; rfl)) (by rw [houtstanding]; exact Nat.lt_irrefl 0)
  obtain ⟨type, _, _, _, _, _⟩ := a
  cases op with
  | createBasic _ =>
    obtain ⟨hstate, rfl⟩ := hbreaks
    rcases hstate with hs | hs <;> cases hs <;> exact hactivating _ rfl rfl
  | activate t =>
    obtain ⟨⟨⟩, hstate, hfails⟩ := hbreaks
    cases t with
    | fails => rcases hstate with hs | hs <;> cases hs <;> exact hactivating _ rfl rfl
    | queues => exact hfails.elim
    | runs c =>
      obtain ⟨added, created⟩ := c
      obtain ⟨⟨⟩, ⟨⟩⟩ := hfails
      rcases hstate with hs | hs <;> cases hs <;> exact hactivating _ rfl rfl
  | fire c =>
    obtain ⟨added, created⟩ := c
    obtain ⟨⟨⟩, ⟨⟩, ⟨⟩⟩ := hbreaks
    exact hactivating _ rfl rfl
  | bridgeDestroyed t _ =>
    obtain ⟨⟨⟩, hfails⟩ := hbreaks
    obtain rfl : type = .marketData := h.type_eq (.inr (.inr rfl))
    cases t with
    | fails => exact hactivating _ rfl rfl
    | queues => exact hfails.elim
    | runs c =>
      obtain ⟨_, _⟩ := c
      obtain ⟨⟨⟩, ⟨⟩⟩ := hfails
      exact hactivating _ rfl rfl
  | deactivate =>
    obtain ⟨⟨⟩, hsnapshot, ⟨⟩⟩ := hbreaks
    cases type with
    | basic => exact hpending _ rfl rfl
    | marketData =>
      cases hsnapshot rfl
      exact hpending _ rfl rfl
  | setup | finishDestroy | registerReference | deallocate => exact hbreaks.elim

end Phase

/-- Over every interleaving of calls, throttle and bridge, the state says what it should after every step, and
`onDestroy` is invoked when the state becomes DESTROYED, exactly when no step breaks the machine. -/
theorem states_iff (ops : List Op) (hops : ∀ op ∈ ops, op.IsUse) :
    Along step (fun w op => Inv (w.step op) ∧ InvokesOnDestroy w op) {} ops ↔
      Along step (fun w op => ¬ Breaks w op) {} ops := by
  refine Along.congr_on (I := fun w => ∃ a : Phase, a.Valid ∧ w = a.world)
    ⟨{}, Phase.valid_of_not_bridged rfl ⟨nofun, nofun⟩ nofun, rfl⟩ ?_ ?_
  · rintro w ⟨a, ha, rfl⟩ op hop
    constructor
    · rintro ⟨hinv, -⟩ hbreaks
      exact Phase.not_inv_of_breaks ha hbreaks hinv
    · intro hgood
      rw [InvokesOnDestroy, Phase.step_world ha (hops op hop) hgood]
      exact ⟨Phase.inv_world, (Phase.moves_next ha op).counts⟩
  · rintro w ⟨a, ha, rfl⟩ op hop ⟨hinv, -⟩
    have hgood : ¬ Breaks a.world op := fun hbreaks => Phase.not_inv_of_breaks ha hbreaks hinv
    exact ⟨a.next op, (Phase.moves_next ha op).valid, Phase.step_world ha (hops op hop) hgood⟩

def reactivation : List Op :=
  [.setup false true, .activate .queues, .fire {}, .deactivate, .activate .queues, .bridgeDestroyed .queues false,
    .fire {}, .deactivate, .finishDestroy false, .bridgeDestroyed .fails false]

theorem states_reactivation :
    (reactivation.foldl step {}).state = .destroyed ∧
      Along step (fun w op => Inv (w.step op) ∧ InvokesOnDestroy w op) {} reactivation :=
  ⟨by decide, (states_iff reactivation (by simp [reactivation, Op.IsUse])).mpr (by decide)⟩

theorem failed_creation_not_inv :
    ¬ Inv ([.setup false true, .activate .fails].foldl step {}) ∧
    ¬ Inv ([.setup false true, .activate .queues, .fire { added := false }].foldl step {}) ∧
    ¬ Inv ([.setup false true, .activate .queues, .fire { bridged := false }, .deactivate,
      .finishDestroy false].foldl step {}) := by
  refine ⟨fun h => ?_, fun h => ?_, fun h => ?_⟩
  · cases h.activating.mp rfl
  · cases h.activating.mp rfl
  · cases h.pending.mp rfl

end OpenMama.Subscription
