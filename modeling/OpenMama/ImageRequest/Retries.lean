import Mathlib.Data.List.Nodup
import OpenMama.ImageRequest.Machine

/-!
# Retries of image requests

A request that meets no timer and no queued action of an earlier one is sent at most once more than it has retries,
each of its ticks is one of its own timer, and the tick after the last retry times it out. The condition is exact: an
earlier timer's tick uses up a retry, and an earlier action sends the request once too often.
-/

namespace OpenMama.ImageRequest

open List World

open DestroyHandle (Handle Exit)

namespace World

/-! ### Requests that are not destroyed -/

structure Owned (w : World) : Prop where
  live : w.frees = 0
  owner : w.response.destroyed = false

variable {w : World}

theorem Owned.retain_eq (h : w.Owned) :
    w.retain = { w with response := { w.response with numberReferences := w.response.numberReferences + 1 } } := by
  rw [retain, if_neg (fun hne => hne h.live)]
  rfl

theorem Owned.release_eq (h : w.Owned) :
    w.release = ({ w with
      response := { w.response with numberReferences := w.response.numberReferences - 1 }
      negative := w.negative || decide (w.response.numberReferences - 1 < 0) }, true) := by
  rw [release, if_neg (fun hne => hne h.live), Handle.removeReference, if_pos h.owner]
  rfl

structure Queued (w : World) : Prop where
  nodup : (w.queue.map Action.id).Nodup
  pending : ∀ action ∈ w.queue, action.id ∈ w.pendingActions
  fresh : ∀ action ∈ w.queue, action.id < w.dispatched

/-- What every use of a request keeps. -/
structure Sane (w : World) : Prop where
  owned : w.Owned
  queued : w.Queued
  timers : ∀ timer ∈ w.timers, timer.request ≤ w.requests
  points : ∀ id, w.replyTimer = some id → ∃ timer ∈ w.timers, timer.id = id

theorem sane_init : Sane {} where
  owned := ⟨rfl, rfl⟩
  queued := ⟨nodup_nil, nofun, nofun⟩
  timers := nofun
  points := nofun

variable (h : w.Sane)
include h

theorem Sane.release : w.release.1.Sane := by
  rw [h.owned.release_eq]
  exact { h with owned := { h.owned with }, queued := { h.queued with } }

theorem Sane.count : Sane { w with reqCount := w.reqCount + 1 } :=
  { h with owned := { h.owned with }, queued := { h.queued with } }

theorem Sane.retainAccepted (timeout : ℚ) (retries : Int) (isRecapRequest : Bool) :
    (w.accept timeout retries isRecapRequest).retain.Sane := by
  have howned : Owned (w.accept timeout retries isRecapRequest) := { h.owned with }
  rw [howned.retain_eq]
  exact ⟨{ h.owned with }, { h.queued with }, fun timer ht => Nat.le_succ_of_le (h.timers timer ht), h.points⟩

theorem Sane.take (timer : Timer) : Sane { w.take timer with replyTimer := none } :=
  ⟨{ h.owned with }, { h.queued with },
    fun old hold => h.timers old (mem_filter.mp hold).1, nofun⟩

theorem Sane.onReplyTimeout_eq (timer : Timer) (now : ℚ) (off : Bool) : w.onReplyTimeout timer now off =
    (World.release { w.take timer with replyTimer := none }).1.processTimeout now off timer.request := by
  have howned : Owned (w.take timer) := { h.owned with }
  unfold onReplyTimeout
  rw [howned.release_eq, (h.take timer).owned.release_eq]
  rfl

theorem Sane.pop {action : Action} {queue : List Action} (hqueue : w.queue = action :: queue) :
    Sane { w with queue := queue } ∧ ∀ a ∈ queue, some a.id ≠ some action.id := by
  have hnodup := h.queued.nodup
  rw [hqueue, map_cons, nodup_cons] at hnodup
  refine ⟨⟨{ h.owned with }, ⟨hnodup.2,
    fun a ha => h.queued.pending a (hqueue ▸ mem_cons_of_mem _ ha),
    fun a ha => h.queued.fresh a (hqueue ▸ mem_cons_of_mem _ ha)⟩, h.timers, h.points⟩, fun a ha heq => hnodup.1 ?_⟩
  exact mem_map.mpr ⟨a, ha, Option.some.inj heq⟩

theorem Sane.ne_dispatched {a : Action} (ha : a ∈ w.queue) : some a.id ≠ some w.dispatched :=
  fun heq => absurd (Option.some.inj heq) (Nat.ne_of_lt (h.queued.fresh a ha))

theorem Sane.startReplyTimer (now : ℚ) : (w.startReplyTimer now).Sane := by
  unfold World.startReplyTimer
  split
  · exact h
  · rw [h.owned.retain_eq]
    refine ⟨{ h.owned with }, { h.queued with }, fun timer ht => ?_, fun id hid => ?_⟩
    · rcases mem_append.mp ht with ht | ht
      · exact h.timers timer ht
      · rw [mem_singleton.mp ht]
    · obtain rfl := Option.some.inj hid
      exact ⟨_, mem_append_right _ mem_cons_self, rfl⟩

theorem Sane.emit (out : Output) : (w.emit out).Sane :=
  { h with owned := { h.owned with }, queued := { h.queued with } }

theorem Sane.dropAction {action : Option Nat} (haction : ∀ a ∈ w.queue, some a.id ≠ action) :
    (w.dropAction action).Sane := by
  refine ⟨{ h.owned with }, { h.queued with pending := fun a ha => ?_ }, h.timers, h.points⟩
  exact mem_filter.mpr ⟨h.queued.pending a ha, decide_eq_true (haction a ha)⟩

theorem Sane.requestAction (now : ℚ) (action : Option Nat) (haction : ∀ a ∈ w.queue, some a.id ≠ action) :
    (w.requestAction now action).Sane := by
  unfold World.requestAction
  dsimp only
  split
  · exact h.dropAction haction
  · exact ((h.dropAction haction).startReplyTimer now).emit _

theorem Sane.push : Sane { w with
    dispatched := w.dispatched + 1, pendingActions := w.pendingActions ++ [w.dispatched] } :=
  ⟨{ h.owned with },
    ⟨h.queued.nodup, fun a ha => mem_append_left _ (h.queued.pending a ha),
      fun a ha => Nat.lt_succ_of_lt (h.queued.fresh a ha)⟩, h.timers, h.points⟩

theorem Sane.dispatch (now : ℚ) (immediate off : Bool) : (w.dispatch now immediate off).Sane := by
  unfold World.dispatch
  have hpush := h.push
  split
  · exact hpush.requestAction now _ (fun a => h.ne_dispatched)
  · have hnew : w.dispatched ∉ w.queue.map Action.id := by
      rintro hmem
      obtain ⟨a, ha, hid⟩ := mem_map.mp hmem
      exact absurd hid (Nat.ne_of_lt (h.queued.fresh a ha))
    have hcases : ∀ a ∈ (if immediate then { id := w.dispatched, request := w.requests } :: w.queue
        else w.queue ++ [{ id := w.dispatched, request := w.requests }]),
        a = { id := w.dispatched, request := w.requests } ∨ a ∈ w.queue := by
      intro a ha
      split at ha
      · exact mem_cons.mp ha
      · exact (mem_append.mp ha).symm.imp_left mem_singleton.mp
    refine ⟨{ h.owned with }, ⟨?_, fun a ha => ?_, fun a ha => ?_⟩, h.timers, h.points⟩
    · split
      · exact nodup_cons.mpr ⟨hnew, h.queued.nodup⟩
      · rw [map_append, nodup_append_comm]
        exact nodup_cons.mpr ⟨hnew, h.queued.nodup⟩
    · rcases hcases a ha with rfl | ha
      · exact mem_append_right _ mem_cons_self
      · exact hpush.queued.pending a ha
    · rcases hcases a ha with rfl | ha
      · exact Nat.lt_succ_self _
      · exact hpush.queued.fresh a ha

theorem Sane.sendRequest (now timeout : ℚ) (retries : Int) (throttle isRecapRequest off : Bool) :
    (w.sendRequest now timeout retries throttle isRecapRequest off).Sane := by
  unfold World.sendRequest
  have hset := h.retainAccepted timeout retries isRecapRequest
  split
  · exact hset.dispatch now isRecapRequest off
  · exact hset.requestAction now none (fun _ _ => nofun)

theorem Sane.checkDestroyReplyTimer (now : ℚ) : (w.checkDestroyReplyTimer now).Sane := by
  unfold World.checkDestroyReplyTimer
  split
  · exact h
  next _ _ =>
    split
    · rw [h.owned.release_eq]
      refine ⟨{ h.owned with }, { h.queued with }, fun timer ht => ?_, nofun⟩
      obtain ⟨old, hold, rfl⟩ := mem_map.mp (mem_filter.mp ht).1
      have hrequest := h.timers old hold
      split
      · exact hrequest
      · exact hrequest
    · exact h

theorem Sane.stopWaitForResponse (now : ℚ) :
    (w.stopWaitForResponse now).Sane ∧ (w.stopWaitForResponse now).queue = [] := by
  have hcheck := h.checkDestroyReplyTimer now
  have hempty : (w.stopWaitForResponse now).queue = [] := by
    unfold World.stopWaitForResponse
    dsimp only
    split
    next hnil =>
      rw [eq_nil_iff_forall_not_mem]
      intro a ha
      have := hcheck.queued.pending a ha
      rw [hnil] at this
      cases this
    · rw [filter_eq_nil_iff]
      intro a ha
      simpa using hcheck.queued.pending a ha
  refine ⟨⟨{ hcheck.owned with }, ?_, hcheck.timers, hcheck.points⟩, hempty⟩
  constructor <;> rw [hempty]
  · exact nodup_nil
  · nofun
  · nofun

theorem Sane.processTimeout (now : ℚ) (off : Bool) (timer : Nat) : (w.processTimeout now off timer).Sane := by
  unfold World.processTimeout
  dsimp only
  split
  · exact h
  · split
    · have hstop := (h.stopWaitForResponse now).1
      split
      · exact hstop
      · exact hstop.emit _
    · split
      · have hretried := h.count.emit (.retried w.requests timer)
        split
        · exact hretried
        · exact (hretried.dispatch now true off).startReplyTimer now
      · exact (h.count.stopWaitForResponse now).1.release.emit _

theorem Sane.onReplyTimeout (timer : Timer) (now : ℚ) (off : Bool) : (w.onReplyTimeout timer now off).Sane := by
  rw [h.onReplyTimeout_eq]
  exact (h.take timer).release.processTimeout now off timer.request

theorem Sane.onInitialMessage (counted : Bool) : (w.onInitialMessage counted).Sane := by
  have howned : Owned { w with answers := w.answers + 1 } := { h.owned with }
  unfold World.onInitialMessage
  rw [howned.release_eq]
  dsimp only
  split <;> exact { h with owned := { h.owned with }, queued := { h.queued with } }

end World

def Op.IsUse : Op → Prop
  | .destroy _ _ => False
  | _ => True

instance : DecidablePred Op.IsUse
  | .destroy _ _ => inferInstanceAs (Decidable False)
  | .sendRequest .. | .fire _ | .tick .. | .image _ | .stop _ => inferInstanceAs (Decidable True)

namespace World

variable {w : World}

theorem Sane.step (h : w.Sane) {op : Op} (hop : op.IsUse) : (w.step op).Sane := by
  cases op with
  | sendRequest _ _ _ _ _ _ => exact h.sendRequest ..
  | fire now =>
    simp only [World.step]
    split
    · exact h
    next _ _ hqueue =>
      obtain ⟨hrest, hother⟩ := h.pop hqueue
      exact hrest.requestAction now _ hother
  | tick _ _ _ =>
    simp only [World.step]
    split
    · exact h
    · exact h.onReplyTimeout ..
  | image counted =>
    simp only [World.step]
    split
    · exact h.onInitialMessage counted
    · exact h
  | stop now => exact (h.stopWaitForResponse now).1
  | destroy _ => exact hop.elim

/-- A stopped request, which neither sends nor listens. -/
structure Silent (w : World) : Prop where
  deaf : w.p2pListener = false
  mute : w.msg = false

theorem release_keeps (w : World) : ∃ response frees fault negative, w.release.1 =
    { w with response := response, frees := frees, fault := fault, negative := negative } := by
  unfold release
  split
  · exact ⟨w.response, w.frees, true, w.negative, rfl⟩
  · exact ⟨_, _, w.fault, _, rfl⟩

theorem disown_keeps (w : World) :
    ∃ response frees fault, w.disown = { w with response := response, frees := frees, fault := fault } := by
  unfold disown
  split
  · exact ⟨w.response, w.frees, true, rfl⟩
  · exact ⟨_, _, w.fault, rfl⟩

theorem log_checkDestroyReplyTimer (w : World) (now : ℚ) : (w.checkDestroyReplyTimer now).log = w.log := by
  unfold checkDestroyReplyTimer
  split
  · rfl
  · split
    · obtain ⟨_, _, _, _, heq⟩ := w.release_keeps
      rw [heq]
    · rfl

theorem silent_stopWaitForResponse (w : World) (now : ℚ) :
    (w.stopWaitForResponse now).Silent ∧ (w.stopWaitForResponse now).log = w.log :=
  ⟨⟨rfl, rfl⟩, w.log_checkDestroyReplyTimer now⟩

theorem Silent.release (h : w.Silent) : w.release.1.Silent ∧ w.release.1.log = w.log := by
  obtain ⟨_, _, _, _, heq⟩ := w.release_keeps
  rw [heq]
  exact ⟨{ h with }, rfl⟩

theorem Silent.step (h : w.Silent) {op : Op} (hop : ¬ op.IsRequest) : (w.step op).Silent ∧ (w.step op).log = w.log := by
  cases op with
  | sendRequest _ _ r _ _ _ => exact absurd trivial hop
  | fire now =>
    simp only [World.step]
    split
    · exact ⟨h, rfl⟩
    next action queue _ =>
      have hmute : requestAction { w with queue := queue } now (some action.id) =
          dropAction { w with queue := queue } (some action.id) := if_pos h.mute
      rw [hmute]
      exact ⟨{ h with }, rfl⟩
  | tick _ _ _ =>
    simp only [World.step]
    split
    · exact ⟨h, rfl⟩
    next timer _ =>
      have htaken := Silent.release (w := w.take timer) { h with }
      unfold onReplyTimeout
      dsimp only
      split
      · have hcleared : Silent { (w.take timer).release.1 with replyTimer := none } := { htaken.1 with }
        rw [processTimeout, if_pos hcleared.deaf]
        exact ⟨hcleared, htaken.2⟩
      · exact htaken
  | image _ =>
    simp only [World.step]
    rw [if_neg (by rw [h.deaf]; nofun)]
    exact ⟨h, rfl⟩
  | stop now => exact w.silent_stopWaitForResponse now
  | destroy now transport =>
    simp only [World.step, destroy]
    obtain ⟨_, _, _, heq⟩ := disown_keeps (w.stopPending now transport)
    rw [heq]
    refine ⟨⟨rfl, rfl⟩, ?_⟩
    show (w.stopPending now transport).log = w.log
    unfold stopPending
    split
    · split
      · exact (w.silent_stopWaitForResponse now).2
      · rfl
    · rfl

theorem Silent.run (h : w.Silent) (ops : List Op) (hops : ∀ op ∈ ops, ¬ op.IsRequest) :
    (ops.foldl World.step w).log = w.log := by
  induction ops generalizing w with
  | nil => rfl
  | cons _ _ ih =>
    rw [forall_mem_cons] at hops
    have hstep := h.step hops.1
    rw [foldl_cons, ih hstep.1 hops.2, hstep.2]

/-! ### Open requests -/

/-- A request that waits for its image, after `k` ticks. -/
structure Open (request r k : Nat) (w : World) : Prop where
  sane : w.Sane
  waiting : w.waitingForResponse = true
  listens : w.p2pListener = true
  msg : w.msg = true
  images : w.imageCount = 0
  requests : w.requests = request
  retries : w.retries = r
  reqCount : w.reqCount = k

def Timed (request : Nat) (w : World) : Prop :=
  ∃ timer, w.timers = [timer] ∧ w.replyTimer = some timer.id ∧ timer.request = request

variable {request r k : Nat}

theorem Open.startReplyTimer (h : w.Open request r k) (now : ℚ) : (w.startReplyTimer now).Open request r k := by
  have hsane := h.sane.startReplyTimer now
  unfold World.startReplyTimer at hsane ⊢
  split
  · exact h
  next hnone =>
    simp only [hnone, h.sane.owned.retain_eq] at hsane ⊢
    exact { h with sane := hsane }

theorem Sane.replyTimer_eq_none (h : w.Sane) (hnil : w.timers = []) : w.replyTimer = none := by
  cases hreply : w.replyTimer with
  | none => rfl
  | some id =>
    obtain ⟨_, htimer, _⟩ := h.points id hreply
    rw [hnil] at htimer
    cases htimer

theorem Open.timed_startReplyTimer (h : w.Open request r k) (htimed : w.timers = [] ∨ w.Timed request) (now : ℚ) :
    (w.startReplyTimer now).Timed request := by
  rcases htimed with hnil | ⟨timer, htimers, hreply, hrequest⟩
  · refine ⟨{ id := w.started, request := w.requests, start := now, interval := w.timeout }, ?_, ?_, h.requests⟩ <;>
      simp only [World.startReplyTimer, h.sane.replyTimer_eq_none hnil, hnil, nil_append]
  · refine ⟨timer, ?_, ?_, hrequest⟩ <;> simp only [World.startReplyTimer, hreply, htimers]

theorem Open.emit (h : w.Open request r k) (out : Output) : (w.emit out).Open request r k :=
  { h with sane := h.sane.emit out }

section

variable (w) (now : ℚ)

theorem startReplyTimer_keeps : (w.startReplyTimer now).queue = w.queue ∧ (w.startReplyTimer now).log = w.log := by
  unfold startReplyTimer retain
  split
  · exact ⟨rfl, rfl⟩
  · split <;> exact ⟨rfl, rfl⟩

theorem startReplyTimer_adds : w.timers <+: (w.startReplyTimer now).timers := by
  unfold startReplyTimer
  split
  · exact prefix_rfl
  · exact prefix_append _ _

theorem requestAction_adds (action : Option Nat) : w.timers <+: (w.requestAction now action).timers := by
  unfold requestAction
  dsimp only
  split
  · exact prefix_rfl
  · exact startReplyTimer_adds (w.dropAction action) now

theorem dispatch_adds (immediate off : Bool) : w.timers <+: (w.dispatch now immediate off).timers := by
  unfold dispatch
  split
  · exact requestAction_adds { w with
      dispatched := w.dispatched + 1, pendingActions := w.pendingActions ++ [w.dispatched] } now _
  · exact prefix_rfl

end

theorem Open.requestAction (h : w.Open request r k) (now : ℚ)
    (action : Option Nat) (haction : ∀ a ∈ w.queue, some a.id ≠ action) :
    (w.requestAction now action).Open request r k ∧
      (w.timers = [] ∨ w.Timed request → (w.requestAction now action).Timed request) ∧
      (w.requestAction now action).queue = w.queue ∧
      (w.requestAction now action).log = w.log ++ [.sent request] := by
  have hdropped : Open request r k (w.dropAction action) := { h with sane := h.sane.dropAction haction }
  have hstarted := hdropped.startReplyTimer now
  have hkeeps := startReplyTimer_keeps (w.dropAction action) now
  have hdef : w.requestAction now action = ((w.dropAction action).startReplyTimer now).emit (.sent request) := by
    unfold World.requestAction
    dsimp only
    rw [if_neg (by rw [hdropped.msg]; nofun), hstarted.requests]
  rw [hdef]
  refine ⟨hstarted.emit _, fun htimed => hdropped.timed_startReplyTimer htimed now, hkeeps.1, ?_⟩
  rw [World.emit, hkeeps.2]
  rfl

theorem Open.dispatch (h : w.Open request r k) (now : ℚ) (immediate : Bool) :
    (w.dispatch now immediate false).Open request r k ∧
      (w.dispatch now immediate false).queue.length = w.queue.length + 1 ∧
      (w.dispatch now immediate false).log = w.log ∧ (w.dispatch now immediate false).timers = w.timers := by
  refine ⟨{ h with sane := h.sane.dispatch now immediate false }, ?_, rfl, rfl⟩
  cases immediate
  · exact length_append
  · rfl

theorem Open.dispatch_off (h : w.Open request r k) (now : ℚ) (immediate : Bool) :
    (w.dispatch now immediate true).Open request r k ∧
      (w.timers = [] ∨ w.Timed request → (w.dispatch now immediate true).Timed request) ∧
      (w.dispatch now immediate true).queue = w.queue ∧
      (w.dispatch now immediate true).log = w.log ++ [.sent request] := by
  have hpush : Open request r k { w with
      dispatched := w.dispatched + 1, pendingActions := w.pendingActions ++ [w.dispatched] } :=
    { h with sane := h.sane.push }
  exact hpush.requestAction now _ (fun a => h.sane.ne_dispatched)

/-! ### The steps of an open request -/

def Emits (request s : Nat) (new : List Output) : Prop :=
  new.count (.sent request) = s ∧ ∀ out ∈ new, out = .sent request ∨ out = .retried request request

theorem Emits.sent {s : Nat} {new : List Output} (h : Emits request s new) :
    Emits request (s + 1) (new ++ [.sent request]) :=
  ⟨by rw [count_append, h.1]; simp, forall_mem_append.mpr ⟨h.2, forall_mem_singleton.mpr (.inl rfl)⟩⟩

theorem Emits.retried {s : Nat} {new : List Output} (h : Emits request s new) :
    Emits request s (new ++ [.retried request request]) :=
  ⟨by rw [count_append, h.1]; simp, forall_mem_append.mpr ⟨h.2, forall_mem_singleton.mpr (.inr rfl)⟩⟩

/-- An open request that was sent `s` times and had `k` ticks of its own timer. The actions that are queued or ran are
one for the request, one for each retry, and `extra` more. -/
structure Active (base : List Output) (request r extra k s : Nat) (w : World) : Prop extends Open request r k w where
  within : k ≤ r
  timed : (w.timers = [] ∧ k = 0 ∧ s = 0) ∨ w.Timed request
  queued : s + w.queue.length = k + 1 + extra
  log : ∃ new, w.log = base ++ new ∧ Emits request s new

variable {base : List Output} {extra s : Nat}

theorem Active.fire (h : w.Active base request r extra k s) {action : Action} {queue : List Action}
    (hqueue : w.queue = action :: queue) (now : ℚ) :
    (w.step (.fire now)).Active base request r extra k (s + 1) ∧ (w.step (.fire now)).queue = queue := by
  have hstep : w.step (.fire now) = requestAction { w with queue := queue } now (some action.id) := by
    simp only [step, hqueue]
  obtain ⟨hsane, hother⟩ := h.sane.pop hqueue
  have hrest : Open request r k { w with queue := queue } := { h with sane := hsane }
  obtain ⟨hopen, htimed, hqueue', hlog⟩ := hrest.requestAction now (some action.id) hother
  obtain ⟨new, hnew, hemits⟩ := h.log
  rw [hstep]
  refine ⟨⟨hopen, h.within, .inr (htimed (h.timed.imp_left And.left)), ?_, new ++ [.sent request], ?_, hemits.sent⟩, hqueue'⟩
  · have hcount := h.queued
    rw [hqueue, length_cons] at hcount
    rw [hqueue']
    show s + 1 + queue.length = k + 1 + extra
    omega
  · rw [hlog, ← append_assoc, ← hnew]

theorem Open.onReplyTimeout (h : w.Open request r k) (timer : Timer) (now : ℚ) (off : Bool) :
    ∃ w' : World, w.onReplyTimeout timer now off = w'.processTimeout now off timer.request ∧ w'.Open request r k ∧
      w'.timers = w.timers.filter (·.id ≠ timer.id) ∧ w'.queue = w.queue ∧ w'.log = w.log := by
  have hsane := (h.sane.take timer).release
  refine ⟨_, h.sane.onReplyTimeout_eq timer now off, ?_⟩
  rw [(h.sane.take timer).owned.release_eq] at hsane ⊢
  exact ⟨{ h with sane := hsane }, rfl, rfl, rfl⟩

theorem Open.retries_left (h : w.Open request r k) (hk : k < r) (now : ℚ) (off : Bool) (timer : Nat) :
    ∃ w' : World, w.processTimeout now off timer = (w'.dispatch now true off).startReplyTimer now ∧
      w'.Open request r (k + 1) ∧ w'.timers = w.timers ∧ w'.queue = w.queue ∧
      w'.log = w.log ++ [.retried request timer] := by
  refine ⟨World.emit { w with reqCount := w.reqCount + 1 } (.retried request timer), ?_, ?_, rfl, rfl, rfl⟩
  · unfold processTimeout
    rw [if_neg (by rw [h.listens]; nofun), if_neg (by rw [h.images]; exact Nat.lt_irrefl 0),
      if_pos (by rw [h.reqCount, h.retries]; exact Int.ofNat_lt.mpr hk)]
    rw [h.requests]
    exact if_neg (by rw [h.waiting]; nofun)
  · have hcounted : Open request r (k + 1) { w with reqCount := w.reqCount + 1 } :=
      { h with sane := h.sane.count, reqCount := congrArg (· + 1) h.reqCount }
    exact hcounted.emit _

/-- A request that was sent `s` times and timed out. -/
structure Over (base : List Output) (request s : Nat) (w : World) : Prop where
  timers : w.timers = []
  queue : w.queue = []
  log : ∃ new, w.log = base ++ (new ++ [.timedOut request request]) ∧ Emits request s new

theorem Open.no_retries_left (h : w.Open request r r) (now : ℚ) (off : Bool) (timer : Nat) :
    ∃ w' : World, w.processTimeout now off timer = ((w'.stopWaitForResponse now).release.1).emit (.timedOut request timer) ∧
      w'.Sane ∧ w'.timers = w.timers ∧ w'.replyTimer = w.replyTimer ∧ w'.log = w.log := by
  have hcount := h.sane.count
  refine ⟨{ w with reqCount := w.reqCount + 1 }, ?_, hcount, rfl, rfl, rfl⟩
  have hrequests : (stopWaitForResponse { w with reqCount := w.reqCount + 1 } now).release.1.requests = request := by
    rw [(hcount.stopWaitForResponse now).1.owned.release_eq]
    show (checkDestroyReplyTimer { w with reqCount := w.reqCount + 1 } now).requests = request
    unfold checkDestroyReplyTimer
    rw [hcount.owned.release_eq]
    split
    · exact h.requests
    · split <;> exact h.requests
  unfold processTimeout
  rw [if_neg (by rw [h.listens]; nofun), if_neg (by rw [h.images]; exact Nat.lt_irrefl 0),
    if_neg (by rw [h.reqCount, h.retries]; exact Int.lt_irrefl _)]
  dsimp only
  rw [hrequests]

theorem Open.over (h : w.Open request r r) (htimers : w.timers = []) (now : ℚ) (off : Bool) (timer : Nat) :
    (w.processTimeout now off timer).timers = [] ∧ (w.processTimeout now off timer).queue = [] ∧
      (w.processTimeout now off timer).log = w.log ++ [.timedOut request timer] := by
  obtain ⟨w', hdef, hsane, htimers', hreply, hlog⟩ := h.no_retries_left now off timer
  have hstop := hsane.stopWaitForResponse now
  have hcheck : w'.checkDestroyReplyTimer now = w' := by
    simp only [checkDestroyReplyTimer, hreply, h.sane.replyTimer_eq_none htimers]
  rw [hdef, hstop.1.owned.release_eq]
  refine ⟨?_, hstop.2, ?_⟩
  · show (w'.checkDestroyReplyTimer now).timers = []
    rw [hcheck, htimers', htimers]
  · show (w'.checkDestroyReplyTimer now).log ++ _ = _
    rw [hcheck, hlog]

theorem Open.log_processTimeout (h : w.Open request r k) (hk : k ≤ r) (now : ℚ) (timer : Nat) :
    (w.processTimeout now false timer).log =
      w.log ++ [if k < r then .retried request timer else .timedOut request timer] := by
  rcases Nat.lt_or_eq_of_le hk with hless | rfl
  · obtain ⟨w', hretry, _, _, _, hlog⟩ := h.retries_left hless now false timer
    rw [hretry, (startReplyTimer_keeps (w'.dispatch now true false) now).2, if_pos hless]
    exact hlog
  · obtain ⟨w', hdef, hsane, _, _, hlog⟩ := h.no_retries_left now false timer
    rw [hdef, (hsane.stopWaitForResponse now).1.owned.release_eq, if_neg (Nat.lt_irrefl _)]
    show (w'.checkDestroyReplyTimer now).log ++ _ = _
    rw [log_checkDestroyReplyTimer, hlog]

theorem Active.tick (h : w.Active base request r extra k s) {timer : Timer} (htimers : w.timers = [timer])
    (hrequest : timer.request = request) (now : ℚ) (off : Bool) :
    (k < r → (w.step (.tick timer.id now off)).Active base request r extra (k + 1) (if off then s + 1 else s)) ∧
      (k = r → (w.step (.tick timer.id now off)).Over base request s) := by
  have hstep : w.step (.tick timer.id now off) = w.onReplyTimeout timer now off := by
    simp only [step, htimers, find?_cons_of_pos (p := fun t : Timer => decide (t.id = timer.id)) (decide_eq_true rfl)]
  obtain ⟨w₁, hticked, hopen, hfilter, hqueue, hlog⟩ := h.toOpen.onReplyTimeout timer now off
  have hnil : w₁.timers = [] := by rw [hfilter, htimers]; simp
  obtain ⟨new, hnew, hemits⟩ := h.log
  rw [hstep, hticked, hrequest]
  constructor
  · intro hk
    obtain ⟨w₂, hretry, hopen, htimers₂, hqueue₂, hlog₂⟩ := hopen.retries_left hk now off request
    rw [hretry]
    have hnil₂ : w₂.timers = [] := htimers₂.trans hnil
    have hlog₂ : w₂.log = base ++ (new ++ [.retried request request]) := by rw [hlog₂, hlog, hnew, append_assoc]
    have hcount := h.queued
    cases off with
    | false =>
      rw [if_neg Bool.false_ne_true]
      obtain ⟨hopen, hlength, hlog₃, htimers₃⟩ := hopen.dispatch now true
      have hkeeps := startReplyTimer_keeps (w₂.dispatch now true false) now
      refine ⟨hopen.startReplyTimer now, hk, .inr (hopen.timed_startReplyTimer (.inl (htimers₃.trans hnil₂)) now), ?_,
        new ++ [.retried request request], ?_, hemits.retried⟩
      · rw [hkeeps.1, hlength, hqueue₂, hqueue]
        omega
      · rw [hkeeps.2, hlog₃, hlog₂]
    | true =>
      rw [if_pos rfl]
      obtain ⟨hopen, htimed, hqueue₃, hlog₃⟩ := hopen.dispatch_off now true
      have hkeeps := startReplyTimer_keeps (w₂.dispatch now true true) now
      refine ⟨hopen.startReplyTimer now, hk, .inr (hopen.timed_startReplyTimer (.inr (htimed (.inl hnil₂))) now), ?_,
        new ++ [.retried request request] ++ [.sent request], ?_, hemits.retried.sent⟩
      · rw [hkeeps.1, hqueue₃, hqueue₂, hqueue]
        omega
      · rw [hkeeps.2, hlog₃, hlog₂, append_assoc]
  · rintro rfl
    obtain ⟨htimers₂, hqueue₂, hlog₂⟩ := hopen.over hnil now off request
    exact ⟨htimers₂, hqueue₂, new, by rw [hlog₂, hlog, hnew, append_assoc], hemits⟩

theorem Sane.open_sendRequest (h : w.Sane) (timeout : ℚ) (r : Nat) (isRecapRequest : Bool) :
    let w₁ := (w.accept timeout r isRecapRequest).retain
    w₁.Open (w.requests + 1) r 0 ∧ w₁.timers = w.timers ∧ w₁.queue = w.queue ∧ w₁.log = w.log := by
  have howned : Owned (w.accept timeout r isRecapRequest) := { h.owned with }
  have hsane := h.retainAccepted timeout r isRecapRequest
  rw [howned.retain_eq] at hsane ⊢
  exact ⟨⟨hsane, rfl, rfl, rfl, rfl, rfl, rfl, rfl⟩, rfl, rfl, rfl⟩

theorem Sane.sent_sendRequest (h : w.Sane) (now timeout : ℚ) (r : Nat) (throttle isRecapRequest off : Bool) :
    let w₁ := w.step (.sendRequest now timeout r throttle isRecapRequest off)
    w₁.Open (w.requests + 1) r 0 ∧ w.timers <+: w₁.timers ∧ w.log <+: w₁.log ∧
      (w.timers = [] → ∃ s, w₁.Active w.log (w.requests + 1) r w.queue.length 0 s) := by
  obtain ⟨hopen, htimers, hqueue, hlog⟩ := h.open_sendRequest timeout r isRecapRequest
  have hsent : Emits (w.requests + 1) 1 [.sent (w.requests + 1)] :=
    ⟨count_singleton_self, fun out hout => .inl (mem_singleton.mp hout)⟩
  simp only [World.step, World.sendRequest]
  cases throttle with
  | false =>
    rw [if_neg Bool.false_ne_true]
    obtain ⟨hopen', htimed, hqueue', hlog'⟩ := hopen.requestAction now none (fun _ _ => nofun)
    refine ⟨hopen', htimers ▸ requestAction_adds _ now none, ?_, fun hnil =>
      ⟨1, hopen', Nat.zero_le r, .inr (htimed (.inl (htimers.trans hnil))), ?_, _, ?_, hsent⟩⟩
    · rw [hlog', hlog]
      exact prefix_append _ _
    · rw [hqueue', hqueue]
    · rw [hlog', hlog]
  | true =>
    rw [if_pos rfl]
    cases off with
    | false =>
      obtain ⟨hopen', hlength, hlog', htimers'⟩ := hopen.dispatch now isRecapRequest
      refine ⟨hopen', htimers ▸ dispatch_adds _ now isRecapRequest false, ?_, fun hnil =>
        ⟨0, hopen', Nat.zero_le r, .inl ⟨htimers'.trans (htimers.trans hnil), rfl, rfl⟩, ?_, [], ?_, rfl, nofun⟩⟩
      · exact ⟨[], by rw [hlog', hlog, append_nil]⟩
      · rw [hlength, hqueue]
        omega
      · rw [hlog', hlog, append_nil]
    | true =>
      obtain ⟨hopen', htimed, hqueue', hlog'⟩ := hopen.dispatch_off now isRecapRequest
      refine ⟨hopen', htimers ▸ dispatch_adds _ now isRecapRequest true, ?_, fun hnil =>
        ⟨1, hopen', Nat.zero_le r, .inr (htimed (.inl (htimers.trans hnil))), ?_, _, ?_, hsent⟩⟩
      · rw [hlog', hlog]
        exact prefix_append _ _
      · rw [hqueue', hqueue]
      · rw [hlog', hlog]

end World

/-! ### Runs -/

def Op.IsTurn : Op → Prop
  | .tick .. | .fire _ => True
  | _ => False

def World.ticks (w : World) : Op → Nat
  | .tick id _ _ => if (w.timers.find? (·.id = id)).isSome then 1 else 0
  | _ => 0

def World.ticksOf : World → List Op → Nat
  | _, [] => 0
  | w, op :: ops => w.ticks op + (w.step op).ticksOf ops

/-- What is to be seen of a request with `r` retries after so many ticks. -/
structure Retried (request r ticks : Nat) (new : List Output) (w : World) : Prop where
  sends : new.count (.sent request) ≤ r + 1
  timedOut : new.count (.timedOut request request) = if r < ticks then 1 else 0
  last : .timedOut request request ∈ new → new.getLast? = some (.timedOut request request)
  own : ∀ out ∈ new, out = .sent request ∨ out = .retried request request ∨ out = .timedOut request request
  goesOn : ticks ≤ r → w.timers ≠ [] ∨ w.queue ≠ []

namespace World

variable {w : World} {base : List Output} {request r extra k s : Nat}

theorem Emits.not_timedOut {new : List Output} (h : Emits request s new) : .timedOut request request ∉ new := by
  intro hmem
  rcases h.2 _ hmem with heq | heq <;> cases heq

theorem Active.retried (h : w.Active base request r 0 k s) : Retried request r k (w.log.drop base.length) w := by
  obtain ⟨_, hnew, hemits⟩ := h.log
  have hqueued := h.queued
  have hwithin := h.within
  rw [hnew, drop_left]
  refine ⟨by rw [hemits.1]; omega, ?_, fun hmem => absurd hmem hemits.not_timedOut, fun out hout => ?_, fun _ => ?_⟩
  · rw [count_eq_zero.mpr hemits.not_timedOut, if_neg (by omega)]
  · exact (hemits.2 out hout).imp_right .inl
  · rcases h.timed with ⟨_, rfl, rfl⟩ | ⟨_, htimers, _, _⟩
    · exact .inr (fun hnil => by rw [hnil, length_nil] at hqueued; omega)
    · exact .inl (by rw [htimers]; nofun)

theorem Over.retried (h : w.Over base request s) (hs : s ≤ r + 1) :
    Retried request r (r + 1) (w.log.drop base.length) w := by
  obtain ⟨_, hnew, hemits⟩ := h.log
  rw [hnew, drop_left]
  refine ⟨?_, ?_, fun _ => getLast?_concat, fun out hout => ?_, fun hle => absurd hle (by omega)⟩
  · rw [count_append, hemits.1]
    simpa using hs
  · rw [count_append, count_eq_zero.mpr hemits.not_timedOut]
    simp
  · rcases mem_append.mp hout with hout | hout
    · exact (hemits.2 out hout).imp_right .inl
    · exact .inr (.inr (mem_singleton.mp hout))

def Followed (base : List Output) (request r ticks : Nat) (w : World) : Prop :=
  (∃ s, w.Active base request r 0 ticks s) ∨ ∃ s ≤ r + 1, w.Over base request s ∧ ticks = r + 1

theorem Over.step (h : w.Over base request s) {op : Op} (hop : op.IsTurn) : w.step op = w ∧ w.ticks op = 0 := by
  cases op with
  | tick _ _ _ => simp [World.step, World.ticks, h.timers]
  | fire _ => simp [World.step, World.ticks, h.queue]
  | sendRequest | image | stop | destroy => exact hop.elim

section

variable {ticks : Nat} (h : w.Followed base request r ticks)
include h

theorem Followed.step {op : Op} (hop : op.IsTurn) : (w.step op).Followed base request r (ticks + w.ticks op) := by
  rcases h with ⟨s, h⟩ | ⟨s, hs, h, hticks⟩
  · cases op with
    | sendRequest | image | stop | destroy => exact hop.elim
    | fire now =>
      cases hqueue : w.queue with
      | nil =>
        have hstep : w.step (.fire now) = w := by simp only [World.step, hqueue]
        rw [hstep]
        exact .inl ⟨s, h⟩
      | cons _ _ => exact .inl ⟨s + 1, (h.fire hqueue now).1⟩
    | tick id now off =>
      cases hfind : w.timers.find? (·.id = id) with
      | none =>
        have hstep : w.step (.tick id now off) = w := by simp only [World.step, hfind]
        rw [hstep, World.ticks, hfind]
        exact .inl ⟨s, h⟩
      | some timer =>
        have hid : timer.id = id := by simpa using find?_some hfind
        have hmem := mem_of_find?_eq_some hfind
        rcases h.timed with ⟨hnil, _, _⟩ | ⟨timer', htimers, _, hrequest⟩
        · rw [hnil] at hmem
          cases hmem
        · obtain rfl : timer = timer' := by rw [htimers] at hmem; exact mem_singleton.mp hmem
          have htick := h.tick htimers hrequest now off
          have hone : w.ticks (.tick id now off) = 1 := by rw [World.ticks, hfind]; rfl
          have hqueued := h.queued
          rw [hone, ← hid]
          rcases Nat.lt_or_eq_of_le h.within with hk | hk
          · exact .inl ⟨_, htick.1 hk⟩
          · exact .inr ⟨s, by omega, htick.2 hk, by omega⟩
  · obtain ⟨hstep, hzero⟩ := h.step hop
    rw [hstep, hzero]
    exact .inr ⟨s, hs, h, hticks⟩

theorem Followed.run {ops : List Op} (hops : ∀ op ∈ ops, op.IsTurn) :
    (ops.foldl World.step w).Followed base request r (ticks + w.ticksOf ops) := by
  induction ops generalizing w ticks with
  | nil => exact h
  | cons _ _ ih =>
    rw [forall_mem_cons] at hops
    rw [ticksOf, ← Nat.add_assoc]
    exact ih (h.step hops.1) hops.2

theorem Followed.retried : Retried request r ticks (w.log.drop base.length) w := by
  rcases h with ⟨s, h⟩ | ⟨s, hs, h, rfl⟩
  · exact h.retried
  · exact h.retried hs

end

/-! ### Earlier requests -/

theorem Active.drain (h : w.Active base request r extra k s) :
    ∃ ops : List Op, (∀ op ∈ ops, op.IsTurn) ∧
      (ops.foldl step w).Active base request r extra k (k + 1 + extra) ∧
      (ops.foldl step w).queue = [] := by
  obtain ⟨queue, hqueue⟩ : ∃ queue, w.queue = queue := ⟨_, rfl⟩
  induction queue generalizing w s with
  | nil =>
    have hs : s = k + 1 + extra := by simpa [hqueue] using h.queued
    exact ⟨[], nofun, hs ▸ h, hqueue⟩
  | cons _ _ ih =>
    obtain ⟨hactive, hrest⟩ := h.fire hqueue 0
    obtain ⟨ops, hops, hrun⟩ := ih hactive hrest
    exact ⟨.fire 0 :: ops, forall_mem_cons.mpr ⟨trivial, hops⟩, hrun⟩

theorem Active.exhaust (h : w.Active base request r extra k s) :
    ∃ ops : List Op, (∀ op ∈ ops, op.IsTurn) ∧
      (ops.foldl step w).Active base request r extra r (r + 1 + extra) := by
  obtain ⟨d, hd⟩ : ∃ d, r = k + d := ⟨r - k, by have := h.within; omega⟩
  induction d generalizing w k s with
  | zero =>
    obtain rfl : r = k := hd
    obtain ⟨ops, hops, hactive, _⟩ := h.drain
    exact ⟨ops, hops, hactive⟩
  | succ d ih =>
    obtain ⟨ops, hops, hactive, _⟩ := h.drain
    rcases hactive.timed with ⟨_, _, hzero⟩ | ⟨timer, htimers, _, hrequest⟩
    · omega
    · have htick := (hactive.tick htimers hrequest 0 true).1 (by omega)
      obtain ⟨more, hmore, hrun⟩ := ih htick (by omega)
      refine ⟨ops ++ .tick timer.id 0 true :: more, ?_, ?_⟩
      · exact forall_mem_append.mpr ⟨hops, forall_mem_cons.mpr ⟨trivial, hmore⟩⟩
      · rw [foldl_append]
        exact hrun

theorem Open.not_retried_of_tick (h : w.Open request r 0) {timer : Timer}
    (hfind : w.timers.find? (·.id = timer.id) = some timer) (hother : timer.request ≠ request)
    (hbase : base <+: w.log) {ticks : Nat} :
    ¬ Retried request r ticks ((w.step (.tick timer.id 0 false)).log.drop base.length)
      (w.step (.tick timer.id 0 false)) := by
  intro hretried
  have hstep : w.step (.tick timer.id 0 false) = w.onReplyTimeout timer 0 false := by simp only [step, hfind]
  obtain ⟨_, hticked, hopen, _, _, hlog⟩ := h.onReplyTimeout timer 0 false
  obtain ⟨_, hnew⟩ := hbase
  have hlast := hopen.log_processTimeout (Nat.zero_le r) 0 timer.request
  rw [← hticked, ← hstep, hlog, ← hnew, append_assoc] at hlast
  have hown := hretried.own (if 0 < r then .retried request timer.request else .timedOut request timer.request)
  rw [hlast, drop_left] at hown
  rcases hown (mem_append_right _ mem_cons_self) with heq | heq | heq
  · split at heq <;> cases heq
  · split at heq
    · exact hother (Output.retried.inj heq).2
    · cases heq
  · split at heq
    · cases heq
    · exact hother (Output.timedOut.inj heq).2

end World

/-- Whatever happened before: after a stop nothing is sent and no error is raised until the next request; and the
retries of a new request are right, whatever ticks and firings come, if and only if it meets no timer and no queued
action of an earlier one. -/
theorem image_request_retries (ops : List Op) (hops : ∀ op ∈ ops, op.IsUse) :
    (∀ (now : ℚ) (after : List Op), (∀ op ∈ after, ¬ op.IsRequest) →
      (after.foldl step ((ops.foldl step {}).step (.stop now))).log = (ops.foldl step {}).log) ∧
    ∀ (now timeout : ℚ) (r : Nat) (throttle isRecapRequest off : Bool),
      (∀ after : List Op, (∀ op ∈ after, op.IsTurn) →
        let w := ops.foldl step {}
        let w₁ := w.step (.sendRequest now timeout r throttle isRecapRequest off)
        let w₂ := after.foldl step w₁
        Retried (w.requests + 1) r (w₁.ticksOf after) (w₂.log.drop w.log.length) w₂) ↔
      (ops.foldl step {}).timers = [] ∧ (ops.foldl step {}).queue = [] := by
  have hsane : (ops.foldl step {}).Sane := foldlRecOn ops step sane_init fun _ hw op hop => hw.step (hops op hop)
  generalize ops.foldl step {} = w at hsane ⊢
  refine ⟨fun now after hafter => ?_, fun now timeout r throttle isRecapRequest off => ?_⟩
  · obtain ⟨hsilent, hlog⟩ := w.silent_stopWaitForResponse now
    exact (hsilent.run after hafter).trans hlog
  · obtain ⟨hopen, htimers, hbase, hactive⟩ := hsane.sent_sendRequest now timeout r throttle isRecapRequest off
    constructor
    · intro hall
      have hnil : w.timers = [] := by
        rw [eq_nil_iff_forall_not_mem]
        intro timer htimer
        obtain ⟨found, hfound⟩ : ∃ found, w.timers.find? (·.id = timer.id) = some found := by
          rw [← Option.isSome_iff_exists, find?_isSome]
          exact ⟨timer, htimer, decide_eq_true rfl⟩
        have hid : found.id = timer.id := by simpa using find?_some hfound
        have hrequest := hsane.timers found (mem_of_find?_eq_some hfound)
        rw [← hid] at hfound
        refine hopen.not_retried_of_tick (hfound.symm ▸ htimers.find?_eq_some hfound) (by omega) hbase
          (hall [.tick found.id 0 false] (fun op hop => ?_))
        rw [mem_singleton.mp hop]
        trivial
      refine ⟨hnil, ?_⟩
      obtain ⟨s, hactive⟩ := hactive hnil
      obtain ⟨after, hafter, hexhausted⟩ := hactive.exhaust
      obtain ⟨_, hnew, hemits⟩ := hexhausted.log
      have hsends := (hall after hafter).sends
      rw [hnew, drop_left, hemits.1] at hsends
      exact eq_nil_of_length_eq_zero (by omega)
    · rintro ⟨hnil, hempty⟩ _ hafter
      obtain ⟨s, hactive⟩ := hactive hnil
      rw [hempty] at hactive
      have hfollowed : World.Followed w.log (w.requests + 1) r 0
          (w.step (.sendRequest now timeout r throttle isRecapRequest off)) := .inl ⟨s, hactive⟩
      have hrun := (hfollowed.run hafter).retried
      rw [Nat.zero_add] at hrun
      exact hrun

def stoppedEarly : List Op := [.sendRequest 0 10 1 true true false, .fire 1, .stop 2]

theorem retries_stoppedEarly :
    (stoppedEarly.foldl step {}).log = [.sent 1] ∧
      ∀ after : List Op, (∀ op ∈ after, op.IsTurn) →
        let w := stoppedEarly.foldl step {}
        let w₁ := w.step (.sendRequest 3 10 2 false false false)
        let w₂ := after.foldl step w₁
        Retried (w.requests + 1) 2 (w₁.ticksOf after) (w₂.log.drop w.log.length) w₂ :=
  ⟨by decide +kernel,
    ((image_request_retries stoppedEarly (by decide)).2 3 10 2 false false false).mpr
      ⟨by decide +kernel, by decide +kernel⟩⟩

def stoppedLate : List Op := [.sendRequest 0 10 0 false false false, .stop (99 / 10)]

theorem not_retries_stoppedLate :
    let w := stoppedLate.foldl step {}
    let w₁ := w.step (.sendRequest (99 / 10) 10 0 false false false)
    let w₂ := w₁.step (.tick 0 10 false)
    w₂.log = [.sent 1, .sent 2, .timedOut 2 1] ∧
      ¬ Retried (w.requests + 1) 0 (w₁.ticksOf [.tick 0 10 false]) (w₂.log.drop w.log.length) w₂ := by
  refine ⟨by decide +kernel, fun h => ?_⟩
  have hown := h.own (.timedOut 2 1) (by decide +kernel)
  revert hown
  decide +kernel

end OpenMama.ImageRequest
