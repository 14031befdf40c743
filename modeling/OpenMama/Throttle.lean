import Mathlib.Data.List.Nodup
import Mathlib.Data.Int.Log
import Mathlib.Data.Rat.Floor
import OpenMama.Lib.Run

/-!
# The throttle

`throttle.c`: actions are queued and run by a timer, a fixed number of them in each interval. The timer is made by the
first action that is queued, and is destroyed by a tick that finds the queue empty. A tick comes with a script of what
each action that it runs does to the throttle. The rate is greater than 0, elements are allocated without failure, and
a handle is the place of its element in the queue. The number for an interval is computed when the rate is set.
-/

namespace OpenMama.Throttling

open List List.Sublist

/-- `MsgProperties`: the owner, the number of its dispatch in the place of the callback and its closures, and how it was
dispatched. -/
structure Action (ω : Type) where
  owner : ω
  id : Nat
  immediate : Bool
deriving DecidableEq

/-- `wombatThrottleImpl`, with what was dispatched, run and removed so far. -/
structure Throttle (ω : Type) where
  msgQueue : List (Action ω) := []
  msgsSentThisInterval : Nat := 0
  messagesPerInterval : Nat
  timer : Bool := false
  dispatched : List (Action ω) := []
  ran : List (Action ω) := []
  removed : List (Action ω) := []
deriving DecidableEq

inductive Call (ω : Type) where
  | dispatch (owner : ω) (immediate : Bool)
  | removeAction (place : Nat)
  | removeMessagesForOwner (owner : ω)
deriving DecidableEq

/-- A tick comes with what each action that it runs calls. -/
inductive Event (ω : Type) where
  | call (c : Call ω)
  | tick (scripts : Nat → List (Call ω))

/-- What a dispatch asks for. -/
def Call.asks {ω : Type} : Call ω → Option (ω × Bool)
  | .dispatch owner immediate => some (owner, immediate)
  | _ => none

variable {ω : Type} [DecidableEq ω]

namespace Throttle

variable (t : Throttle ω)

def info (owner : ω) (immediate : Bool) : Action ω where
  owner := owner
  id := t.dispatched.length
  immediate := immediate

def dispatch (owner : ω) (immediate : Bool) : Throttle ω :=
  let info := t.info owner immediate
  { t with
    timer := true
    msgQueue := if immediate then info :: t.msgQueue else t.msgQueue ++ [info]
    dispatched := t.dispatched ++ [info] }

def removeAction (place : Nat) : Throttle ω :=
  match t.msgQueue[place]? with
  | some info => { t with msgQueue := t.msgQueue.eraseIdx place, removed := t.removed ++ [info] }
  | none => t

def removeMessagesForOwner (owner : ω) : Throttle ω :=
  { t with
    msgQueue := t.msgQueue.filter (·.owner ≠ owner)
    removed := t.removed ++ t.msgQueue.filter (·.owner = owner) }

def call : Call ω → Throttle ω
  | .dispatch owner immediate => t.dispatch owner immediate
  | .removeAction place => t.removeAction place
  | .removeMessagesForOwner owner => t.removeMessagesForOwner owner

/-- `wombatThrottle_sendQueuedMessage`. The action is off the queue while it runs. -/
def sendQueuedMessage (script : List (Call ω)) : Throttle ω × Bool :=
  match t.msgQueue with
  | [] => (t, false)
  | info :: rest => (script.foldl call { t with msgQueue := rest, ran := t.ran ++ [info] }, true)

/-- The loop of `wombatThrottle_dispatchMessagesUntilQuota`, for so many passes of its test, which counts also when it
fails. -/
def dispatchLoop (scripts : Nat → List (Call ω)) : Nat → Throttle ω → Throttle ω
  | 0, t => { t with msgsSentThisInterval := t.msgsSentThisInterval + 1 }
  | n + 1, t =>
    let sent := { t with msgsSentThisInterval := t.msgsSentThisInterval + 1 }.sendQueuedMessage
      (scripts t.msgsSentThisInterval)
    if sent.2 then dispatchLoop scripts n sent.1 else sent.1

def dispatchMessagesUntilQuota (scripts : Nat → List (Call ω)) (t : Throttle ω) : Throttle ω :=
  dispatchLoop scripts (t.messagesPerInterval - t.msgsSentThisInterval) t

def timerCB (scripts : Nat → List (Call ω)) (t : Throttle ω) : Throttle ω :=
  let t := { t with msgsSentThisInterval := 0 }
  let t := if t.msgQueue.length = 0 then { t with timer := false } else t
  dispatchMessagesUntilQuota scripts t

def step (t : Throttle ω) : Event ω → Throttle ω
  | .call c => t.call c
  | .tick scripts => if t.timer then t.timerCB scripts else t

/-- What every call and tick keeps. -/
structure Disciplined (t : Throttle ω) : Prop where
  /-- An action is known by the number of its dispatch. -/
  ids : t.dispatched.map Action.id = range t.dispatched.length
  /-- What was dispatched was run, was removed or is queued, and only one of these. -/
  accounted : (t.ran ++ t.removed ++ t.msgQueue).Perm t.dispatched
  /-- The actions that were not immediate are run in the order of their dispatch. -/
  order : ((t.ran ++ t.msgQueue).filter (!·.immediate)).Sublist t.dispatched
  armed : t.msgQueue ≠ [] → t.timer

variable {t : Throttle ω}

section

variable (h : t.Disciplined)
include h

omit [DecidableEq ω] in
theorem Disciplined.nodup : t.dispatched.Nodup := by
  have hids : (t.dispatched.map Action.id).Nodup := h.ids ▸ nodup_range
  exact List.Nodup.of_map _ hids

omit [DecidableEq ω] in
theorem Disciplined.dispatch (owner : ω) (immediate : Bool) : (t.dispatch owner immediate).Disciplined := by
  refine ⟨?_, ?_, ?_, fun _ => rfl⟩
  · simp [Throttle.dispatch, info, h.ids, range_succ]
  · have hend (info : Action ω) : (t.ran ++ t.removed ++ (t.msgQueue ++ [info])).Perm (t.dispatched ++ [info]) := by
      rw [← append_assoc]
      exact h.accounted.append_right [info]
    cases immediate with
    | false => exact hend _
    | true => exact (List.Perm.append_left _ (perm_append_singleton _ _).symm).trans (hend _)
  · cases immediate with
    | false =>
      have hsub := h.order.append (refl [t.info owner false])
      simpa [Throttle.dispatch, info, filter_append] using hsub
    | true =>
      have hsub := h.order.trans (sublist_append_left t.dispatched [t.info owner true])
      simpa [Throttle.dispatch, info, filter_append] using hsub

omit [DecidableEq ω] in
theorem Disciplined.remove {kept gone : List (Action ω)} (hsub : kept.Sublist t.msgQueue)
    (hperm : (gone ++ kept).Perm t.msgQueue) :
    ({ t with msgQueue := kept, removed := t.removed ++ gone } : Throttle ω).Disciplined := by
  refine ⟨h.ids, ?_, ?_, fun hne => h.armed fun hnil => ?_⟩
  · have hsame : (t.ran ++ (t.removed ++ gone) ++ kept).Perm (t.ran ++ t.removed ++ t.msgQueue) := by
      rw [← append_assoc, append_assoc]
      exact hperm.append_left _
    exact hsame.trans h.accounted
  · exact (((refl t.ran).append hsub).filter _).trans h.order
  · rw [hnil] at hsub
    exact hne (sublist_nil.mp hsub)

theorem Disciplined.call (c : Call ω) : (t.call c).Disciplined := by
  cases c with
  | dispatch owner immediate => exact h.dispatch owner immediate
  | removeAction _ =>
    rw [Throttle.call, removeAction]
    split
    next _ hinfo =>
      obtain ⟨hplace, rfl⟩ := List.getElem?_eq_some_iff.mp hinfo
      exact h.remove (eraseIdx_sublist ..) (getElem_cons_eraseIdx_perm hplace)
    · exact h
  | removeMessagesForOwner owner =>
    apply h.remove filter_sublist
    have hperm := filter_append_perm (fun info : Action ω => decide (info.owner = owner)) t.msgQueue
    simpa using hperm

theorem Disciplined.sendQueuedMessage (script : List (Call ω)) : (t.sendQueuedMessage script).1.Disciplined := by
  rw [Throttle.sendQueuedMessage]
  split
  · exact h
  next _ _ hqueue =>
    have haccounted := h.accounted
    have horder := h.order
    rw [hqueue] at haccounted horder
    refine foldlRecOn script _ ⟨h.ids, ?_, ?_, fun _ => h.armed (by simp [hqueue])⟩ fun _ h c _ => h.call c
    · refine List.Perm.trans ?_ haccounted
      simp only [append_assoc, singleton_append]
      exact List.Perm.append_left _ perm_middle.symm
    · rwa [append_assoc]

end

/-! ### One tick -/

omit [DecidableEq ω] in
/-- What was asked for by the dispatches, in their order. -/
def asked (t : Throttle ω) : List (ω × Bool) := t.dispatched.map fun info => (info.owner, info.immediate)

/-- From `t` to `t'` the calls were made and `k` actions were run. -/
structure Runs (calls : List (Call ω)) (k : Nat) (t t' : Throttle ω) : Prop where
  quota : t'.messagesPerInterval = t.messagesPerInterval
  ran : t.ran <+: t'.ran
  count : t'.ran.length = t.ran.length + k
  asked : t'.asked = t.asked ++ calls.filterMap Call.asks

omit [DecidableEq ω] in
theorem Runs.none (t : Throttle ω) : Runs [] 0 t t := ⟨rfl, prefix_rfl, rfl, (append_nil _).symm⟩

omit [DecidableEq ω] in
theorem Runs.trans {calls calls' : List (Call ω)} {k k' : Nat} {t t' t'' : Throttle ω} (h : Runs calls k t t')
    (h' : Runs calls' k' t' t'') : Runs (calls ++ calls') (k + k') t t'' where
  quota := h'.quota.trans h.quota
  ran := h.ran.trans h'.ran
  count := by rw [h'.count, h.count, Nat.add_assoc]
  asked := by rw [h'.asked, h.asked, append_assoc, filterMap_append]

theorem runs_call (t : Throttle ω) (c : Call ω) :
    Runs [c] 0 t (t.call c) ∧ (t.call c).msgsSentThisInterval = t.msgsSentThisInterval := by
  cases c with
  | dispatch owner immediate =>
    exact ⟨⟨rfl, prefix_rfl, rfl, by simp [asked, call, dispatch, info, Call.asks]⟩, rfl⟩
  | removeAction place =>
    rw [call, removeAction]
    split <;> exact ⟨⟨rfl, prefix_rfl, rfl, (append_nil _).symm⟩, rfl⟩
  | removeMessagesForOwner owner => exact ⟨⟨rfl, prefix_rfl, rfl, (append_nil _).symm⟩, rfl⟩

theorem runs_foldl (script : List (Call ω)) (t : Throttle ω) :
    Runs script 0 t (script.foldl Throttle.call t) ∧
      (script.foldl Throttle.call t).msgsSentThisInterval = t.msgsSentThisInterval := by
  induction script generalizing t with
  | nil => exact ⟨Runs.none t, rfl⟩
  | cons c _ ih =>
    obtain ⟨hone, hsent⟩ := runs_call t c
    obtain ⟨hrest, hsent'⟩ := ih (t.call c)
    exact ⟨hone.trans hrest, hsent'.trans hsent⟩

/-- The loop runs the first action, if there is one and the quota is not used up, and the actions it runs make the calls
of their scripts. -/
theorem runs_dispatchLoop (scripts : Nat → List (Call ω)) (n : Nat) (t : Throttle ω) :
    ∃ k ≤ n, Runs ((range' t.msgsSentThisInterval k).flatMap scripts) k t (t.dispatchLoop scripts n) ∧
      (0 < n → (t.ran ++ t.msgQueue.take 1) <+: (t.dispatchLoop scripts n).ran) := by
  induction n generalizing t with
  | zero => exact ⟨0, Nat.le_refl 0, { Runs.none t with }, (absurd · (Nat.lt_irrefl 0))⟩
  | succ n ih =>
    rw [Throttle.dispatchLoop, Throttle.sendQueuedMessage]
    cases hqueue : t.msgQueue with
    | nil => exact ⟨0, Nat.zero_le _, { Runs.none t with }, fun _ => by simp⟩
    | cons first rest =>
      obtain ⟨hscript, hsent⟩ := runs_foldl (scripts t.msgsSentThisInterval)
        { t with msgsSentThisInterval := t.msgsSentThisInterval + 1, msgQueue := rest, ran := t.ran ++ [first] }
      have hfirst : Runs [] 1 t { t with
          msgsSentThisInterval := t.msgsSentThisInterval + 1, msgQueue := rest, ran := t.ran ++ [first] } :=
        ⟨rfl, prefix_append _ _, by simp, (append_nil _).symm⟩
      obtain ⟨k, hk, hrest, -⟩ := ih _
      have hall := (hfirst.trans hscript).trans hrest
      rw [hsent] at hall
      refine ⟨k + 1, Nat.succ_le_succ hk, ?_, fun _ => hscript.ran.trans hrest.ran⟩
      rwa [range'_succ, flatMap_cons, Nat.add_comm k 1]

theorem Disciplined.dispatchLoop (h : t.Disciplined) (scripts : Nat → List (Call ω)) (n : Nat) :
    (t.dispatchLoop scripts n).Disciplined := by
  induction n generalizing t with
  | zero => exact { h with }
  | succ n ih =>
    have hcounted : ({ t with msgsSentThisInterval := t.msgsSentThisInterval + 1 } : Throttle ω).Disciplined :=
      { h with }
    have hsent := hcounted.sendQueuedMessage (scripts t.msgsSentThisInterval)
    rw [Throttle.dispatchLoop]
    split
    · exact ih hsent
    · exact hsent

/-- A tick runs the first action of the queue and no more than the quota, and makes their calls. -/
theorem Disciplined.tick (h : t.Disciplined) (scripts : Nat → List (Call ω)) :
    (t.step (.tick scripts)).Disciplined ∧ ∃ k ≤ t.messagesPerInterval,
      Runs ((range k).flatMap scripts) k t (t.step (.tick scripts)) ∧
        (0 < t.messagesPerInterval → (t.ran ++ t.msgQueue.take 1) <+: (t.step (.tick scripts)).ran) := by
  rw [Throttle.step]
  split
  next =>
    rw [Throttle.timerCB]
    split
    next hempty =>
      have hnil : t.msgQueue = [] := eq_nil_of_length_eq_zero hempty
      have hstart : ({ t with msgsSentThisInterval := 0, timer := false } : Throttle ω).Disciplined :=
        { h with armed := fun hne => absurd hnil hne }
      obtain ⟨k, hk, hruns, hfirst⟩ := runs_dispatchLoop scripts t.messagesPerInterval
        { t with msgsSentThisInterval := 0, timer := false }
      rw [← range_eq_range'] at hruns
      exact ⟨hstart.dispatchLoop scripts _, k, hk, { hruns with }, hfirst⟩
    next =>
      have hstart : ({ t with msgsSentThisInterval := 0 } : Throttle ω).Disciplined := { h with }
      obtain ⟨k, hk, hruns, hfirst⟩ := runs_dispatchLoop scripts t.messagesPerInterval
        { t with msgsSentThisInterval := 0 }
      rw [← range_eq_range'] at hruns
      exact ⟨hstart.dispatchLoop scripts _, k, hk, { hruns with }, hfirst⟩
  next htimer =>
    have hnil : t.msgQueue = [] := by
      by_contra hne
      exact htimer (h.armed hne)
    exact ⟨h, 0, Nat.zero_le _, Runs.none t, fun _ => by simp [hnil]⟩

def ticks (es : List (Event ω)) : Nat := es.countP fun e => e matches .tick _

/-- The calls of a run: a tick makes those of the actions that it runs. -/
def made (t : Throttle ω) : List (Event ω) → List (Call ω)
  | [] => []
  | .call c :: es => c :: made (t.call c) es
  | .tick scripts :: es =>
    let t' := t.step (.tick scripts)
    (range (t'.ran.length - t.ran.length)).flatMap scripts ++ made t' es

theorem Disciplined.run (h : t.Disciplined) (es : List (Event ω)) :
    (es.foldl Throttle.step t).Disciplined ∧ ∃ k ≤ ticks es * t.messagesPerInterval,
      Runs (made t es) k t (es.foldl Throttle.step t) := by
  induction es generalizing t with
  | nil => exact ⟨h, 0, Nat.zero_le _, Runs.none t⟩
  | cons e es ih =>
    cases e with
    | call c =>
      have hone := (runs_call t c).1
      obtain ⟨hall, k, hk, hrest⟩ := ih (h.call c)
      rw [hone.quota] at hk
      exact ⟨hall, 0 + k, by simpa [ticks] using hk, hone.trans hrest⟩
    | tick scripts =>
      obtain ⟨htick, k, hk, hone, -⟩ := h.tick scripts
      obtain ⟨hall, k', hk', hrest⟩ := ih htick
      rw [hone.quota] at hk'
      have hmade : made t (.tick scripts :: es) = (range k).flatMap scripts ++ made (t.step (.tick scripts)) es := by
        rw [made, hone.count, Nat.add_sub_cancel_left]
      refine ⟨hall, k + k', ?_, hmade ▸ hone.trans hrest⟩
      have hticks : ticks (.tick scripts :: es) = ticks es + 1 := by simp [ticks]
      rw [hticks, Nat.succ_mul]
      omega

/-- After any calls and ticks: every dispatch, also from inside an action, has added its action; an action is run at
most once, and not if it was removed; when the queue is empty, all were run or removed; those that were not immediate
were run in the order of their dispatch; a queue that is not empty has a timer; and a tick runs the first action and no
more than its quota. -/
theorem queue_disciplined (messagesPerInterval : Nat) (es : List (Event ω)) :
    let start : Throttle ω := { messagesPerInterval }
    let t := es.foldl Throttle.step start
    t.dispatched.map (fun info => (info.owner, info.immediate)) = (start.made es).filterMap Call.asks
      ∧ t.dispatched.Nodup ∧ t.ran.Nodup ∧ (∀ info ∈ t.ran, info ∈ t.dispatched ∧ info ∉ t.removed)
      ∧ (t.msgQueue = [] → ∀ info ∈ t.dispatched, info ∈ t.ran ∨ info ∈ t.removed)
      ∧ (t.ran.filter (!·.immediate)).Sublist t.dispatched
      ∧ (t.msgQueue ≠ [] → t.timer)
      ∧ ∀ scripts, (t.step (.tick scripts)).ran.length ≤ t.ran.length + messagesPerInterval
        ∧ (0 < messagesPerInterval → (t.ran ++ t.msgQueue.take 1) <+: (t.step (.tick scripts)).ran) := by
  intro start t
  have hstart : start.Disciplined := ⟨rfl, List.Perm.refl _, refl _, (absurd rfl)⟩
  obtain ⟨h, _, -, hruns⟩ := hstart.run es
  have hall : (t.ran ++ (t.removed ++ t.msgQueue)).Nodup := by
    rw [← append_assoc]
    exact h.accounted.nodup_iff.mpr h.nodup
  obtain ⟨hran, -, hapart⟩ := nodup_append.mp hall
  refine ⟨hruns.asked, h.nodup, hran, fun info hinfo => ⟨?_, fun hgone => ?_⟩, fun hnil info hinfo => ?_, ?_, h.armed,
    fun scripts => ?_⟩
  · exact h.accounted.subset (mem_append_left _ (mem_append_left _ hinfo))
  · exact hapart info hinfo info (mem_append_left _ hgone) rfl
  · have hmem := h.accounted.symm.subset hinfo
    rw [hnil, append_nil] at hmem
    exact mem_append.mp hmem
  · exact ((sublist_append_left t.ran t.msgQueue).filter _).trans h.order
  · obtain ⟨-, k, hk, hone, hfirst⟩ := h.tick scripts
    rw [hruns.quota] at hk hfirst
    exact ⟨hone.count.trans_le (Nat.add_le_add_left hk _), hfirst⟩

/-- Two actions are queued, an immediate one is put in front of them, and the first that runs dispatches another. -/
def reentrant : List (Event Nat) :=
  [.call (.dispatch 0 false), .call (.dispatch 0 false), .call (.dispatch 1 true), .tick fun _ => [],
    .tick fun _ => [.dispatch 1 true], .tick fun _ => []]

theorem queue_disciplined_reentrant :
    let t := reentrant.foldl Throttle.step { messagesPerInterval := 1 }
    t.ran.map Action.id = [2, 0, 3] ∧ t.dispatched.length = 4 := by
  have h := congrArg length (queue_disciplined 1 reentrant).1
  rw [length_map] at h
  exact ⟨by decide, h⟩

end Throttle

/-! ### The quota -/

/-- The integer nearest to a number, and the even one of two. -/
def roundEven (q : ℚ) : Int :=
  if q - ⌊q⌋ < 1 / 2 ∨ q - ⌊q⌋ = 1 / 2 ∧ ⌊q⌋ % 2 = 0 then ⌊q⌋ else ⌊q⌋ + 1

/-- The double nearest to a number: the nearest one with 53 binary digits. One too large is beyond every `int`, and one
too small for 53 digits rounds to less than 1: no more is used of either. -/
def roundDouble (q : ℚ) : ℚ :=
  let ulp : ℚ := 2 ^ (Int.log 2 |q| - 52)
  roundEven (q / ulp) * ulp

/-- The rate and the interval are values of doubles. There is no number of messages after a conversion to `int` that
is undefined. -/
structure Settings where
  rate : ℚ := 0
  interval : ℚ := roundDouble (1 / 10)
  messagesPerInterval : Option Nat := some 0
deriving DecidableEq

inductive Setting where
  | rate (rate : ℚ)
  | interval (interval : ℚ)

namespace Settings

def setInterval (s : Settings) (interval : ℚ) : Settings := { s with interval }

/-- `(int) messagesPerInterval`, or 1. -/
def convert (messagesPerInterval : ℚ) : Option Nat :=
  if 1 < messagesPerInterval then
    if messagesPerInterval < 2 ^ 31 then some ⌊messagesPerInterval⌋.toNat else none
  else some 1

def setRate (s : Settings) (rate : ℚ) : Settings :=
  let s := { s with rate := if rate < 0 then 0 else rate }
  if s.rate = 0 then s
  else { s with messagesPerInterval := convert (roundDouble (s.rate * s.interval)) }

def allocate : Settings := setRate {} 1000

def set (s : Settings) : Setting → Settings
  | .rate rate => s.setRate rate
  | .interval interval => s.setInterval interval

theorem convert_eq_some {product : ℚ} {n : Nat} :
    convert product = some n ↔ product < 2 ^ 31 ∧ max 1 ⌊product⌋.toNat = n := by
  unfold convert
  split
  next hone =>
    have hfloor : 1 ≤ ⌊product⌋ := Int.le_floor.mpr hone.le
    have hmax : max 1 ⌊product⌋.toNat = ⌊product⌋.toNat := by omega
    simp [hmax]
  next hone =>
    have hfloor : ⌊product⌋ < 2 := Int.floor_lt.mpr (lt_of_le_of_lt (not_lt.mp hone) (by norm_num))
    have hmax : max 1 ⌊product⌋.toNat = 1 := by omega
    have hint : product < 2 ^ 31 := lt_of_le_of_lt (not_lt.mp hone) (by norm_num)
    simp [hmax, hint]

end Settings

open Settings

def quota (rate interval : ℚ) : Nat := max 1 ⌊rate * interval⌋.toNat

/-- What was asked for: the rate, the interval, and the interval there was when the rate was set. -/
structure Asked where
  rate : ℚ := 1000
  interval : ℚ := roundDouble (1 / 10)
  rated : ℚ := roundDouble (1 / 10)

def Asked.next (a : Asked) : Setting → Asked
  | .rate rate => { rate := max 0 rate, interval := a.interval, rated := a.interval }
  | .interval interval => { a with interval }

structure Settings.Meets (s : Settings) (a : Asked) : Prop where
  rate : s.rate = a.rate
  interval : s.interval = a.interval
  converted : 0 < a.rate → s.messagesPerInterval = convert (roundDouble (a.rate * a.rated))

theorem Settings.meets_setRate (s : Settings) (rate : ℚ) :
    (s.setRate rate).Meets { rate := max 0 rate, interval := s.interval, rated := s.interval } := by
  have hrate : (if rate < 0 then 0 else rate) = max 0 rate := by
    rcases lt_or_ge rate 0 with hneg | hpos
    · rw [if_pos hneg, max_eq_left hneg.le]
    · rw [if_neg hpos.not_gt, max_eq_right hpos]
  unfold setRate
  dsimp only
  rw [hrate]
  split
  next hzero => exact ⟨rfl, rfl, fun hpos => absurd hzero hpos.ne'⟩
  next => exact ⟨rfl, rfl, fun _ => rfl⟩

theorem Settings.Meets.run {s : Settings} {a : Asked} (h : s.Meets a) (calls : List Setting) :
    (calls.foldl set s).Meets (calls.foldl Asked.next a) := by
  induction calls generalizing s a with
  | nil => exact h
  | cons call _ ih =>
    apply ih
    cases call with
    | rate rate =>
      rw [Asked.next, ← h.interval]
      exact s.meets_setRate rate
    | interval _ => exact ⟨h.rate, rfl, h.converted⟩

/-- The quota is what the rate and the interval give, so that no `n` ticks run more than `n` times that many
actions, if and only if the rounded product of the rate and of the interval that there was when the rate was set is an
`int` and gives the same. -/
theorem quota_follows_iff (calls : List Setting) :
    let s := calls.foldl set allocate
    let a := calls.foldl Asked.next {}
    (0 < s.rate → s.messagesPerInterval = some (quota s.rate s.interval) ∧
      ∀ before es : List (Event ω),
        let t := before.foldl Throttle.step { messagesPerInterval := quota s.rate s.interval }
        (es.foldl Throttle.step t).ran.length ≤ t.ran.length + Throttle.ticks es * quota s.rate s.interval) ↔
      (0 < a.rate → roundDouble (a.rate * a.rated) < 2 ^ 31 ∧
        max 1 ⌊roundDouble (a.rate * a.rated)⌋.toNat = quota a.rate a.interval) := by
  intro s a
  have hallocate := meets_setRate {} 1000
  have hmeets : s.Meets a := hallocate.run calls
  rw [hmeets.rate, hmeets.interval]
  refine forall_congr' fun hpos => ?_
  rw [hmeets.converted hpos, convert_eq_some, and_iff_left_iff_imp]
  rintro - before es
  have hstart : ({ messagesPerInterval := quota a.rate a.interval } : Throttle ω).Disciplined :=
    ⟨rfl, List.Perm.refl _, refl _, (absurd rfl)⟩
  obtain ⟨hrun, _, -, hbefore⟩ := hstart.run before
  obtain ⟨-, k, hk, hruns⟩ := hrun.run es
  rw [hbefore.quota] at hk
  exact hruns.count.trans_le (Nat.add_le_add_left hk _)

/-- The interval is set before the rate. -/
theorem quota_follows_setRate :
    (([.interval (1 / 2), .rate 500] : List Setting).foldl set allocate).messagesPerInterval =
      some 250 :=
  ((quota_follows_iff (ω := Nat) [.interval (1 / 2), .rate 500]).mpr (fun _ => by decide +kernel)
    (by decide +kernel)).1.trans (by decide +kernel)

/-- The interval is set after the rate; and a product is rounded up to an integer. -/
theorem not_quota_follows_setInterval :
    (let s := ([.interval (roundDouble (1 / 100))] : List Setting).foldl set allocate
    0 < s.rate ∧ s.messagesPerInterval = some 100 ∧ quota s.rate s.interval = 10) ∧
    let s := ([.interval (roundDouble (7 / 10)), .rate 10] : List Setting).foldl set allocate
    0 < s.rate ∧ s.messagesPerInterval = some 7 ∧ quota s.rate s.interval = 6 := by
  decide +kernel

end OpenMama.Throttling
