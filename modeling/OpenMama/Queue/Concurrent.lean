import OpenMama.Lib.Run
import OpenMama.Queue.Shape

/-!
# The queue between threads

Any number of threads enqueue, dispatch and poll. A semaphore operation is a step, and so is a section under the
mutex. A thread that got a token holds it until its own section, so that the semaphore and the tokens on their way
account for the queued items.
-/

namespace OpenMama

open List

namespace Queue

namespace Concurrent

variable {τ κ δ : Type} [DecidableEq τ]

inductive Call where
  | dispatch
  | timedDispatch
  | poll
deriving DecidableEq

def Call.section (q : Queue κ δ) : Call → Queue κ δ × Reply κ δ
  | .dispatch => q.dispatchSection
  | .timedDispatch => q.dispatchSection
  | .poll => q.takeFirst

/-- The queue, the threads between a token and their section, the thread that is still to post its item, the items that
`enqueue` accepted and the replies of the sections. -/
structure World (τ κ δ : Type) where
  queue : Queue κ δ
  passed : List (τ × Call) := []
  posting : Option τ := none
  accepted : List (Item κ δ) := []
  replies : List (Reply κ δ) := []

inductive Event (τ κ δ : Type) where
  /-- The section of `enqueue` up to the post. -/
  | enqueue (t : τ) (i : Item κ δ)
  | post (t : τ)
  | wait (t : τ) (call : Call)
  /-- The section after a token. -/
  | enter (t : τ)

def World.Idle (w : World τ κ δ) (t : τ) : Prop := t ∉ w.passed.map Prod.fst ∧ w.posting ≠ some t

instance (w : World τ κ δ) (t : τ) : Decidable (w.Idle t) := inferInstanceAs (Decidable (_ ∧ _))

/-- An event that cannot happen, as the thread is elsewhere, the mutex is taken or there is no token, changes nothing. A
call that gets no token blocks or returns `TIMEOUT` or `WOULD_BLOCK`. -/
def step (w : World τ κ δ) : Event τ κ δ → World τ κ δ
  | .enqueue t i =>
    if w.Idle t ∧ w.posting = none then
      let added := w.queue.enqueueSection i
      if added.2 = .ok then { w with queue := added.1, posting := some t, accepted := w.accepted ++ [i] }
      else { w with queue := added.1 }
    else w
  | .post t => if w.posting = some t then { w with queue := w.queue.post, posting := none } else w
  | .wait t call =>
    if w.Idle t ∧ 0 < w.queue.sem then { w with queue := w.queue.down, passed := w.passed ++ [(t, call)] } else w
  | .enter t =>
    match w.passed.find? (fun p => p.1 = t) with
    | none => w
    | some p =>
      if w.posting = none then
        { w with
          queue := (p.2.section w.queue).1
          passed := w.passed.erase p
          replies := w.replies ++ [(p.2.section w.queue).2] }
      else w

def start (q : Queue κ δ) : World τ κ δ where
  queue := q

/-- The accepted items are those that are gone and those in the queue. -/
structure Tracks (w : World τ κ δ) (gone : List (Item κ δ)) (nodes free : List Nat) : Prop where
  holds : w.queue.Holds nodes free
  chunkSize : w.queue.chunkSize ≠ 0
  unblocking : w.queue.unblocking = false
  accepted : w.accepted = gone ++ w.queue.itemsOf nodes
  replies : w.replies = gone.map took
  tokens : w.queue.sem + w.passed.length + (if w.posting = none then 0 else 1) = nodes.length

variable {w : World τ κ δ} {gone : List (Item κ δ)} {nodes free : List Nat}

section

variable (h : Tracks w gone nodes free)
include h

omit [DecidableEq τ] in
theorem Tracks.ne_nil (hpassed : w.passed ≠ []) : nodes ≠ [] := by
  rintro rfl
  have htokens := h.tokens
  have hpos := length_pos_of_ne_nil hpassed
  rw [length_nil] at htokens
  omega

theorem Tracks.enqueue (t : τ) (i : Item κ δ) :
    ∃ gone' nodes' free', Tracks (step w (.enqueue t i)) gone' nodes' free' := by
  by_cases hmay : w.Idle t ∧ w.posting = none
  · simp only [step, if_pos hmay]
    by_cases hrefuses : w.queue.Refuses
    · have hsection : w.queue.enqueueSection i = (w.queue, .full) := hrefuses.add_eq i _
      rw [hsection]
      exact ⟨gone, nodes, free, h⟩
    · obtain ⟨q', n, free', hsection, hholds, hkeeps, _, hitems⟩ := h.holds.enqueueSection h.chunkSize hrefuses i
      rw [hsection]
      refine ⟨gone, nodes ++ [n], free', hholds, hkeeps.chunkSize ▸ h.chunkSize,
        hkeeps.unblocking.trans h.unblocking, ?_, h.replies, ?_⟩
      · change w.accepted ++ [i] = gone ++ q'.itemsOf (nodes ++ [n])
        rw [hitems, h.accepted, append_assoc]
      · have htokens := h.tokens
        rw [if_pos hmay.2] at htokens
        change q'.sem + w.passed.length + 1 = _
        rw [hkeeps.sem, length_append, length_singleton]
        omega
  · simp only [step, if_neg hmay]
    exact ⟨gone, nodes, free, h⟩

theorem Tracks.post (t : τ) : Tracks (step w (.post t)) gone nodes free := by
  by_cases hposting : w.posting = some t
  · simp only [step, if_pos hposting]
    refine ⟨{ h.holds with }, h.chunkSize, h.unblocking, h.accepted, h.replies, ?_⟩
    have htokens := h.tokens
    rw [hposting] at htokens
    change w.queue.sem + 1 + w.passed.length + 0 = nodes.length
    rw [if_neg nofun] at htokens
    omega
  · simp only [step, if_neg hposting]
    exact h

theorem Tracks.wait (t : τ) (call : Call) : Tracks (step w (.wait t call)) gone nodes free := by
  by_cases hmay : w.Idle t ∧ 0 < w.queue.sem
  · simp only [step, if_pos hmay]
    refine ⟨{ h.holds with }, h.chunkSize, h.unblocking, h.accepted, h.replies, ?_⟩
    have htokens := h.tokens
    change w.queue.sem - 1 + (w.passed ++ [(t, call)]).length + (if w.posting = none then 0 else 1) = nodes.length
    rw [length_append, length_singleton]
    omega
  · simp only [step, if_neg hmay]
    exact h

end

theorem section_eq {q : Queue κ δ} (hunblocking : q.unblocking = false) (hhead : q.nextOf .head ≠ .tail)
    (call : Call) : call.section q = q.takeFirst := by
  have hdispatch : q.dispatchSection = q.takeFirst := by
    rw [dispatchSection, if_neg (by simp [hunblocking]), if_neg hhead]
  cases call with
  | dispatch => exact hdispatch
  | timedDispatch => exact hdispatch
  | poll => rfl

theorem Tracks.enter (h : Tracks w gone nodes free) (t : τ) :
    ∃ gone' nodes' free', Tracks (step w (.enter t)) gone' nodes' free' := by
  simp only [step]
  cases hfind : w.passed.find? (fun p => p.1 = t) with
  | none => exact ⟨gone, nodes, free, h⟩
  | some p =>
    have hp : p ∈ w.passed := mem_of_find?_eq_some hfind
    dsimp only
    split
    · obtain ⟨n, nodes, rfl⟩ := exists_cons_of_ne_nil (h.ne_nil (ne_nil_of_mem hp))
      have hhead : w.queue.nextOf .head ≠ .tail := fun hnil => nomatch h.holds.nextOf_head.mp hnil
      obtain ⟨hholds, hreply⟩ := h.holds.takeFirst
      rw [section_eq h.unblocking hhead]
      refine ⟨gone ++ [w.queue.itemOf (.node n)], nodes, n :: free, hholds, h.chunkSize, h.unblocking, ?_, ?_, ?_⟩
      · rw [h.accepted, append_assoc]
        rfl
      · rw [hreply, h.replies, map_append]
        rfl
      · have htokens := h.tokens
        have hlength := length_erase_of_mem hp
        have hpos := length_pos_of_mem hp
        change w.queue.sem + (w.passed.erase p).length + (if w.posting = none then 0 else 1) = nodes.length
        rw [length_cons] at htokens
        omega
    · exact ⟨gone, nodes, free, h⟩

theorem Tracks.step (h : Tracks w gone nodes free) (e : Event τ κ δ) :
    ∃ gone' nodes' free', Tracks (step w e) gone' nodes' free' := by
  cases e with
  | enqueue t i => exact h.enqueue t i
  | post t => exact ⟨gone, nodes, free, h.post t⟩
  | wait t call => exact ⟨gone, nodes, free, h.wait t call⟩
  | enter t => exact h.enter t

theorem Tracks.run (h : Tracks w gone nodes free) (es : List (Event τ κ δ)) :
    ∃ gone' nodes' free', Tracks (es.foldl Concurrent.step w) gone' nodes' free' := by
  induction es generalizing w gone nodes free with
  | nil => exact ⟨gone, nodes, free, h⟩
  | cons e _ ih =>
    obtain ⟨_, _, _, h'⟩ := h.step e
    exact ih h'

omit [DecidableEq τ] in
theorem tracks_start {q : Queue κ δ} (h : q.Fresh) : ∃ free, Tracks (start q : World τ κ δ) [] [] free := by
  obtain ⟨free, hholds⟩ := h.holds
  exact ⟨free, hholds, h.chunkSize, h.unblocking, rfl, rfl, by simp [start, h.sem]⟩

/-- After every schedule the list and the free list are well formed and share no node. The accepted items are those
replied with, each once and in order, and then the queued ones. A thread with a token finds an item, and with no thread
between two steps the semaphore is the number of queued items. -/
theorem concurrent_queue {maxSize initialSize growBySize : UInt32} {q : Queue κ δ}
    (h : create maxSize initialSize growBySize = (q, .ok)) (es : List (Event τ κ δ)) :
    ∃ gone nodes free,
      let w := es.foldl step (start q)
      w.queue.Holds nodes free ∧ w.accepted = gone ++ w.queue.itemsOf nodes ∧ w.replies = gone.map took ∧
        (w.passed ≠ [] → w.queue.nextOf .head ≠ .tail) ∧
        (w.passed = [] → w.posting = none → w.queue.getSize = nodes.length) := by
  obtain ⟨_, hstart⟩ := tracks_start (τ := τ) (fresh_create h)
  obtain ⟨gone, nodes, free, hrun⟩ := hstart.run es
  refine ⟨gone, nodes, free, hrun.holds, hrun.accepted, hrun.replies, ?_, ?_⟩
  · intro hpassed hnil
    exact hrun.ne_nil hpassed (hrun.holds.nextOf_head.mp hnil)
  · intro hpassed hposting
    have htokens := hrun.tokens
    rw [hpassed, hposting] at htokens
    exact htokens

theorem concurrent_queue_overtaking :
    create 4 2 2 = (small, .ok) ∧ ∃ gone nodes free,
      let w := [Event.enqueue 0 first, .post 0, .wait 1 .dispatch, .enqueue 0 second, .post 0, .wait 2 .poll, .enter 2,
        .enter 1].foldl step (start small)
      w.queue.Holds nodes free ∧ w.accepted = gone ++ w.queue.itemsOf nodes ∧ w.replies = gone.map took ∧
        (w.passed ≠ [] → w.queue.nextOf .head ≠ .tail) ∧
        (w.passed = [] → w.posting = none → w.queue.getSize = nodes.length) :=
  ⟨create_small, concurrent_queue create_small _⟩

end Concurrent

end Queue

end OpenMama
