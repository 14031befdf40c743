import OpenMama.Lib.Simulation
import OpenMama.Queue.Shape

/-!
# Unblocking and flushing the queue

An `unblock` posts the semaphore without an item and sets a flag that only `dispatchInt` looks at. The queue follows a
list of items with a number of returns that are still to come as long as `poll` and `flush` do not meet a token
without an item and `flush` meets one item at the most.
-/

namespace OpenMama

open List

namespace Queue

variable {κ δ : Type}

namespace Unblock

inductive Op (κ δ : Type) where
  | enqueue (i : Item κ δ)
  | unblock
  | poll
  | timedDispatch
  | flush

/-- The queue, the reply, and what the callback of `flush` is called with. -/
def perform (q : Queue κ δ) : Op κ δ → Queue κ δ × Reply κ δ × List (Option δ × Option δ)
  | .enqueue i => ((q.enqueue i).1, (q.enqueue i).2, [])
  | .unblock => (q.unblock.1, q.unblock.2, [])
  | .poll => (q.poll.1, q.poll.2, [])
  | .timedDispatch => (q.timedDispatch.1, q.timedDispatch.2, [])
  | .flush => (q.flush.1, { status := .ok }, q.flush.2)

def step (q : Queue κ δ) (op : Op κ δ) : Queue κ δ := (perform q op).1

structure Contents (κ δ : Type) where
  items : List (Item κ δ)
  blanks : Nat

/-- A call takes the first item, reports that there is none, or returns without an item at the cost of an
`unblock`. -/
def Takes (none' : Status) (reply : Reply κ δ) (t t' : Contents κ δ) : Prop :=
  (∃ i rest, t.items = i :: rest ∧ reply = took i ∧ t' = ⟨rest, t.blanks⟩) ∨
  (t.items = [] ∧ reply = { status := none' } ∧ t' = t) ∨
  (reply = { status := .ok } ∧ t = ⟨t'.items, t'.blanks + 1⟩)

def Spec (q : Queue κ δ) (op : Op κ δ) (t t' : Contents κ δ) : Prop :=
  let answer := (perform q op).2
  match op with
  | .enqueue i =>
    answer.1 = { status := .ok } ∧ t' = ⟨t.items ++ [i], t.blanks⟩ ∨ answer.1 = { status := .full } ∧ t' = t
  | .unblock => t' = ⟨t.items, t.blanks + 1⟩
  | .poll => Takes .wouldBlock answer.1 t t'
  | .timedDispatch => Takes .timeout answer.1 t t'
  | .flush => answer.2 = t.items.map (fun i => (i.data, i.closure)) ∧ t' = ⟨[], t.blanks⟩

/-- The list is well formed and holds the items, and the semaphore counts them and the blanks. -/
structure Shows (q : Queue κ δ) (t : Contents κ δ) : Prop where
  holds : ∃ nodes free, q.Holds nodes free ∧ q.itemsOf nodes = t.items
  chunkSize : q.chunkSize ≠ 0
  sem : q.sem = t.items.length + t.blanks
  unblocking : q.unblocking = true → 0 < t.blanks

/-- `poll` meets no token without an item, and `flush` neither that nor a second item. -/
def Safe (q : Queue κ δ) : Op κ δ → Prop
  | .poll => q.nextOf .head = .tail → q.sem = 0
  | .flush => q.nextOf (q.nextOf .head) = .tail ∧ (q.nextOf .head = .tail → q.sem = 0)
  | _ => True

instance (q : Queue κ δ) : (op : Op κ δ) → Decidable (Safe q op)
  | .enqueue _ => isTrue trivial
  | .unblock => isTrue trivial
  | .poll => inferInstanceAs (Decidable (_ → _))
  | .timedDispatch => isTrue trivial
  | .flush => inferInstanceAs (Decidable (_ ∧ _))

variable {q : Queue κ δ} {t : Contents κ δ}

section

variable (h : Shows q t)
include h

theorem Shows.enqueue (i : Item κ δ) : ∃ t', Spec q (.enqueue i) t t' ∧ Shows (step q (.enqueue i)) t' := by
  obtain ⟨_, _, hholds, hitems⟩ := h.holds
  by_cases hrefuses : q.Refuses
  · have henqueue : q.enqueue i = (q, { status := .full }) := by
      rw [Queue.enqueue, enqueueSection, hrefuses.add_eq]
      rfl
    refine ⟨t, .inr ⟨?_, rfl⟩, ?_⟩
    · rw [perform, henqueue]
    · rw [step, perform, henqueue]
      exact h
  · obtain ⟨q', n, _, hsection, hholds', hkeeps, _, hitems'⟩ := hholds.enqueueSection h.chunkSize hrefuses i
    have henqueue : q.enqueue i = (q'.post, { status := .ok }) := by
      rw [Queue.enqueue, hsection]
      rfl
    refine ⟨⟨t.items ++ [i], t.blanks⟩, .inl ⟨?_, rfl⟩, ?_⟩
    · rw [perform, henqueue]
    · rw [step, perform, henqueue]
      refine ⟨⟨_, _, { hholds' with }, ?_⟩, ?_, ?_, ?_⟩
      · rw [← hitems]
        exact hitems'
      · exact hkeeps.chunkSize ▸ h.chunkSize
      · have hsem := h.sem
        rw [← hkeeps.sem] at hsem
        change q'.sem + 1 = (t.items ++ [i]).length + t.blanks
        rw [length_append, length_singleton]
        omega
      · exact fun hflag => h.unblocking (hkeeps.unblocking ▸ hflag)

theorem Shows.nextOf_head : q.nextOf .head = .tail ↔ t.items = [] := by
  obtain ⟨_, _, hholds, hitems⟩ := h.holds
  rw [hholds.nextOf_head, ← hitems, itemsOf, map_eq_nil_iff]

theorem Shows.take (hitems : t.items ≠ []) :
    ∃ i rest, t.items = i :: rest ∧ q.down.takeFirst.2 = took i ∧ Shows q.down.takeFirst.1 ⟨rest, t.blanks⟩ := by
  obtain ⟨nodes, free, hholds, hnodes⟩ := h.holds
  cases nodes with
  | nil => exact absurd hnodes.symm hitems
  | cons n nodes =>
    have hdown : q.down.Holds (n :: nodes) free := { hholds with }
    obtain ⟨hholds', hreply⟩ := hdown.takeFirst
    refine ⟨q.itemOf (.node n), q.itemsOf nodes, hnodes.symm, hreply, ⟨_, _, hholds', rfl⟩, h.chunkSize, ?_,
      h.unblocking⟩
    have hsem := h.sem
    rw [← hnodes] at hsem
    change q.sem - 1 = (q.itemsOf nodes).length + t.blanks
    simp only [itemsOf, length_map, length_cons] at hsem ⊢
    omega

theorem Shows.blank (hblanks : 0 < t.blanks) : Shows { q.down with unblocking := false } ⟨t.items, t.blanks - 1⟩ := by
  obtain ⟨nodes, free, hholds, hnodes⟩ := h.holds
  refine ⟨⟨nodes, free, { hholds with }, hnodes⟩, h.chunkSize, ?_, by nofun⟩
  have hsem := h.sem
  change q.sem - 1 = t.items.length + (t.blanks - 1)
  omega

theorem Shows.not_shows_take (hitems : t.items = []) (t' : Contents κ δ) : ¬ Shows q.down.takeFirst.1 t' := by
  obtain ⟨_, free, hholds, hnodes⟩ := h.holds
  rw [hitems, itemsOf, map_eq_nil_iff] at hnodes
  subst hnodes
  have hdown : q.down.Holds [] free := { hholds with }
  rintro ⟨⟨nodes', free', hholds', _⟩, -, -, -⟩
  exact hdown.not_holds_takeFirst nodes' free' hholds'

theorem Shows.sem_eq_zero : q.sem = 0 ↔ t.items = [] ∧ t.blanks = 0 := by
  rw [h.sem, Nat.add_eq_zero_iff, length_eq_zero_iff]

theorem Shows.poll_iff : (∃ t', Spec q .poll t t' ∧ Shows (step q .poll) t') ↔ Safe q .poll := by
  have hsafe : Safe q .poll ↔ (t.items = [] → q.sem = 0) := imp_congr h.nextOf_head Iff.rfl
  rw [hsafe]
  simp only [Spec, step, perform, Queue.poll]
  split
  next hsem => exact iff_of_true ⟨t, .inr (.inl ⟨(h.sem_eq_zero.mp hsem).1, rfl, rfl⟩), h⟩ (fun _ => hsem)
  next hsem =>
    by_cases hitems : t.items = []
    · refine iff_of_false ?_ (fun hzero => hsem (hzero hitems))
      rintro ⟨t', -, hshows⟩
      exact h.not_shows_take hitems t' hshows
    · obtain ⟨i, rest, hcons, hreply, hshows⟩ := h.take hitems
      exact iff_of_true ⟨_, .inl ⟨i, rest, hcons, hreply, rfl⟩, hshows⟩ (fun hnil => absurd hnil hitems)

theorem Shows.timedDispatch : ∃ t', Spec q .timedDispatch t t' ∧ Shows (step q .timedDispatch) t' := by
  simp only [Spec, step, perform, Queue.timedDispatch]
  by_cases hsem : q.sem = 0
  · rw [if_pos hsem]
    exact ⟨t, .inr (.inl ⟨(h.sem_eq_zero.mp hsem).1, rfl, rfl⟩), h⟩
  · rw [if_neg hsem, dispatchSection]
    have hhead : q.down.nextOf .head = .tail ↔ t.items = [] := h.nextOf_head
    split
    next hflag =>
      have hblanks := h.unblocking hflag
      refine ⟨⟨t.items, t.blanks - 1⟩, .inr (.inr ⟨rfl, ?_⟩), h.blank hblanks⟩
      rw [Nat.sub_add_cancel hblanks]
    next hflag =>
      by_cases hitems : t.items = []
      · rw [if_pos (hhead.mpr hitems)]
        have hblanks : 0 < t.blanks := by
          rw [h.sem_eq_zero, not_and] at hsem
          exact Nat.pos_of_ne_zero (hsem hitems)
        refine ⟨⟨t.items, t.blanks - 1⟩, .inr (.inr ⟨rfl, ?_⟩), ?_⟩
        · rw [Nat.sub_add_cancel hblanks]
        · have hshows := h.blank hblanks
          rwa [← Bool.eq_false_iff.mpr hflag] at hshows
      · rw [if_neg (fun hnil => hitems (hhead.mp hnil))]
        obtain ⟨i, rest, hcons, hreply, hshows⟩ := h.take hitems
        exact ⟨_, .inl ⟨i, rest, hcons, hreply, rfl⟩, hshows⟩

theorem Shows.unblock : ∃ t', Spec q .unblock t t' ∧ Shows (step q .unblock) t' := by
  obtain ⟨nodes, free, hholds, hnodes⟩ := h.holds
  refine ⟨_, rfl, ⟨nodes, free, { hholds with }, hnodes⟩, h.chunkSize, ?_, fun _ => Nat.succ_pos _⟩
  change q.sem + 1 = _
  rw [h.sem, Nat.add_assoc]

theorem Shows.nextOf_nextOf_head : q.nextOf (q.nextOf .head) = .tail ↔ t.items.length ≤ 1 := by
  obtain ⟨nodes, _, hholds, hnodes⟩ := h.holds
  rw [← hnodes, itemsOf]
  rcases nodes with _ | ⟨n, _ | ⟨m, nodes⟩⟩
  · rw [hholds.nextOf_head.mpr rfl, hholds.tailNext]
    simp
  · rw [hholds.nextOf_head_cons]
    exact iff_of_true (isChain_cons_cons.mp (isChain_cons_cons.mp hholds.linked).2).1.1 (Nat.le_refl 1)
  · rw [hholds.nextOf_head_cons]
    have hsecond : q.nextOf (.node n) = .node m := (isChain_cons_cons.mp (isChain_cons_cons.mp hholds.linked).2).1.1
    rw [hsecond]
    exact iff_of_false (by simp) (by simp)

theorem Shows.flush_iff : (∃ t', Spec q .flush t t' ∧ Shows (step q .flush) t') ↔ Safe q .flush := by
  have hsafe : Safe q .flush ↔ t.items.length ≤ 1 ∧ (t.items = [] → q.sem = 0) :=
    and_congr h.nextOf_nextOf_head (imp_congr h.nextOf_head Iff.rfl)
  rw [hsafe]
  simp only [Spec, step, perform, Queue.flush]
  split
  next hsem =>
    have hitems := (h.sem_eq_zero.mp hsem).1
    refine iff_of_true ⟨t, ⟨by rw [hitems]; rfl, ?_⟩, h⟩ ⟨by rw [hitems]; simp, fun _ => hsem⟩
    rw [← hitems]
  next hsem =>
    by_cases hitems : t.items = []
    · refine iff_of_false ?_ (fun hzero => hsem (hzero.2 hitems))
      rintro ⟨t', -, hshows⟩
      exact h.not_shows_take hitems t' hshows
    · obtain ⟨i, rest, hcons, hreply, hshows⟩ := h.take hitems
      have hcall : [((q.itemOf (q.nextOf .head)).data, (q.itemOf (q.nextOf .head)).closure)] = [(i.data, i.closure)] :=
        congrArg (fun out => [out]) (Option.some.inj (congrArg Reply.out hreply))
      rw [hcall, hcons]
      cases rest with
      | nil => exact iff_of_true ⟨_, ⟨rfl, rfl⟩, hshows⟩ ⟨Nat.le_refl 1, by nofun⟩
      | cons j _ =>
        refine iff_of_false ?_ (fun hle => nomatch hle.1)
        rintro ⟨_, ⟨hcalls, -⟩, -⟩
        cases congrArg List.length hcalls

theorem Shows.step_iff (op : Op κ δ) : (∃ t', Spec q op t t' ∧ Shows (step q op) t') ↔ Safe q op := by
  cases op with
  | enqueue i => exact iff_of_true (h.enqueue i) trivial
  | unblock => exact iff_of_true h.unblock trivial
  | poll => exact h.poll_iff
  | timedDispatch => exact iff_of_true h.timedDispatch trivial
  | flush => exact h.flush_iff

end

theorem shows_fresh (h : q.Fresh) : Shows q ⟨[], 0⟩ := by
  obtain ⟨free, hholds⟩ := h.holds
  exact ⟨⟨[], free, hholds, rfl⟩, h.chunkSize, h.sem, fun hflag => nomatch h.unblocking.symm.trans hflag⟩

theorem follows_iff_of_fresh (h : q.Fresh) (ops : List (Op κ δ)) :
    Follows step Spec Shows q ⟨[], 0⟩ ops ↔ Along step Safe q ops :=
  follows_iff_along (fun _ _ op hshows => hshows.step_iff op) (shows_fresh h) ops

/-- From its creation on, the queue changes its items as a list with pending returns does, keeps both sentinels and
flushes all items, exactly if `poll` and `flush` are only called as `Safe` says. -/
theorem follows_iff_safe {maxSize initialSize growBySize : UInt32}
    (h : create maxSize initialSize growBySize = (q, .ok)) (ops : List (Op κ δ)) :
    Follows step Spec Shows q ⟨[], 0⟩ ops ↔ Along step Safe q ops :=
  follows_iff_of_fresh (fresh_create h) ops

theorem follows_unblocked :
    create 4 2 2 = (small, .ok) ∧
      Follows step Spec Shows small ⟨[], 0⟩
        [.enqueue first, .unblock, .enqueue second, .timedDispatch, .poll, .flush, .poll] :=
  ⟨create_small, (follows_iff_safe create_small _).mpr (by decide)⟩

theorem not_follows_unblocked :
    ¬ Follows step Spec Shows small ⟨[], 0⟩ [.unblock, .poll] ∧
      ¬ Follows step Spec Shows small ⟨[], 0⟩ [.enqueue first, .enqueue second, .flush] := by
  have hfresh : small.Fresh := fresh_create create_small
  rw [follows_iff_of_fresh hfresh, follows_iff_of_fresh hfresh]
  decide

end Unblock

end Queue

end OpenMama
