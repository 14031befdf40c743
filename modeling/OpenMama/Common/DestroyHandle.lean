import Mathlib.Data.List.Count
import OpenMama.Lib.Mutex
import OpenMama.Lib.Run

/-!
# Destroy handles

`destroyHandle.c`: a handle counts the references to an object, and is freed by the owner's `destroyOwner` or by the
last `removeReference`, whichever comes later. Every call takes the handle's lock; `removeReference` forgets to unlock
when the owner is gone and it does not drop the last reference.
-/

namespace OpenMama.DestroyHandle

open List

structure Handle where
  destroyed : Bool := false
  numberReferences : Int := 0
deriving DecidableEq

inductive Exit where
  | unlocks
  | keeps
  | frees
deriving DecidableEq

namespace Handle

/-- `destroyHandle_destroyOwner`, while it holds the lock. -/
def destroyOwner (h : Handle) : Handle × Exit :=
  if h.numberReferences = 0 then (h, .frees) else ({ h with destroyed := true }, .unlocks)

/-- `destroyHandle_incrementRefCount`, while it holds the lock. -/
def incrementRefCount (h : Handle) : Handle × Exit :=
  ({ h with numberReferences := h.numberReferences + 1 }, .unlocks)

/-- `destroyHandle_removeReference`, while it holds the lock, and whether it returns the owner. -/
def removeReference (h : Handle) : Handle × Bool × Exit :=
  let h := { h with numberReferences := h.numberReferences - 1 }
  if h.destroyed = false then (h, true, .unlocks)
  else if h.numberReferences = 0 then (h, false, .frees)
  else (h, false, .keeps)

end Handle

/-! ### Threads -/

inductive Call where
  | destroyOwner
  | incrementRefCount
  | removeReference
deriving DecidableEq

/-- A call that has returned, and whether it was told that the owner lives. -/
structure Done where
  call : Call
  owner : Bool
deriving DecidableEq

def Handle.run (h : Handle) : Call → Handle × Bool × Exit
  | .destroyOwner => let (h, exit) := h.destroyOwner; (h, false, exit)
  | .incrementRefCount => let (h, exit) := h.incrementRefCount; (h, false, exit)
  | .removeReference => h.removeReference

/-- Where a thread is: outside of a call, in front of `wlock_lock`, behind it, or in front of
`wlock_unlock`. -/
inductive Place where
  | outside
  | waits (c : Call)
  | inside (c : Call)
  | leaves
deriving DecidableEq

def Place.holds : Place → Bool
  | .inside _ | .leaves => true
  | _ => false

def Place.awaits : Place → Option Call
  | .waits c => some c
  | _ => none

/-- A handle and the threads that use it. `history` holds the calls that had the lock, in their order, and
`fault` says that a freed handle was used. -/
structure World (τ : Type) where
  handle : Handle := {}
  lock : Mutex τ := {}
  frees : Nat := 0
  fault : Bool := false
  place : τ → Place := fun _ => .outside
  history : List Done := []

inductive Event (τ : Type) where
  /-- A thread that is in no call begins one. -/
  | call (t : τ) (c : Call)
  /-- A thread takes its next step, if it can. -/
  | run (t : τ)
deriving DecidableEq

variable {τ : Type} [DecidableEq τ]

namespace World

variable (w : World τ)

def moves (t : τ) (p : Place) : World τ :=
  { w with place := Function.update w.place t p }

def calls (c : Call) : Nat := (w.history.map Done.call).count c

def does (handle : Handle) (done : Done) : World τ :=
  { w with handle := handle, history := w.history ++ [done] }

def exits (t : τ) : Exit → World τ
  | .unlocks => w.moves t .leaves
  | .keeps => w.moves t .outside
  | .frees => { w.moves t .outside with frees := w.frees + 1, lock := {} }

def step : Event τ → World τ
  | .call t c => if w.place t = .outside then w.moves t (.waits c) else w
  | .run t =>
    match w.place t with
    | .outside => w
    | .waits c =>
      if w.frees ≠ 0 then { w with fault := true }
      else match w.lock.lock? t with
        | none => w
        | some lock => { w.moves t (.inside c) with lock := lock }
    | .inside c =>
      let (handle, owner, exit) := w.handle.run c
      (w.does handle ⟨c, owner⟩).exits t exit
    | .leaves => { w.moves t .outside with lock := w.lock.unlock t }

end World

open World

/-- Every removal matches an earlier increment, no increment follows the destruction of the owner, and
there is one destruction. The calls are ordered as they had the lock. -/
def Matched (w : World τ) : Call → Prop
  | .destroyOwner => w.calls .destroyOwner = 0
  | .incrementRefCount => w.calls .destroyOwner = 0
  | .removeReference => w.calls .removeReference < w.calls .incrementRefCount

instance (w : World τ) (c : Call) : Decidable (Matched w c) := by
  cases c <;> unfold Matched <;> infer_instance

def Lawful (w : World τ) : Event τ → Prop
  | .call _ _ => True
  | .run t => (w.lock.lock? t).isSome = true → ∀ c ∈ (w.place t).awaits, Matched w c

instance (w : World τ) : (e : Event τ) → Decidable (Lawful w e)
  | .call _ _ => inferInstanceAs (Decidable True)
  | .run _ => by unfold Lawful; infer_instance

def ReturnOwner (history : List Done) : Prop :=
  ∀ before done after, history = before ++ done :: after → done.call = .removeReference →
    (done.owner = true ↔ .destroyOwner ∉ before.map Done.call)

/-- No freed lock is used, none is kept, and the handle is freed once, when its calls match. -/
structure Right (w : World τ) : Prop where
  live : w.fault = false
  released : ∀ t, 0 < w.lock.depth t → (w.place t).holds = true
  owner : ReturnOwner w.history
  frees : w.frees =
    if w.calls .destroyOwner = 1 ∧ w.calls .removeReference = w.calls .incrementRefCount then 1 else 0

def DropsLast (w : World τ) : Event τ → Prop
  | .call _ _ => True
  | .run t => w.place t = .inside .removeReference →
      w.calls .destroyOwner = 0 ∨ w.calls .incrementRefCount = w.calls .removeReference + 1

instance (w : World τ) : (e : Event τ) → Decidable (DropsLast w e)
  | .call _ _ => inferInstanceAs (Decidable True)
  | .run _ => by unfold DropsLast; infer_instance

/-! ### The invariant -/

theorem returnOwner_append {history : List Done} {done : Done} :
    ReturnOwner (history ++ [done]) ↔ ReturnOwner history ∧
      (done.call = .removeReference → (done.owner ↔ .destroyOwner ∉ history.map Done.call)) := by
  constructor
  · intro h
    exact ⟨fun before d after heq => h before d (after ++ [done]) (by rw [heq]; simp), h history done [] rfl⟩
  · rintro ⟨hhistory, hdone⟩ before d after heq
    rcases eq_nil_or_concat after with rfl | ⟨after, last, rfl⟩
    · obtain ⟨rfl, hd⟩ := append_inj' heq rfl
      obtain rfl := head_eq_of_cons_eq hd
      exact hdone
    · have hsplit : history ++ [done] = (before ++ d :: after) ++ [last] := by rw [heq]; simp
      exact hhistory before d after (append_inj' hsplit rfl).1

/-- What every schedule keeps. -/
structure Tracks (w : World τ) : Prop where
  live : w.fault = false
  depth : ∀ t, w.lock.depth t = if (w.place t).holds = true then 1 else 0
  unfreed : ∀ t, (w.place t).holds = true → w.frees = 0
  matched : ∀ t c, w.place t = .inside c → Matched w c
  references : w.handle.numberReferences = w.calls .incrementRefCount - w.calls .removeReference
  destroyed : w.frees = 0 → (w.handle.destroyed = true ↔ w.calls .destroyOwner = 1)
  once : w.calls .destroyOwner ≤ 1
  removed : w.calls .removeReference ≤ w.calls .incrementRefCount
  owner : ReturnOwner w.history
  frees : w.frees =
    if w.calls .destroyOwner = 1 ∧ w.calls .removeReference = w.calls .incrementRefCount then 1 else 0

namespace World

theorem moves_place (w : World τ) (t u : τ) (p : Place) : (w.moves t p).place u = if u = t then p else w.place u := by
  simp only [moves, Function.update_apply]

omit [DecidableEq τ] in
theorem calls_does (w : World τ) (handle : Handle) (done : Done) (c : Call) :
    (w.does handle done).calls c = w.calls c + if done.call = c then 1 else 0 := by
  rw [calls, does, map_append, count_append, map_singleton, count_singleton, calls]
  simp only [beq_iff_eq]

end World

theorem tracks_init : Tracks ({} : World τ) where
  live := rfl
  depth _ := rfl
  unfreed := nofun
  matched := nofun
  references := rfl
  destroyed _ := ⟨nofun, nofun⟩
  once := Nat.zero_le 1
  removed := Nat.le_refl 0
  owner before _ _ h := by simp at h
  frees := rfl

namespace Tracks

variable {w : World τ} {t : τ} (h : Tracks w)
include h

theorem alone (ht : (w.place t).holds) {u : τ} (hu : u ≠ t) : (w.place u).holds = false := by
  have hdepth : 0 < w.lock.depth t := by rw [h.depth, if_pos ht]; exact Nat.one_pos
  have hother := Mutex.depth_eq_zero_of_ne hdepth hu
  rw [h.depth] at hother
  simpa using hother

theorem call {c : Call} (ht : w.place t = .outside) : Tracks (w.moves t (.waits c)) := by
  refine { h with depth := fun u => ?_, unfreed := fun u hu => ?_, matched := fun u d hu => ?_ }
  · rw [moves_place]
    split
    next hu =>
      rw [show (w.moves t (.waits c)).lock = w.lock from rfl, h.depth u, hu, ht]
      rfl
    · exact h.depth u
  · rw [moves_place] at hu
    split at hu
    · cases hu
    · exact h.unfreed u hu
  · rw [moves_place] at hu
    split at hu
    · cases hu
    · exact h.matched u d hu

theorem lock {c : Call} {lock : Mutex τ} (ht : w.place t = .waits c) (hfrees : w.frees = 0)
    (hlock : w.lock.lock? t = some lock) (hmatched : Matched w c) :
    Tracks { w.moves t (.inside c) with lock := lock } := by
  refine { h with depth := fun u => ?_, unfreed := fun _ _ => hfrees, matched := fun u d hu => ?_ }
  · rw [Mutex.depth_lock? hlock, h.depth, moves_place]
    by_cases hu : u = t
    · rw [if_pos hu, if_pos hu, hu, ht]
      rfl
    · rw [if_neg hu, if_neg hu]
      rfl
  · rw [moves_place] at hu
    split at hu
    · exact Place.inside.inj hu ▸ hmatched
    · exact h.matched u d hu

theorem unlock (ht : w.place t = .leaves) : Tracks { w.moves t .outside with lock := w.lock.unlock t } := by
  refine { h with depth := fun u => ?_, unfreed := fun u hu => ?_, matched := fun u d hu => ?_ }
  · rw [Mutex.depth_unlock, h.depth, moves_place]
    by_cases hu : u = t
    · rw [if_pos hu, if_pos hu, hu, ht]
      rfl
    · rw [if_neg hu, if_neg hu]
      rfl
  · rw [moves_place] at hu
    split at hu
    · cases hu
    · exact h.unfreed u hu
  · rw [moves_place] at hu
    split at hu
    · cases hu
    · exact h.matched u d hu

theorem exits {handle : Handle} {done : Done} {exit : Exit} (ht : (w.place t).holds) (hexit : exit ≠ .keeps)
    {n : Call → Nat} (hn : (w.does handle done).calls = n)
    (hreferences : handle.numberReferences = n .incrementRefCount - n .removeReference)
    (hdestroyed : exit = .unlocks → (handle.destroyed ↔ n .destroyOwner = 1)) (honce : n .destroyOwner ≤ 1)
    (hremoved : n .removeReference ≤ n .incrementRefCount)
    (howner : done.call = .removeReference → (done.owner ↔ w.calls .destroyOwner = 0))
    (hfrees : exit = .frees ↔ n .destroyOwner = 1 ∧ n .removeReference = n .incrementRefCount) :
    Tracks ((w.does handle done).exits t exit) := by
  subst hn
  have hzero := h.unfreed t ht
  have hlog := returnOwner_append.mpr ⟨h.owner, fun hc => (howner hc).trans count_eq_zero⟩
  cases exit with
  | keeps => exact absurd rfl hexit
  | unlocks =>
    refine ⟨h.live, fun u => ?_, fun _ _ => hzero, fun u d hu => ?_, hreferences, fun _ => hdestroyed rfl,
      honce, hremoved, hlog, ?_⟩
    · show w.lock.depth u = if (((w.does handle done).moves t .leaves).place u).holds = true then 1 else 0
      rw [h.depth, moves_place]
      by_cases hu : u = t
      · rw [if_pos hu, hu, if_pos ht]
        rfl
      · rw [if_neg hu]
        rfl
    · change ((w.does handle done).moves t .leaves).place u = .inside d at hu
      rw [moves_place] at hu
      split at hu
      · cases hu
      next hne =>
        have hinside : (w.place u).holds := by rw [show w.place u = .inside d from hu]; rfl
        rw [h.alone ht hne] at hinside
        cases hinside
    · exact hzero.trans (if_neg (fun hboth => nomatch hfrees.mpr hboth)).symm
  | frees =>
    have houtside : ∀ u, (((w.does handle done).moves t .outside).place u).holds = false := fun u => by
      by_cases hu : u = t
      · rw [moves_place, if_pos hu]
        rfl
      · rw [moves_place, if_neg hu]
        exact h.alone ht hu
    refine ⟨h.live, fun u => ?_, fun u hu => ?_, fun u d hu => ?_, hreferences, fun hf => ?_, honce, hremoved, hlog, ?_⟩
    · show 0 = if (((w.does handle done).moves t .outside).place u).holds = true then 1 else 0
      rw [houtside u]
      rfl
    · cases (houtside u).symm.trans hu
    · change ((w.does handle done).moves t .outside).place u = .inside d at hu
      have hfree := houtside u
      rw [hu] at hfree
      cases hfree
    · exact absurd hf (Nat.succ_ne_zero _)
    · show w.frees + 1 = _
      rw [hzero]
      exact (if_pos (hfrees.mp rfl)).symm

theorem inside {c : Call} (ht : w.place t = .inside c)
    (hlast : c = .removeReference →
      w.calls .destroyOwner = 0 ∨ w.calls .incrementRefCount = w.calls .removeReference + 1) :
    Tracks (w.step (.run t)) := by
  have hholds : (w.place t).holds := by rw [ht]; rfl
  have hmatched := h.matched t c ht
  have hreferences := h.references
  have hdestroyed := h.destroyed (h.unfreed t hholds)
  have honce := h.once
  have hremoved := h.removed
  simp only [step, ht]
  cases c with
  | incrementRefCount =>
    have hnone : w.calls .destroyOwner = 0 := hmatched
    have hlive : w.handle.destroyed = false := by
      rw [hnone] at hdestroyed
      simpa using hdestroyed
    simp only [Handle.run, Handle.incrementRefCount]
    refine h.exits hholds (by simp) rfl ?_ ?_ ?_ ?_ (by simp) ?_ <;> simp only [calls_does] <;>
      simp [hnone, hlive] <;> omega
  | destroyOwner =>
    have hnone : w.calls .destroyOwner = 0 := hmatched
    simp only [Handle.run, Handle.destroyOwner]
    split
    next hzero =>
      refine h.exits hholds (by simp) rfl ?_ (by simp) ?_ ?_ (by simp) ?_ <;> simp only [calls_does] <;> simp [hnone] <;> omega
    next hsome =>
      refine h.exits hholds (by simp) rfl ?_ ?_ ?_ ?_ (by simp) ?_ <;> simp only [calls_does] <;> simp [hnone] <;> omega
  | removeReference =>
    have hless : w.calls .removeReference < w.calls .incrementRefCount := hmatched
    simp only [Handle.run, Handle.removeReference]
    split
    next hgone =>
      have hnone : w.calls .destroyOwner = 0 := by
        have := mt hdestroyed.mpr (by simp [show w.handle.destroyed = false from hgone])
        omega
      refine h.exits hholds (by simp) rfl ?_ ?_ ?_ ?_ ?_ ?_ <;>
        simp only [calls_does] <;> simp [hnone, show w.handle.destroyed = false from hgone] <;> omega
    next hgone =>
      have hone := hdestroyed.mp (by simpa using hgone)
      have hleft := (hlast rfl).resolve_left (by omega)
      rw [if_pos (by omega)]
      refine h.exits hholds (by simp) rfl ?_ (by simp) ?_ ?_ ?_ ?_ <;> simp only [calls_does] <;> simp [hone] <;> omega

theorem not_matched_of_freed (hfreed : w.frees ≠ 0) (c : Call) : ¬ Matched w c := by
  have hboth : w.calls .destroyOwner = 1 ∧ w.calls .removeReference = w.calls .incrementRefCount := by
    by_contra hnot
    exact hfreed (h.frees.trans (if_neg hnot))
  cases c with
  | destroyOwner | incrementRefCount => exact fun hzero : w.calls .destroyOwner = 0 => by omega
  | removeReference => exact fun hless : w.calls .removeReference < w.calls .incrementRefCount => by omega

theorem lock?_of_freed (hfreed : w.frees ≠ 0) (t : τ) : (w.lock.lock? t).isSome := by
  rw [Option.isSome_iff_exists, Mutex.lock?_eq_some_iff]
  intro u _
  rw [h.depth, if_neg (fun hu => hfreed (h.unfreed u hu))]

theorem step {e : Event τ} (hlawful : Lawful w e) (hlast : DropsLast w e) : Tracks (w.step e) := by
  cases e with
  | call t c =>
    simp only [World.step]
    split
    · exact h.call ‹_›
    · exact h
  | run t =>
    cases ht : w.place t with
    | outside =>
      simp only [World.step, ht]
      exact h
    | waits c =>
      simp only [World.step, ht]
      have hmatched : (w.lock.lock? t).isSome → Matched w c := fun hsome => hlawful hsome c (by rw [ht]; rfl)
      split
      next hfreed => exact absurd (hmatched (h.lock?_of_freed hfreed t)) (h.not_matched_of_freed hfreed c)
      next hlive =>
        cases hlock : w.lock.lock? t with
        | none => exact h
        | some _ => exact h.lock ht (by omega) hlock (hmatched (by rw [hlock]; rfl))
    | inside c => exact h.inside ht (fun hc => hlast (by rw [ht, hc]))
    | leaves =>
      simp only [World.step, ht]
      exact h.unlock ht

theorem right : Right w where
  live := h.live
  released t ht := by
    rw [h.depth] at ht
    by_contra hne
    rw [if_neg hne] at ht
    exact Nat.lt_irrefl 0 ht
  owner := h.owner
  frees := h.frees

theorem dropsLast {e : Event τ} (hright : Right (w.step e)) : DropsLast w e := by
  cases e with
  | call t c => trivial
  | run t =>
    intro ht
    by_contra hnot
    have hholds : (w.place t).holds := by rw [ht]; rfl
    have honce := h.once
    have hreferences := h.references
    have hgone : w.handle.destroyed := (h.destroyed (h.unfreed t hholds)).mpr (by omega)
    have hmore : w.handle.numberReferences - 1 ≠ 0 := by omega
    -- the thread is outside of the call and still has the lock
    have hstep : w.step (.run t) = (w.does { w.handle with numberReferences := w.handle.numberReferences - 1 }
        ⟨.removeReference, false⟩).moves t .outside := by
      simp only [World.step, ht, Handle.run, Handle.removeReference, hgone, Bool.true_eq_false, if_false,
        if_neg hmore, World.exits]
    have hheld := hright.released t
    rw [hstep, World.moves_place, if_pos rfl] at hheld
    have hdepth : 0 < w.lock.depth t := by rw [h.depth, if_pos hholds]; exact Nat.one_pos
    cases hheld hdepth

end Tracks

/-- In a run with matched calls, the calls release the lock, return the owner as long as it is there and free
the handle once, if and only if no removal after the destruction leaves a reference behind. -/
theorem handle_right_iff (es : List (Event τ)) (hlawful : Along step Lawful ({} : World τ) es) :
    Along step (fun w e => Right (w.step e)) {} es ↔ Along step DropsLast {} es := by
  have hboth : Along step (fun w e => Lawful w e ∧ Right (w.step e)) ({} : World τ) es ↔
      Along step (fun w e => Lawful w e ∧ DropsLast w e) {} es := by
    refine Along.congr_on (I := Tracks) tracks_init (fun w hw e _ => ?_) (fun w hw e _ hok => ?_)
    · exact and_congr_right fun hok => ⟨hw.dropsLast, fun hlast => (hw.step hok hlast).right⟩
    · exact hw.step hok.1 (hw.dropsLast hok.2)
  rw [along_and, along_and] at hboth
  exact ⟨fun h => (hboth.mp ⟨hlawful, h⟩).2, fun h => (hboth.mpr ⟨hlawful, h⟩).2⟩

def dropsInTurn : List (Event Nat) :=
  [.call 1 .incrementRefCount, .run 1, .call 2 .incrementRefCount, .run 2, .run 1, .run 1, .run 2, .run 2, .run 2,
    .call 1 .removeReference, .run 1, .run 1, .run 1, .call 0 .destroyOwner, .call 2 .removeReference,
    .run 0, .run 2, .run 0, .run 0, .run 2, .run 2]

theorem dropsInTurn_right :
    Along step Lawful {} dropsInTurn ∧ (dropsInTurn.foldl step {}).frees = 1 ∧
      Along step (fun w e => Right (w.step e)) {} dropsInTurn :=
  ⟨by decide, by decide, (handle_right_iff dropsInTurn (by decide)).mpr (by decide)⟩

def dropsAfter : List (Event Nat) :=
  [.call 1 .incrementRefCount, .run 1, .run 1, .run 1, .call 2 .incrementRefCount, .run 2, .run 2, .run 2,
    .call 0 .destroyOwner, .run 0, .run 0, .run 0, .call 1 .removeReference, .run 1, .run 1,
    .call 2 .removeReference, .run 2, .run 2]

theorem dropsAfter_not_right :
    Along step Lawful {} dropsAfter ∧
      (dropsAfter.foldl step {}).place 1 = .outside ∧ (dropsAfter.foldl step {}).lock.depth 1 = 1 ∧
      (dropsAfter.foldl step {}).place 2 = .waits .removeReference ∧
      ¬ Along step (fun w e => Right (w.step e)) {} dropsAfter := by
  refine ⟨by decide, by decide, by decide, by decide, fun h => ?_⟩
  have hright : Right (dropsAfter.foldl step {}) := h.invariant tracks_init.right (fun _ _ _ hstep => hstep)
  cases hright.released 1 (by decide)

end OpenMama.DestroyHandle
