import Mathlib.Tactic.Common

/-!
# Destroying a queue that has open objects

`mamaQueue_destroyWait` and `mamaQueue_destroyTimedWait` dispatch until the objects on the queue are closed. What a
dispatch of 10 milliseconds returns, and how many objects it leaves open, is given from outside. The second one answers
that the queue was destroyed when its time is over.
-/

namespace OpenMama.MamaQueue

inductive Status where
  | ok
  | openObjects
  | other (code : Nat)
  deriving DecidableEq

/-- `mamaQueueImpl`: its open objects, how often it was freed, and whether a call met it after that. -/
structure Handle where
  openObjects : Int
  frees : Nat := 0
  stale : Bool := false
  deriving DecidableEq

variable (q : Handle) (timeout : Option Int)

def timedDispatch (d : Status × Int) : Handle × Status :=
  ({ q with openObjects := d.2, stale := q.stale || q.frees ≠ 0 }, d.1)

def destroy : Handle × Status :=
  let q := { q with stale := q.stale || q.frees ≠ 0 }
  if q.openObjects = 0 then ({ q with frees := q.frees + 1 }, .ok) else (q, .openObjects)

/-- The loops of both functions, over what the dispatches do: `none` is a loop that still waits. -/
def waitLoop (currentTime : Int) : Handle × Status → List (Status × Int) → Option (Handle × Status × Int)
  | (q, ret), ds =>
    if ret = .openObjects ∧ timeout.all (currentTime < ·) then
      match ds with
      | [] => none
      | d :: ds =>
        let (q, ret) := timedDispatch q d
        if ret = .ok then waitLoop (currentTime + 10) (destroy q) ds else waitLoop currentTime (q, ret) ds
    else some (q, ret, currentTime)

def destroyWait (ds : List (Status × Int)) : Option (Handle × Status) :=
  (waitLoop none 0 (destroy q) ds).map fun (q, ret, _) => (q, ret)

def destroyTimedWait (timeout : Int) (ds : List (Status × Int)) : Option (Handle × Status) :=
  if 0 < timeout then
    (waitLoop (some timeout) 0 (destroy q) ds).map fun (q, ret, currentTime) =>
      (q, if ret ≠ .ok ∧ timeout ≤ currentTime then .ok else ret)
  else some (q, .other 0)

def runsOut (left : Int) : List (Status × Int) → Bool
  | [] => false
  | (.ok, n) :: ds => n ≠ 0 ∧ (left ≤ 10 ∨ runsOut (left - 10) ds)
  | (.openObjects, _) :: ds => runsOut left ds
  | (.other _, _) :: _ => false

structure Tells (q : Handle) (ret : Status) : Prop where
  stale : q.stale = false
  frees : q.frees = if ret = .ok then 1 else 0

variable {q timeout} {r : Handle × Status × Int} {n t : Int} {ds : List (Status × Int)}

theorem destroy_eq : destroy { openObjects := n } =
    if n = 0 then ({ openObjects := n, frees := 1 }, .ok) else ({ openObjects := n }, .openObjects) := rfl

theorem waitLoop_stop {ret : Status} (h : ¬ (ret = .openObjects ∧ timeout.all (t < ·))) :
    waitLoop timeout t (q, ret) ds = some (q, ret, t) := by
  unfold waitLoop
  exact if_neg h

theorem waitLoop_spec (h : waitLoop timeout t ({ openObjects := n }, .openObjects) ds = some r) :
    Tells r.1 r.2.1 ∧ ∀ T, timeout = some T → t < T → (r.2.1 ≠ .ok ∧ T ≤ r.2.2 ↔ runsOut (T - t) ds) := by
  induction ds generalizing n t with
  | nil =>
    unfold waitLoop at h
    split at h
    · cases h
    next hstop =>
      cases h
      refine ⟨⟨rfl, rfl⟩, fun T hT ht => absurd ⟨rfl, ?_⟩ hstop⟩
      simpa [hT] using ht
  | cons d ds ih =>
    by_cases hwait : timeout.all (t < ·) = true
    · rw [waitLoop, if_pos ⟨rfl, hwait⟩] at h
      obtain ⟨_ | _ | code, m⟩ := d
      · change waitLoop timeout (t + 10) (destroy { openObjects := m }) ds = some r at h
        rw [destroy_eq] at h
        by_cases hm : m = 0
        · rw [if_pos hm, waitLoop_stop (by simp)] at h
          cases h
          exact ⟨⟨rfl, rfl⟩, by simp [runsOut, hm]⟩
        · rw [if_neg hm] at h
          refine ⟨(ih h).1, fun T hT ht => ?_⟩
          by_cases hover : T ≤ t + 10
          · rw [waitLoop_stop (by simp [hT]; omega)] at h
            cases h
            simp [runsOut, hm, hover]
            omega
          · rw [(ih h).2 T hT (by omega)]
            simp [runsOut, hm, Int.sub_sub]
            omega
      · exact ih h
      · change waitLoop timeout t ({ openObjects := m }, .other code) ds = some r at h
        rw [waitLoop_stop (by simp)] at h
        cases h
        exact ⟨⟨rfl, rfl⟩, fun T hT ht => by simp [runsOut]; omega⟩
    · rw [waitLoop_stop (fun hboth => hwait hboth.2)] at h
      cases h
      refine ⟨⟨rfl, rfl⟩, fun T hT ht => absurd ?_ hwait⟩
      simpa [hT] using ht

theorem waitLoop_isSome {T : Int} {s : Handle × Status} (hds : ∀ d ∈ ds, d.1 ≠ .openObjects)
    (hlength : T ≤ t + 10 * ds.length) : (waitLoop (some T) t s ds).isSome := by
  induction ds generalizing t s with
  | nil =>
    rw [waitLoop_stop (by simp at hlength ⊢; omega)]
    rfl
  | cons d ds ih =>
    rw [List.forall_mem_cons] at hds
    rw [List.length_cons] at hlength
    rw [waitLoop]
    split_ifs
    · dsimp only
      split_ifs
      · exact ih hds.2 (by omega)
      · rw [timedDispatch, waitLoop_stop fun hboth => hds.1 hboth.1]
        rfl
    · rfl

/-- Both calls tell whether the queue was destroyed, but for a `destroyTimedWait` whose time is over. -/
theorem destroyWaits_iff (n : Int) (ds : List (Status × Int)) {timeout : Int} (htimeout : 0 < timeout) :
    (∀ s ∈ destroyWait { openObjects := n } ds, Tells s.1 s.2)
      ∧ (∀ s ∈ destroyTimedWait { openObjects := n } timeout ds, s.1.stale = false ∧ s.1.frees ≤ 1
        ∧ (Tells s.1 s.2 ↔ n = 0 ∨ runsOut timeout ds = false))
      ∧ ((∀ d ∈ ds, d.1 ≠ .openObjects) → timeout ≤ 10 * ds.length →
        (destroyTimedWait { openObjects := n } timeout ds).isSome) := by
  simp only [destroyWait, destroyTimedWait, destroy_eq, if_pos htimeout, Option.mem_def, Option.map_eq_some_iff,
    Option.isSome_map]
  refine ⟨?_, ?_, fun hds hlength => waitLoop_isSome hds (by omega)⟩
  · rintro _ ⟨r, hr, rfl⟩
    split at hr
    · rw [waitLoop_stop (by simp)] at hr
      cases hr
      exact ⟨rfl, rfl⟩
    · exact (waitLoop_spec hr).1
  · rintro _ ⟨r, hr, rfl⟩
    split at hr
    next hn =>
      rw [waitLoop_stop (by simp)] at hr
      cases hr
      exact ⟨rfl, Nat.le_refl 1, iff_of_true ⟨rfl, rfl⟩ (.inl hn)⟩
    next hn =>
      obtain ⟨htells, hout⟩ := waitLoop_spec hr
      have hout := hout timeout rfl htimeout
      rw [Int.sub_zero] at hout
      refine ⟨htells.stale, by rw [htells.frees]; split <;> simp, ?_⟩
      rw [or_iff_right hn, ← Bool.not_eq_true, ← hout]
      dsimp only
      split
      next hover =>
        refine iff_of_false (fun h => ?_) (not_not.mpr hover)
        have hfrees := h.frees
        simp [htells.frees, hover.1] at hfrees
      next hin => exact iff_of_true htells hin

theorem destroyWaits_second :
    ∃ s ∈ destroyTimedWait { openObjects := 2 } 100 [(.ok, 1), (.ok, 0)], Tells s.1 s.2 :=
  ⟨_, rfl, ((destroyWaits_iff 2 [(.ok, 1), (.ok, 0)] (show (0 : Int) < 100 by decide)).2.1 _ rfl).2.2.mpr
    (by decide)⟩

theorem not_destroyWaits_timeOver :
    destroyTimedWait { openObjects := 1 } 10 [(.ok, 1)] = some ({ openObjects := 1 }, .ok) := by decide

end OpenMama.MamaQueue
