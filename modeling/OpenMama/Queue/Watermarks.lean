import OpenMama.Lib.Run

/-!
# Watermarks of a base bridge queue

`base/queue.c` looks at the number of events before it takes one, and threads may enqueue and dequeue between two such
checks. A high watermark that was never set is 0, and the low notification waits for exactly the low watermark.
-/

namespace OpenMama.MamaQueue

open List

inductive Note where
  | high
  | low
  deriving DecidableEq

/-- The watermarks of a `mamaQueueImpl`, those of its `baseQueueBridge`, and the notifications given so far. -/
structure Marks where
  parentHigh : Nat := 0
  parentLow : Nat := 1
  highWatermark : Nat := 0
  lowWatermark : Nat := 0
  highWaterFired : Bool := false
  eventCount : Nat := 0
  notes : List Note := []

inductive Event where
  | enqueue
  | dequeue
  | setHighWatermark (n : Nat)
  | setLowWatermark (n : Nat)
  | check
  deriving DecidableEq

namespace Marks

variable (q : Marks)

def checkWatermarks : Marks :=
  if q.highWaterFired ∧ q.eventCount = q.lowWatermark then
    { q with highWaterFired := false, notes := q.notes ++ [.low] }
  else if ¬ q.highWaterFired ∧ q.highWatermark ≤ q.eventCount then
    { q with highWaterFired := true, notes := q.notes ++ [.high] }
  else q

def setHighWatermark (n : Nat) : Marks :=
  if n < q.parentLow then q
  else { q with parentHigh := n, highWatermark := if n = 0 then q.highWatermark else n }

def setLowWatermark (n : Nat) : Marks :=
  let n := if n = 0 then 1 else n
  if q.parentHigh < n then q else { q with parentLow := n, lowWatermark := n }

def step : Event → Marks
  | .enqueue => { q with eventCount := q.eventCount + 1 }
  | .dequeue => { q with eventCount := q.eventCount - 1 }
  | .setHighWatermark n => q.setHighWatermark n
  | .setLowWatermark n => q.setLowWatermark n
  | .check => q.checkWatermarks

/-- A check notifies of a high count only at a mark that was set, and after that of a low one as soon as it sees one. -/
def Right (e : Event) : Prop :=
  e = .check →
    (q.checkWatermarks.notes = q.notes ++ [.high] → 0 < q.highWatermark ∧ q.highWatermark ≤ q.eventCount)
      ∧ (q.highWaterFired → (q.checkWatermarks.notes = q.notes ++ [.low] ↔ q.eventCount ≤ q.lowWatermark))

/-- A check meets a high watermark that was set, or after a high notification a count that has not passed the low one. -/
def Meets (e : Event) : Prop :=
  e = .check → if q.highWaterFired then q.lowWatermark ≤ q.eventCount else 0 < q.highWatermark

instance (e : Event) : Decidable (q.Meets e) := inferInstanceAs (Decidable (_ → _))

def alternating : Nat → List Note
  | 0 => []
  | n + 1 => alternating n ++ [if n % 2 = 0 then .high else .low]

/-- The flag says that the last notification was a high one. -/
def Alternates : Prop := q.notes = alternating q.notes.length ∧ (q.highWaterFired ↔ q.notes.length % 2 = 1)

theorem right_iff (e : Event) : q.Right e ↔ q.Meets e := by
  refine imp_congr_right fun _ => ?_
  by_cases hfired : q.highWaterFired
  · by_cases hcount : q.eventCount = q.lowWatermark
    · simp [checkWatermarks, hfired, hcount]
    · simp [checkWatermarks, hfired, hcount]
      omega
  · by_cases hcount : q.highWatermark ≤ q.eventCount <;> simp [checkWatermarks, hfired, hcount]
    omega

variable {q}

theorem Alternates.step (h : q.Alternates) (e : Event) : (q.step e).Alternates := by
  obtain ⟨hnotes, hfired⟩ := h
  have hadd : ∀ note, note = (if q.notes.length % 2 = 0 then .high else .low) →
      q.notes ++ [note] = alternating (q.notes ++ [note]).length := by
    rintro _ rfl
    rw [length_append, length_singleton, alternating, ← hnotes]
  cases e with
  | check =>
    simp only [Marks.step, checkWatermarks]
    split_ifs with hlow hhigh
    · have hodd := hfired.mp hlow.1
      refine ⟨hadd _ (by rw [if_neg (by omega)]), ?_⟩
      simp only [length_append, length_singleton, Bool.false_eq_true, false_iff]
      omega
    · have heven := mt hfired.mpr hhigh.1
      refine ⟨hadd _ (by rw [if_pos (by omega)]), ?_⟩
      simp only [length_append, length_singleton, true_iff]
      omega
    · exact ⟨hnotes, hfired⟩
  | enqueue | dequeue => exact ⟨hnotes, hfired⟩
  | setHighWatermark n | setLowWatermark n =>
    simp only [Marks.step, Marks.setHighWatermark, Marks.setLowWatermark]
    split_ifs <;> exact ⟨hnotes, hfired⟩

end Marks

end OpenMama.MamaQueue
