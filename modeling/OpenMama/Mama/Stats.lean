import Mathlib.Algebra.Group.Nat.Defs
import Mathlib.Algebra.Ring.Int.Defs
import OpenMama.Lib.Run

/-!
# Statistics

`stat.c`: a statistic counts changes over an interval and in total. Its unsigned maximum is compared with the signed
interval value after conversion, so an interval value below 0 counts as a very large one.
-/

namespace OpenMama

/-- `mamaStatImpl`, with what its poll callback answers if it has one. -/
structure Stat where
  intervalValue : Int := 0
  maxValue : Int := 0
  totalValue : Int := 0
  poll : Option Int := none
  deriving DecidableEq

namespace Stat

variable (s : Stat) (value : Int)

/-- `if (mIntervalValue > mMaxValue) mMaxValue = mIntervalValue`: both sides are unsigned. -/
def keepMax : Stat := { s with maxValue := max s.maxValue (s.intervalValue % 2 ^ 32) }

def add : Stat :=
  let s := { s with intervalValue := (s.intervalValue + value).bmod (2 ^ 32) }.keepMax
  { s with totalValue := (s.totalValue + value) % 2 ^ 32 }

def subtract : Stat :=
  { s with
    intervalValue := (s.intervalValue - value).bmod (2 ^ 32)
    totalValue := (s.totalValue - value) % 2 ^ 32 }

def increment : Stat := s.add 1

def decrement : Stat := s.subtract 1

def reset : Stat := { s with intervalValue := 0 }

def getStats : Stat × Int × Int × Int :=
  let s := match s.poll with
    | some v => { s with intervalValue := v }.keepMax
    | none => s
  (s, s.intervalValue, s.maxValue, s.totalValue)

inductive Op where
  | increment
  | decrement
  | add (value : Int)
  | subtract (value : Int)
  | reset
  | getStats
  deriving DecidableEq

def step : Op → Stat
  | .increment => s.increment
  | .decrement => s.decrement
  | .add value => s.add value
  | .subtract value => s.subtract value
  | .reset => s.reset
  | .getStats => s.getStats.1

namespace Op

def change : Op → Int
  | increment => 1
  | decrement => -1
  | add value => value
  | subtract value => -value
  | _ => 0

def raises : Op → Bool
  | increment | add _ => true
  | _ => false

end Op

/-- What is counted: the changes since the last reset, all changes, and the greatest interval value that an increment
or an addition reached. -/
structure Tally where
  interval : Int := 0
  total : Int := 0
  peak : Int := 0

namespace Tally

def step (t : Tally) (op : Op) : Tally :=
  { interval := if op = .reset then 0 else t.interval + op.change
    total := t.total + op.change
    peak := if op.raises then max t.peak (t.interval + op.change) else t.peak }

/-- The sums are signed numbers of 32 bits. -/
abbrev Fits (t : Tally) : Prop := (-2 ^ 31 ≤ t.interval ∧ t.interval < 2 ^ 31) ∧ -2 ^ 31 ≤ t.total ∧ t.total < 2 ^ 31

/-- An increment or an addition does not leave the interval value below 0. -/
abbrev Rises (t : Tally) (op : Op) : Prop := op.raises → 0 ≤ t.interval + op.change

end Tally

structure Counts (s : Stat) (t : Tally) : Prop where
  poll : s.poll = none
  interval : s.intervalValue = t.interval
  total : s.totalValue = t.total % 2 ^ 32
  fits : t.Fits
  peak : 0 ≤ t.peak ∧ t.peak < 2 ^ 31

variable {s : Stat} {t : Tally}

theorem Counts.step (h : Counts s t) {op : Op} (hfits : (t.step op).Fits) :
    Counts (s.step op) (t.step op) ∧ (2 ^ 31 ≤ s.maxValue → 2 ^ 31 ≤ (s.step op).maxValue)
      ∧ (s.maxValue = t.peak → t.Rises op ∧ (s.step op).maxValue = (t.step op).peak
        ∨ ¬ t.Rises op ∧ 2 ^ 31 ≤ (s.step op).maxValue) := by
  obtain ⟨_, _, _, _⟩ := s
  obtain ⟨rfl, rfl, rfl, hnow, hpeak⟩ := h
  cases op <;>
    simp only [Tally.Fits, Tally.step, Tally.Rises, Op.change, Op.raises, reduceCtorEq, if_true, if_false,
      Bool.false_eq_true, forall_const, IsEmpty.forall_iff, true_and, not_true, false_and, or_false, Stat.step,
      increment, decrement, Stat.add, Stat.subtract, Stat.reset, Stat.getStats, keepMax, Int.bmod] at hnow hfits ⊢ <;>
    refine ⟨⟨rfl, ?_, ?_, hfits, ?_⟩, ?_, ?_⟩ <;> (try dsimp only) <;> omega

theorem Counts.foldl_step (h : Counts s t) {ops : List Op}
    (hfits : Along Tally.step (fun t op => (t.step op).Fits) t ops) :
    Counts (ops.foldl Stat.step s) (ops.foldl Tally.step t)
      ∧ (2 ^ 31 ≤ s.maxValue → 2 ^ 31 ≤ (ops.foldl Stat.step s).maxValue)
      ∧ (s.maxValue = t.peak →
        ((ops.foldl Stat.step s).maxValue = (ops.foldl Tally.step t).peak ↔ Along Tally.step Tally.Rises t ops)) := by
  induction ops generalizing s t with
  | nil => exact ⟨h, id, fun hmax => iff_of_true hmax trivial⟩
  | cons _ _ ih =>
    obtain ⟨hstep, hlarge, hmax⟩ := h.step hfits.1
    obtain ⟨hrun, hlarge', hmax'⟩ := ih hstep hfits.2
    refine ⟨hrun, fun h => hlarge' (hlarge h), fun h => ?_⟩
    obtain ⟨hrises, heq⟩ | ⟨hnot, hbig⟩ := hmax h
    · exact (hmax' heq).trans (and_iff_right hrises).symm
    · have hpeak := hrun.peak.2
      refine iff_of_false (fun heq => ?_) fun hall => hnot hall.1
      rw [List.foldl_cons, List.foldl_cons] at heq
      omega

/-- The statistics are the changes since the last reset and all changes, and the maximum is the peak exactly if every
increment and addition rises. -/
theorem measured_iff {ops : List Op} (hfits : Along Tally.step (fun t op => (t.step op).Fits) {} ops) :
    let s := ops.foldl step {}
    let t := ops.foldl Tally.step {}
    s.getStats = (s, t.interval, s.maxValue, t.total % 2 ^ 32)
      ∧ (s.maxValue = t.peak ↔ Along Tally.step Tally.Rises {} ops) := by
  obtain ⟨h, -, hmax⟩ := (⟨rfl, rfl, rfl, by decide, by decide⟩ : Counts {} {}).foldl_step hfits
  refine ⟨?_, hmax rfl⟩
  simp only [getStats, h.poll, h.interval, h.total]

theorem counted_mixed :
    let s := [.increment, .add 4, .decrement, .reset, .increment].foldl step {}
    s.getStats = (s, 1, s.maxValue, 5) ∧ s.maxValue = 5 :=
  have h := @measured_iff [.increment, .add 4, .decrement, .reset, .increment] (by decide)
  ⟨h.1, h.2.mpr (by decide)⟩

theorem not_counted_negative :
    let ops := [.decrement, .decrement, .increment]
    (ops.foldl step {}).maxValue = 2 ^ 32 - 1 ∧ (ops.foldl Tally.step {}).peak = 0 := by decide

end Stat

end OpenMama
