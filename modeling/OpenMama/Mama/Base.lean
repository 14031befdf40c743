import Mathlib.Algebra.Group.Nat.Defs
import Mathlib.Algebra.Ring.Int.Defs
import Mathlib.Tactic.Common

/-!
# MAMA values: date-times, sources and quantities

The parts of the MAMA API that the order books read. A date-time is the record of `datetimeimpl.h`; its comparison
orders two instants of the same second only by whether they are equal. A source is one node of the source tree with
the chain of its parents; the address stands for the object.
-/

namespace OpenMama

/-- `mamaDateTime`: seconds since the epoch, nanoseconds, and the hint and precision bytes. -/
structure DateTime where
  seconds : Int := 0
  nanoseconds : Nat := 0
  precision : Nat := 0
  hints : Nat := 0
deriving DecidableEq

namespace DateTime

/-- `mamaDateTime_empty`: the comma expression keeps only its last operand, the hints. -/
def empty (t : DateTime) : Bool := t.hints == 0

def equal (l r : DateTime) : Bool := l.seconds == r.seconds && l.nanoseconds == r.nanoseconds

def compare (l r : DateTime) : Int :=
  if l.seconds > r.seconds then 1
  else if l.equal r then 0
  else -1

end DateTime

inductive SourceState where
  | off
  | ok
  | unknown
deriving DecidableEq

/-- `MamaSource`: the address of the object, the state of its own, and its parent if it has one. -/
inductive Source where
  | root (address : Nat) (state : SourceState)
  | child (address : Nat) (state : SourceState) (parent : Source)
deriving DecidableEq

namespace Source

def address : Source → Nat
  | root a _ => a
  | child a _ _ => a

def getState : Source → SourceState
  | root _ st => st
  | child _ st parent => if st = .unknown then parent.getState else st

/-- `MamaSource::isPartOf`, by the addresses on the way to the root. -/
def isPartOf (source : Nat) : Source → Bool
  | root a _ => a == source
  | child a _ parent => a == source || parent.isPartOf source

end Source

/-- `MamaSourceDerivative`: a base source and a state that overrides the base's when it is known. -/
structure SourceDerivative where
  baseSource : Source
  state : SourceState
deriving DecidableEq

def SourceDerivative.getState (d : SourceDerivative) : SourceState :=
  if d.state ≠ .unknown then d.state else d.baseSource.getState

/-- `mama_isQuantityNone` is `q < 0.00000000001`; on exact integers that is `q ≤ 0`. -/
def isQuantityNone (q : Int) : Bool := decide (q ≤ 0)

def clampQuantity (q : Int) : Int := if isQuantityNone q then 0 else q

@[simp] theorem clampQuantity_of_nonneg {q : Int} (h : 0 ≤ q) : clampQuantity q = q := by
  simp only [clampQuantity, isQuantityNone, decide_eq_true_eq]
  split <;> omega

end OpenMama
