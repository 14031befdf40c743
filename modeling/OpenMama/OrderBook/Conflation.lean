import OpenMama.OrderBook.DeltaList
import OpenMama.Lib.Run
import Mathlib.Order.Nat

/-!
# What conflation keeps

A level is absent, or it has a size. The delta that a conflating list stores for a price should do at once what the
deltas of the interval did. A deletion that meets a stored delta marks it as a deletion and leaves its size, which then
is wrong by the size that was deleted.
-/

namespace OpenMama.OrderBook

open List

variable {P : Type} [LinearOrder P]

theorem Sided.get?_set {α : Type} (m : Sided P α) (isBid isBid' : Bool) (price price' : P) (a : Option α) :
    (m.set isBid price a).get? isBid' price' = if isBid = isBid' ∧ price = price' then a else m.get? isBid' price' := by
  cases isBid <;> cases isBid' <;> cases a <;> simp [get?, set, eq_comm]

namespace BasicDelta

variable (level : Option Int)

/-- The size of a level after a delta, `none` if the level is absent. -/
def levelAfter (d : BasicDelta) : Option Int :=
  match d.plAction with
  | .add => some d.plDeltaSize
  | .update => level.map (· + d.plDeltaSize)
  | .delete => none
  | .unknown => level

def Applies (d : BasicDelta) : Prop :=
  match d.plAction with
  | .add => level = none
  | .update | .delete => level.isSome
  | .unknown => False

/-- The delta applies, and a deletion takes the whole size away. -/
def IsValid (d : BasicDelta) : Prop :=
  d.Applies level ∧ (d.plAction = .delete → d.plDeltaSize = -level.getD 0)

instance (level : Option Int) (d : BasicDelta) : Decidable (d.IsValid level) := by
  unfold IsValid Applies
  split <;> infer_instance

end BasicDelta

open BasicDelta DeltaList

/-- The stored delta, if there is one, does to the level what the deltas did. -/
structure Conflated (level : Option Int) (deltas : List BasicDelta) (stored : Option BasicDelta) : Prop where
  applies : ∀ d ∈ stored, d.Applies level
  presence : (stored.elim level (levelAfter level)).isSome = (deltas.foldl levelAfter level).isSome
  size : stored.elim 0 (·.plDeltaSize) = (deltas.foldl levelAfter level).getD 0 - level.getD 0

def deleted (deltas : List BasicDelta) : Int :=
  ((deltas.filter fun d => d.plAction = .delete).map (·.plDeltaSize)).sum

variable {d : BasicDelta} {level : Option Int} {deltas : List BasicDelta}

def Arrived (level : Option Int) : Option BasicDelta → Prop
  | none => level = none
  | some d => d.plAction = .add ∧ level = some d.plDeltaSize

theorem Arrived.foldl {stored : Option BasicDelta} (h : Arrived level stored) (hvalid : Along levelAfter IsValid level deltas) :
    Arrived (deltas.foldl levelAfter level) (deltas.foldl conflateLevel stored) := by
  induction deltas generalizing level stored with
  | nil => exact h
  | cons d _ ih =>
    refine ih ?_ hvalid.2
    have happlies := hvalid.1.1
    cases stored with
    | none | some old => cases hd : d.plAction <;> simp_all [Applies, levelAfter, conflateLevel, Arrived]

theorem Arrived.conflated {stored : Option BasicDelta} (h : Arrived (deltas.foldl levelAfter none) stored) :
    Conflated none deltas stored := by
  cases stored with
  | none => exact ⟨nofun, by rw [h]; rfl, by rw [h]; rfl⟩
  | some d =>
    constructor
    · rintro _ ⟨⟩
      simp [Applies, h.1]
    · simp [levelAfter, h.1, h.2]
    · simp [h.2]

def Stands (level : Option Int) (d : BasicDelta) : Prop :=
  d.plAction = .update ∧ level.isSome ∨ d.plAction = .delete ∧ level = none

theorem Stands.foldl (h : Stands level d) (hvalid : Along levelAfter IsValid level deltas) :
    ∃ d', deltas.foldl conflateLevel (some d) = some d' ∧ Stands (deltas.foldl levelAfter level) d' ∧
      d'.plDeltaSize + deleted deltas = d.plDeltaSize + (deltas.foldl levelAfter level).getD 0 - level.getD 0 := by
  induction deltas generalizing level d with
  | nil => exact ⟨d, rfl, h, by simp [deleted]⟩
  | cons x deltas ih =>
    obtain ⟨⟨happlies, hdelete⟩, hrest⟩ := hvalid
    simp only [foldl_cons]
    have hstep : ∃ d₁, conflateLevel (some d) x = some d₁ ∧ Stands (levelAfter level x) d₁ ∧
        d₁.plDeltaSize + deleted [x] = d.plDeltaSize + (levelAfter level x).getD 0 - level.getD 0 := by
      rcases h with ⟨hd, hsome⟩ | ⟨hd, rfl⟩
      · obtain ⟨size, rfl⟩ := Option.isSome_iff_exists.mp hsome
        cases hx : x.plAction <;> simp_all [Applies, levelAfter, conflateLevel, Stands, deleted] <;> omega
      · cases hx : x.plAction <;> simp_all [Applies, levelAfter, conflateLevel, Stands, deleted]
    obtain ⟨d₁, hd₁, hstands, hsize⟩ := hstep
    obtain ⟨d', hd', hstands', hsize'⟩ := ih hstands hrest
    refine ⟨d', by rw [hd₁, hd'], hstands', ?_⟩
    have hdeleted : deleted (x :: deltas) = deleted [x] + deleted deltas := by
      simp only [deleted, filter_cons]
      split <;> simp
    omega

theorem Stands.conflated_iff (deltas : List BasicDelta) {size : Int} (h : Stands (deltas.foldl levelAfter (some size)) d) :
    Conflated (some size) deltas (some d) ↔
      d.plDeltaSize = (deltas.foldl levelAfter (some size)).getD 0 - size := by
  refine ⟨Conflated.size, fun hsize => ⟨?_, ?_, hsize⟩⟩
  · rcases h with ⟨hd, -⟩ | ⟨hd, -⟩ <;> simp [Applies, hd]
  · rcases h with ⟨hd, hsome⟩ | ⟨hd, hnone⟩
    · simpa [levelAfter, hd] using hsome.symm
    · simp [levelAfter, hd, hnone]

def DeltaList.stored (c : DeltaList P) (isBid : Bool) (price : P) : Option BasicDelta :=
  (c.levelDeltas.getD {}).get? isBid price

def feed (c : DeltaList P) (fed : List (Bool × P × BasicDelta)) : DeltaList P :=
  fed.foldl (fun c x => c.add x.1 x.2.1 x.2.2) c

def deltasAt (isBid : Bool) (price : P) (fed : List (Bool × P × BasicDelta)) : List BasicDelta :=
  (fed.filter fun x => x.1 = isBid ∧ x.2.1 = price).map (·.2.2)

theorem stored_feed {c : DeltaList P} (hkeep : c.keepDeltas) (hconflate : c.conflateDeltas)
    (hlevels : c.processEntries = false) (fed : List (Bool × P × BasicDelta)) (isBid : Bool) (price : P) :
    (feed c fed).stored isBid price = (deltasAt isBid price fed).foldl conflateLevel (c.stored isBid price) := by
  induction fed generalizing c with
  | nil => rfl
  | cons x _ ih =>
    obtain ⟨bid, p, d⟩ := x
    have hadd : c.add bid p d = c.conflateLevelDeltas bid p d := by simp [DeltaList.add, hkeep, hconflate, hlevels]
    have hget : (c.conflateLevelDeltas bid p d).stored isBid price =
        if bid = isBid ∧ p = price then conflateLevel (c.stored isBid price) d else c.stored isBid price := by
      simp only [DeltaList.stored, conflateLevelDeltas, Option.getD_some, Sided.get?_set]
      split
      next h => rw [h.1, h.2]
      · rfl
    have hrest := ih (c := c.conflateLevelDeltas bid p d) hkeep hconflate hlevels
    rw [hget] at hrest
    rw [feed, foldl_cons, hadd]
    apply hrest.trans
    by_cases h : bid = isBid ∧ p = price
    · rw [if_pos h, deltasAt, deltasAt, filter_cons_of_pos (by simpa using h)]
      rfl
    · rw [if_neg h, deltasAt, deltasAt, filter_cons_of_neg (by simpa using h)]

def levelList : DeltaList P := { conflateDeltas := true, processEntries := false }

/-- The stored delta does what the deltas did if and only if the level was absent, or the deletions after the first
delta took nothing away in total. -/
theorem conflated_stored_iff (fed : List (Bool × P × BasicDelta)) (isBid : Bool) (price : P) (level : Option Int)
    (hvalid : Along levelAfter IsValid level (deltasAt isBid price fed)) :
    Conflated level (deltasAt isBid price fed)
        ((feed levelList fed).stored isBid price) ↔ level = none ∨ deleted (deltasAt isBid price fed).tail = 0 := by
  have hnone : levelList.stored isBid price = none := by cases isBid <;> rfl
  rw [stored_feed rfl rfl rfl, hnone]
  generalize deltasAt isBid price fed = deltas at *
  cases level with
  | none => exact iff_of_true (Arrived.conflated (Arrived.foldl rfl hvalid)) (.inl rfl)
  | some size =>
    rw [or_iff_right nofun]
    cases deltas with
    | nil => exact iff_of_true ⟨nofun, rfl, by simp⟩ rfl
    | cons d deltas =>
      obtain ⟨⟨happlies, hdelete⟩, hrest⟩ := hvalid
      have hfirst : Stands (levelAfter (some size) d) d ∧ d.plDeltaSize = (levelAfter (some size) d).getD 0 - size := by
        cases hd : d.plAction <;> grind [Applies, levelAfter, Stands]
      obtain ⟨d', hd', hstands, hsize⟩ := hfirst.1.foldl hrest
      rw [foldl_cons, conflateLevel, hd', Stands.conflated_iff (d :: deltas) hstands, foldl_cons, tail_cons]
      omega

def thenDeleted (d : BasicDelta) (size : Int) : List (Bool × Nat × BasicDelta) :=
  [(true, 1, d), (true, 1, { plAction := .delete, plDeltaSize := -size })]

theorem conflated_stored_added :
    let fed := thenDeleted { plAction := .add, plDeltaSize := 5 } 5
    Conflated none (deltasAt true 1 fed) ((feed levelList fed).stored true 1) :=
  (conflated_stored_iff (thenDeleted { plAction := .add, plDeltaSize := 5 } 5) true 1 none (by decide)).mpr (.inl rfl)

theorem not_conflated_stored_updated :
    let fed := thenDeleted { plAction := .update, plDeltaSize := 2 } 7
    ¬ Conflated (some 5) (deltasAt true 1 fed) ((feed levelList fed).stored true 1) :=
  fun h => nomatch h.size

end OpenMama.OrderBook
