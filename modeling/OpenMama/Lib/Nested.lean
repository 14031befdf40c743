import OpenMama.Lib.Cursor

/-!
# Iterators over the elements of what another iterator shows

The outer iterator stands at a container, the inner one at an element of it. At the end of a container
the outer iterator goes on to the next one that has an element. The end is known by the outer iterator.
-/

namespace OpenMama

open List

/-- A cursor over lists, and one in the list that it is at. -/
structure Nested (α β : Type) where
  outer : Cursor α
  inner : Cursor β

namespace Nested

variable {α β : Type} (shown : α → Bool) (start : α → Cursor β) (shownInner : β → Bool)

def hasElements (a : α) : Bool := !(start a).ahead.isEmpty

/-- The iterator at the first element of the container the outer iterator stands at; without one, the inner iterator
stays. -/
def enter (outer : Cursor α) (inner : Cursor β) : Nested α β :=
  match outer.get? with
  | some a => ⟨outer, start a⟩
  | none => ⟨outer, inner⟩

def first (outer : Cursor α) : Nested α β :=
  enter start (outer.seek shown (hasElements start)) ⟨[], []⟩

def atEnd (c : Nested α β) : Bool := c.outer.ahead.isEmpty

def next (c : Nested α β) : Nested α β :=
  let inner := c.inner.next shownInner
  if inner.ahead.isEmpty then
    enter start ((c.outer.next shown).seek shown (hasElements start)) inner
  else ⟨c.outer, inner⟩

/-- What the loop `for (; it != end; ++it)` meets, unless it takes more than `n` passes. -/
def visit : Nat → Nested α β → Option (List β)
  | 0, c => if c.atEnd then some [] else none
  | n + 1, c =>
    if c.atEnd then some []
    else c.inner.get?.bind fun b => (visit n (c.next shown start shownInner)).map (b :: ·)

def elements (a : α) : List β := (start a).ahead.filter shownInner

def rest (c : Nested α β) : List β :=
  match c.outer.ahead with
  | [] => []
  | _ :: ahead => c.inner.ahead.filter shownInner ++ (ahead.filter shown).flatMap (elements start shownInner)

variable {shown start shownInner}

/-- The iterator stands at the end, or at an element that is shown of a container that is shown. -/
structure Settled (shown : α → Bool) (shownInner : β → Bool) (c : Nested α β) : Prop where
  outer : c.outer.Settled shown
  inner : c.outer.ahead ≠ [] → c.inner.ahead ≠ [] ∧ c.inner.Settled shownInner

theorem flatMap_elements (l : List α) :
    (l.filter (hasElements start)).flatMap (elements start shownInner)
      = l.flatMap (elements start shownInner) := by
  induction l with
  | nil => rfl
  | cons a l ih =>
    by_cases ha : hasElements start a
    · rw [filter_cons_of_pos ha, flatMap_cons, flatMap_cons, ih]
    · have hempty : (start a).ahead = [] := by simpa [hasElements] using ha
      have hnone : elements start shownInner a = [] := by rw [elements, hempty]; rfl
      rw [filter_cons_of_neg ha, flatMap_cons, hnone, ih, nil_append]

section

variable (hstart : ∀ a, (start a).Settled shownInner)
include hstart

theorem enter_seek {outer : Cursor α} (houter : outer.Settled shown) (inner : Cursor β) :
    (enter start (outer.seek shown (hasElements start)) inner).Settled shown shownInner
      ∧ (enter start (outer.seek shown (hasElements start)) inner).rest shown start shownInner
        = (outer.ahead.filter shown).flatMap (elements start shownInner) := by
  obtain ⟨hsettled, hwanted, hfilter⟩ := houter.seekWithin_eq (hasElements start) (Nat.le_refl _)
  rw [← flatMap_elements, ← hfilter]
  change (enter start (outer.seekWithin shown (hasElements start) outer.ahead.length) inner).Settled _ _
    ∧ (enter start (outer.seekWithin shown (hasElements start) outer.ahead.length) inner).rest _ _ _ = _
  generalize outer.seekWithin shown (hasElements start) outer.ahead.length = found at *
  cases hahead : found.ahead with
  | nil =>
    have hget : found.get? = none := by rw [Cursor.get?, hahead]; rfl
    simp only [enter, hget]
    exact ⟨⟨hsettled, (absurd hahead)⟩, by simp [rest, hahead]⟩
  | cons a _ =>
    have hget : found.get? = some a := by rw [Cursor.get?, hahead]; rfl
    have hshown : shown a := hsettled a hget
    have hwant := hwanted a hget
    simp only [enter, hget]
    refine ⟨⟨hsettled, fun _ => ⟨by simpa [hasElements] using hwant, hstart a⟩⟩, ?_⟩
    rw [filter_cons_of_pos hshown, filter_cons_of_pos hwant, flatMap_cons, flatMap_elements]
    simp only [rest, hahead]
    rfl

theorem Settled.next {c : Nested α β} (hc : c.Settled shown shownInner) (hend : c.atEnd = false) :
    ∃ b, c.inner.get? = some b
      ∧ (c.next shown start shownInner).Settled shown shownInner
      ∧ c.rest shown start shownInner
        = b :: (c.next shown start shownInner).rest shown start shownInner := by
  obtain ⟨a, ahead, houter⟩ : ∃ a ahead, c.outer.ahead = a :: ahead :=
    exists_cons_of_ne_nil (by simpa [atEnd] using hend)
  obtain ⟨hne, hinner⟩ := hc.inner (by simp [houter])
  obtain ⟨b, _, hahead⟩ := exists_cons_of_ne_nil hne
  obtain ⟨hinner', hfilter, -⟩ := hinner.next hahead
  obtain ⟨houter', hofilter, -⟩ := hc.outer.next houter
  have hahead' : ahead.filter shown = (c.outer.next shown).ahead.filter shown := by
    have hcons := hofilter
    rw [houter, filter_cons_of_pos (hc.outer a (by rw [Cursor.get?, houter]; rfl))] at hcons
    exact (List.cons.inj hcons).2
  refine ⟨b, by rw [Cursor.get?, hahead]; rfl, ?_⟩
  unfold Nested.next
  by_cases hempty : (c.inner.next shownInner).ahead.isEmpty
  · rw [if_pos hempty]
    obtain ⟨hsettled, hrest⟩ := enter_seek hstart houter' (c.inner.next shownInner)
    refine ⟨hsettled, ?_⟩
    rw [hrest, ← hahead']
    simp only [rest, houter]
    rw [hfilter, List.isEmpty_iff.mp hempty]
    rfl
  · rw [if_neg hempty]
    refine ⟨⟨hc.outer, fun _ => ⟨by simpa using hempty, hinner'⟩⟩, ?_⟩
    simp only [rest, houter]
    rw [hfilter]
    rfl

end

theorem rest_of_atEnd {c : Nested α β} (hend : c.atEnd) : c.rest shown start shownInner = [] := by
  simp only [rest, List.isEmpty_iff.mp hend]

theorem Settled.visit_eq (hstart : ∀ a, (start a).Settled shownInner) {c : Nested α β}
    (hc : c.Settled shown shownInner) {n : Nat} (hn : (c.rest shown start shownInner).length ≤ n) :
    c.visit shown start shownInner n = some (c.rest shown start shownInner) := by
  induction n generalizing c with
  | zero =>
    by_cases hend : c.atEnd
    · rw [visit, if_pos hend, rest_of_atEnd hend]
    · obtain ⟨b, -, -, hrest⟩ := hc.next hstart (Bool.not_eq_true _ ▸ hend)
      rw [hrest] at hn
      cases hn
  | succ n ih =>
    by_cases hend : c.atEnd
    · rw [visit, if_pos hend, rest_of_atEnd hend]
    · obtain ⟨b, hget, hnext, hrest⟩ := hc.next hstart (Bool.not_eq_true _ ▸ hend)
      rw [hrest, length_cons] at hn
      rw [visit, if_neg hend, hrest, hget, Option.bind_some, ih hnext (by omega), Option.map_some]

end Nested
end OpenMama
