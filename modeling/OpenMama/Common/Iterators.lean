import Mathlib.Data.List.Basic

/-!
# The iterators of a list

The iterators of a `wList` are linked in a chain. The loop of `list_iterator_destroy` does not move on in it, so that
it ends for the first two iterators only.
-/

namespace OpenMama.WList

open List

variable {α : Type} [DecidableEq α]

/-- The loop of `list_iterator_destroy`, which stays at the first iterator: `none` while it goes on. -/
def unlink (it : α) (iterators : List α) : Nat → Option (List α)
  | 0 => none
  | fuel + 1 =>
    match iterators with
    | [] => some []
    | cur :: rest => if rest.head? = some it then some (cur :: rest.tail) else unlink it iterators fuel

def iteratorDestroy (it : α) (iterators : List α) (fuel : Nat) : Option (List α) :=
  if iterators.head? = some it then some iterators.tail else unlink it iterators fuel

def Destroyed (it : α) (iterators : List α) : Prop :=
  ∃ fuel, iteratorDestroy it iterators fuel = some (iterators.erase it)

variable {it cur : α} {rest iterators : List α}

theorem unlink_eq_none (h : rest.head? ≠ some it) (fuel : Nat) : unlink it (cur :: rest) fuel = none := by
  induction fuel with
  | zero => rfl
  | succ _ ih => rw [unlink, if_neg h, ih]

/-- The call returns with the iterator taken out exactly if it is one of the first two. -/
theorem iteratorDestroyed_iff (it : α) (iterators : List α) (hit : it ∈ iterators) :
    Destroyed it iterators ↔ it ∈ iterators.take 2 := by
  cases iterators with
  | nil => cases hit
  | cons cur rest =>
    by_cases hcur : cur = it
    · simp [Destroyed, iteratorDestroy, hcur]
    have hdestroy (fuel : Nat) : iteratorDestroy it (cur :: rest) fuel = unlink it (cur :: rest) fuel :=
      if_neg (by simpa using hcur)
    have herase : (cur :: rest).erase it = cur :: rest.erase it := erase_cons_tail (by simpa using hcur)
    by_cases hrest : rest.head? = some it
    · obtain ⟨rest, rfl⟩ := head?_eq_some_iff.mp hrest
      refine iff_of_true ⟨1, ?_⟩ (by simp)
      rw [hdestroy, unlink, if_pos hrest, herase, erase_cons_head, tail_cons]
    · refine iff_of_false (fun h => ?_) (fun h => ?_)
      · obtain ⟨_, hfuel⟩ := h
        rw [hdestroy, unlink_eq_none hrest] at hfuel
        cases hfuel
      · cases rest <;> grind

theorem destroyed_second : Destroyed 2 [1, 2, 3] := (iteratorDestroyed_iff 2 [1, 2, 3] (by decide)).mpr (by decide)

theorem not_destroyed_third : ¬ ∃ fuel others, iteratorDestroy 3 [1, 2, 3] fuel = some others := by
  rintro ⟨fuel, _, hfuel⟩
  cases (unlink_eq_none (by decide) fuel).symm.trans hfuel

end OpenMama.WList
