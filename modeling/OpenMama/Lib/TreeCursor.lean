import Mathlib.Tactic.Common

/-!
# Trees with one cursor

A forest of nodes and one place in it: on a node, or before the first child of a node that was entered. `put` writes
the node after the cursor, over the one that is there, whose children are lost, or as a new one at the end. Moving
does not change the forest (`roots`), and what is done inside of a node changes nothing outside of it
(`exit_of_level`). A loop `while (next ()) …` is `eachNext`.
-/

namespace OpenMama

inductive Node (α : Type) where
  | node (atom : α) (children : List (Node α))

namespace Node

variable {α : Type}

def leaf (a : α) : Node α := node a []

def atom : Node α → α
  | node a _ => a

def children : Node α → List (Node α)
  | node _ l => l

end Node

/-- The nodes that were entered, innermost first, each with the siblings before it, nearest first, and
after it. Then the siblings up to the cursor, nearest first, and those after it. -/
structure TreeCursor (α : Type) where
  parents : List (List (Node α) × α × List (Node α)) := []
  passed : List (Node α) := []
  ahead : List (Node α) := []

namespace TreeCursor

variable {α β : Type} (c : TreeCursor α)

def current? : Option (Node α) := c.passed.head?

/-- `next ()`, which stays at the last sibling. -/
def next : TreeCursor α :=
  match c.ahead with
  | [] => c
  | n :: ahead => { c with passed := n :: c.passed, ahead := ahead }

def hasNext : Bool := !c.ahead.isEmpty

/-- `prev ()`, which stays at the first sibling. -/
def prev : TreeCursor α :=
  match c.passed with
  | n :: m :: passed => { c with passed := m :: passed, ahead := n :: c.ahead }
  | [_] | [] => c

def enter : TreeCursor α :=
  match c.passed with
  | .node a l :: passed => { parents := (passed, a, c.ahead) :: c.parents, passed := [], ahead := l }
  | [] => c

def siblings : List (Node α) := c.passed.reverse ++ c.ahead

def exit : TreeCursor α :=
  match c.parents with
  | (passed, a, ahead) :: parents => { parents := parents, passed := .node a c.siblings :: passed, ahead := ahead }
  | [] => c

def put (a : α) (c : TreeCursor α) : TreeCursor α :=
  { c with passed := .leaf a :: c.passed, ahead := c.ahead.tail }

def rootsOf : List (List (Node α) × α × List (Node α)) → List (Node α) → List (Node α)
  | [], siblings => siblings
  | (passed, a, ahead) :: parents, siblings => rootsOf parents (passed.reverse ++ .node a siblings :: ahead)

def roots : List (Node α) := rootsOf c.parents c.siblings

def rewind : TreeCursor α := { ahead := c.roots }

def toEnd : TreeCursor α := { c with passed := c.ahead.reverse ++ c.passed, ahead := [] }

/-- The loop `while (next ()) body`, for so many passes at most. The body can leave the loop with a result. -/
def eachNext (body : TreeCursor α → TreeCursor α × Option β) : Nat → TreeCursor α → TreeCursor α × Option β
  | 0, c => (c, none)
  | bound + 1, c =>
    if c.hasNext then
      match body c.next with
      | (c, some b) => (c, some b)
      | (c, none) => eachNext body bound c
    else (c, none)

section

variable (c : TreeCursor α)

theorem siblings_next : c.next.siblings = c.siblings := by
  unfold next
  split
  · rfl
  next h => simp [siblings, h]

theorem siblings_prev : c.prev.siblings = c.siblings := by
  unfold prev
  split <;> rename_i h <;> simp [siblings, h]

theorem parents_next : c.next.parents = c.parents := by
  unfold next
  split <;> rfl

theorem parents_prev : c.prev.parents = c.parents := by
  unfold prev
  split <;> rfl

@[simp]
theorem roots_next : c.next.roots = c.roots := by rw [roots, siblings_next, parents_next, roots]

@[simp]
theorem roots_prev : c.prev.roots = c.roots := by rw [roots, siblings_prev, parents_prev, roots]

@[simp]
theorem roots_enter : c.enter.roots = c.roots := by
  unfold enter
  split
  next h => simp [roots, rootsOf, siblings, h]
  · rfl

@[simp]
theorem roots_exit : c.exit.roots = c.roots := by
  unfold exit
  split
  next h => simp [roots, rootsOf, siblings, h]
  · rfl

@[simp]
theorem roots_toEnd : c.toEnd.roots = c.roots := by simp [roots, siblings, toEnd]

@[simp]
theorem roots_rewind : c.rewind.roots = c.roots := rfl

end

/-- Cursors among the same siblings. -/
structure Level (c d : TreeCursor α) : Prop where
  parents : d.parents = c.parents
  siblings : d.siblings = c.siblings

namespace Level

variable {c d e : TreeCursor α}

theorem refl (c : TreeCursor α) : Level c c := ⟨rfl, rfl⟩

theorem trans (h : Level c d) (h' : Level d e) : Level c e :=
  ⟨h'.parents.trans h.parents, h'.siblings.trans h.siblings⟩

theorem next (h : Level c d) : Level c d.next := h.trans ⟨parents_next d, siblings_next d⟩

theorem toEnd (h : Level c d) : Level c d.toEnd := h.trans ⟨rfl, by simp [TreeCursor.siblings, TreeCursor.toEnd]⟩

end Level

theorem exit_of_level {c d : TreeCursor α} (hc : c.passed ≠ []) (h : Level c.enter d) : d.exit = c := by
  obtain ⟨parents, passed, ahead⟩ := c
  cases passed with
  | nil => exact absurd rfl hc
  | cons n passed =>
    obtain ⟨a, l⟩ := n
    have hparents : d.parents = (passed, a, ahead) :: parents := h.parents
    have hsiblings : d.siblings = l := h.siblings
    rw [exit, hparents, hsiblings]

variable {body : TreeCursor α → TreeCursor α × Option β}

theorem eachNext_toEnd {c : TreeCursor α} {bound : Nat} (hbound : c.ahead.length ≤ bound)
    (h : ∀ l n r, c.ahead = l ++ n :: r →
      body ⟨c.parents, n :: (l.reverse ++ c.passed), r⟩ = (⟨c.parents, n :: (l.reverse ++ c.passed), r⟩, none)) :
    eachNext body bound c = (c.toEnd, none) := by
  induction bound generalizing c with
  | zero =>
    obtain ⟨parents, passed, ahead⟩ := c
    cases List.eq_nil_of_length_eq_zero (Nat.le_zero.mp hbound)
    rfl
  | succ _ ih =>
    obtain ⟨parents, passed, ahead⟩ := c
    cases ahead with
    | nil => simp [eachNext, hasNext, toEnd]
    | cons n ahead =>
      have hbody : body ⟨parents, n :: passed, ahead⟩ = (⟨parents, n :: passed, ahead⟩, none) := h [] n ahead rfl
      have hrest := ih (c := ⟨parents, n :: passed, ahead⟩) (Nat.le_of_succ_le_succ hbound)
        fun l m r hlmr => by
          have hahead : ahead = l ++ m :: r := hlmr
          simpa using h (n :: l) m r (by rw [hahead, List.cons_append])
      simp only [eachNext, hasNext, List.isEmpty_cons, Bool.not_false, if_true, next]
      rw [hbody]
      simp only [hrest]
      simp [toEnd]

theorem eachNext_found {parents : List (List (Node α) × α × List (Node α))} {passed before after : List (Node α)}
    {n : Node α} {bound : Nat} (hbound : before.length < bound)
    (h : ∀ l m r, before = l ++ m :: r →
      body ⟨parents, m :: (l.reverse ++ passed), r ++ n :: after⟩
        = (⟨parents, m :: (l.reverse ++ passed), r ++ n :: after⟩, none))
    {d : TreeCursor α} {b : β} (hfound : body ⟨parents, n :: (before.reverse ++ passed), after⟩ = (d, some b)) :
    eachNext body bound ⟨parents, passed, before ++ n :: after⟩ = (d, some b) := by
  induction bound generalizing passed before with
  | zero => exact absurd hbound (Nat.not_lt_zero _)
  | succ _ ih =>
    cases before with
    | nil =>
      have hbody : body ⟨parents, n :: passed, after⟩ = (d, some b) := hfound
      simp [eachNext, hasNext, next, hbody]
    | cons m before =>
      have hbody : body ⟨parents, m :: passed, before ++ n :: after⟩
          = (⟨parents, m :: passed, before ++ n :: after⟩, none) := h [] m before rfl
      have hfound' : body ⟨parents, n :: (before.reverse ++ (m :: passed)), after⟩ = (d, some b) := by
        simpa using hfound
      have hrest := ih (Nat.lt_of_succ_lt_succ hbound)
        (fun l k r hlkr => by simpa using h (m :: l) k r (by rw [hlkr, List.cons_append])) hfound'
      simp only [List.cons_append, eachNext, hasNext, List.isEmpty_cons, Bool.not_false, if_true, next]
      rw [hbody]
      exact hrest

end TreeCursor

end OpenMama
