import Mathlib.Data.List.Chain
import Mathlib.Data.List.Nodup

/-!
# Linked lists in memory

A memory gives every address its successor and its predecessor. `Linked` says that a list of addresses is linked in
both directions, `Stack` that it is linked to its end in one. Insertion and removal are described by the fields that
they write, in any order.
-/

namespace OpenMama

open List

variable {ρ : Type}

/-- Each element points to the one after it, and that one back. -/
def Linked (next prev : ρ → ρ) (as : List ρ) : Prop := as.IsChain (fun a b => next a = b ∧ prev b = a)

/-- A list linked in one direction, from its first element to `nil`. -/
def Stack (next : ρ → ρ) (nil : ρ) : ρ → List ρ → Prop
  | a, [] => a = nil
  | a, b :: bs => a = b ∧ b ≠ nil ∧ Stack next nil (next b) bs

namespace Linked

variable {next next' prev prev' : ρ → ρ} {as us vs : List ρ} {a b e : ρ}

theorem congr (h : Linked next prev as) (hnext : ∀ x ∈ as.dropLast, next' x = next x)
    (hprev : ∀ x ∈ as.tail, prev' x = prev x) : Linked next' prev' as := by
  induction as with
  | nil => exact List.IsChain.nil
  | cons x as ih =>
    cases as with
    | nil => exact List.IsChain.singleton x
    | cons y _ =>
      rw [Linked, isChain_cons_cons] at h ⊢
      rw [dropLast_cons_cons, forall_mem_cons] at hnext
      rw [tail_cons, forall_mem_cons] at hprev
      refine ⟨⟨hnext.1.trans h.1.1, hprev.1.trans h.1.2⟩, ih h.2 hnext.2 ?_⟩
      exact hprev.2

theorem pair (h : Linked next prev (us ++ a :: b :: vs)) : next a = b ∧ prev b = a :=
  (isChain_append_cons_cons.mp h).2.1

theorem first (h : Linked next prev (a :: b :: vs)) : next a = b ∧ prev b = a := (isChain_cons_cons.mp h).1

theorem neighbours (h : Linked next prev (us ++ a :: e :: b :: vs)) :
    next a = e ∧ prev e = a ∧ next e = b ∧ prev b = e := by
  have hleft := h.pair
  have hright : Linked next prev ((us ++ [a]) ++ e :: b :: vs) := by
    rw [append_assoc]
    exact h
  exact ⟨hleft.1, hleft.2, hright.pair.1, hright.pair.2⟩

theorem unique (h : Linked next prev (a :: us ++ [b])) (h' : Linked next prev (a :: vs ++ [b])) (hus : b ∉ us)
    (hvs : b ∉ vs) : us = vs := by
  induction us generalizing a vs with
  | nil =>
    cases vs with
    | nil => rfl
    | cons v _ => exact absurd (h.first.1.symm.trans h'.first.1) (fun heq => hvs (heq ▸ mem_cons_self))
  | cons u _ ih =>
    cases vs with
    | nil => exact absurd (h'.first.1.symm.trans h.first.1) (fun heq => hus (heq ▸ mem_cons_self))
    | cons v _ =>
      obtain rfl : u = v := h.first.1.symm.trans h'.first.1
      rw [mem_cons, not_or] at hus hvs
      rw [ih (isChain_cons_cons.mp h).2 (isChain_cons_cons.mp h').2 hus.2 hvs.2]

section Outer

variable (hnext : ∀ x, x ≠ a → x ≠ e → next' x = next x) (hprev : ∀ x, x ≠ b → x ≠ e → prev' x = prev x)
include hnext hprev

-- Writes between `a` and `b` leave the part up to `a` and the part from `b` alone.
theorem left (h : Linked next prev (us ++ [a])) (ha : a ∉ us) (hb : b ∉ us ++ [a]) (he : e ∉ us ++ [a]) :
    Linked next' prev' (us ++ [a]) := by
  refine congr h (fun x hx => ?_) (fun x hx => ?_)
  · rw [dropLast_concat] at hx
    exact hnext x (fun heq => ha (heq ▸ hx)) (fun heq => he (heq ▸ mem_append_left _ hx))
  · have hmem := mem_of_mem_tail hx
    exact hprev x (fun heq => hb (heq ▸ hmem)) (fun heq => he (heq ▸ hmem))

theorem right (h : Linked next prev (b :: vs)) (hb : b ∉ vs) (ha : a ∉ b :: vs) (he : e ∉ b :: vs) :
    Linked next' prev' (b :: vs) := by
  refine congr h (fun x hx => ?_) (fun x hx => ?_)
  · have hmem := dropLast_subset _ hx
    exact hnext x (fun heq => ha (heq ▸ hmem)) (fun heq => he (heq ▸ hmem))
  · exact hprev x (fun heq => hb (heq ▸ hx)) (fun heq => he (heq ▸ mem_cons_of_mem _ hx))

theorem insert (h : Linked next prev (us ++ a :: b :: vs)) (hnodup : (us ++ a :: b :: vs).Nodup)
    (he : e ∉ us ++ a :: b :: vs) (hae : next' a = e) (heb : next' e = b) (hbe : prev' b = e) (hea : prev' e = a) :
    Linked next' prev' (us ++ a :: e :: b :: vs) := by
  rw [Linked, isChain_append_cons_cons] at h ⊢
  have hapart : a ∉ us ∧ b ∉ us ++ [a] ∧ b ∉ vs ∧ a ∉ b :: vs := by grind
  have heapart : e ∉ us ++ [a] ∧ e ∉ b :: vs := by grind
  refine ⟨?_, ⟨hae, hea⟩, isChain_cons_cons.mpr ⟨⟨heb, hbe⟩, ?_⟩⟩
  · exact left hnext hprev h.1 hapart.1 hapart.2.1 heapart.1
  · exact right hnext hprev h.2.2 hapart.2.2.1 hapart.2.2.2 heapart.2

theorem erase (h : Linked next prev (us ++ a :: e :: b :: vs)) (hnodup : (us ++ a :: e :: b :: vs).Nodup)
    (hab : next' a = b) (hba : prev' b = a) : Linked next' prev' (us ++ a :: b :: vs) := by
  rw [Linked, isChain_append_cons_cons, isChain_cons_cons] at h
  rw [Linked, isChain_append_cons_cons]
  have hapart : a ∉ us ∧ b ∉ us ++ [a] ∧ b ∉ vs ∧ a ∉ b :: vs := by grind
  have heapart : e ∉ us ++ [a] ∧ e ∉ b :: vs := by grind
  refine ⟨?_, ⟨hab, hba⟩, ?_⟩
  · exact left hnext hprev h.1 hapart.1 hapart.2.1 heapart.1
  · exact right hnext hprev h.2.2.2 hapart.2.2.1 hapart.2.2.2 heapart.2

end Outer

end Linked

namespace Stack

variable {next next' : ρ → ρ} {nil a : ρ} {as : List ρ}

theorem congr (h : Stack next nil a as) (hnext : ∀ x ∈ as, next' x = next x) : Stack next' nil a as := by
  induction as generalizing a with
  | nil => exact h
  | cons b _ ih =>
    rw [forall_mem_cons] at hnext
    exact ⟨h.1, h.2.1, ih (by rw [hnext.1]; exact h.2.2) hnext.2⟩

theorem eq_nil_iff (h : Stack next nil a as) : a = nil ↔ as = [] := by
  cases as with
  | nil => exact iff_of_true h rfl
  | cons b _ => exact iff_of_false (fun heq => h.2.1 (h.1.symm.trans heq)) nofun

end Stack

end OpenMama
