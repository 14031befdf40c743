import Mathlib.Data.List.Nodup
import Mathlib.Order.Lattice

/-!
# Stores with one item for each key

`SortedSet.insert` is the insertion of `std::set`, which keeps one item of those that compare as equal. `Covers` says
that a store has offered items only, one for each key that was offered. It has all of them exactly when no two have
the same key.
-/

namespace OpenMama

open List

variable {α κ : Type}

namespace SortedSet

def insert (less : α → α → Bool) (a : α) : List α → List α
  | [] => [a]
  | b :: l =>
    if less b a then b :: insert less a l
    else if less a b then a :: b :: l
    else b :: l

variable [LinearOrder κ] {less : α → α → Bool} {key : α → κ} {a : α} {l : List α}

theorem mem_insert (hless : ∀ a b, less a b ↔ key a < key b)
    (hl : l.Pairwise fun b c => less b c) {b : α} :
    b ∈ insert less a l ↔ b ∈ l ∨ b = a ∧ ∀ c ∈ l, key c ≠ key a := by
  induction l with
  | nil => simp [insert]
  | cons c l _ =>
    obtain ⟨hc, -⟩ := pairwise_cons.mp hl
    unfold insert
    by_cases hca : less c a
    · grind
    · rw [if_neg hca]
      by_cases hac : less a c
      · have hlt : key a < key c := (hless a c).mp hac
        rw [if_pos hac]
        grind
      · have heq : key c = key a :=
          le_antisymm (not_lt.mp fun h => hac ((hless a c).mpr h)) (not_lt.mp fun h => hca ((hless c a).mpr h))
        grind

theorem pairwise_insert (hless : ∀ a b, less a b ↔ key a < key b) (hl : l.Pairwise fun b c => less b c) :
    (insert less a l).Pairwise fun b c => less b c := by
  induction l with
  | nil => simp [insert]
  | cons c l ih =>
    obtain ⟨hc, hrest⟩ := pairwise_cons.mp hl
    unfold insert
    split
    next hca =>
      refine pairwise_cons.mpr ⟨fun d hd => ?_, ih hrest⟩
      rcases (mem_insert hless hrest).mp hd with hd | ⟨rfl, -⟩
      · exact hc d hd
      · exact hca
    · split
      next hac =>
        refine pairwise_cons.mpr ⟨fun d hd => ?_, hl⟩
        rcases mem_cons.mp hd with rfl | hd
        · exact hac
        · exact (hless a d).mpr (((hless a c).mp hac).trans ((hless c d).mp (hc d hd)))
      · exact hl

theorem nodup_of_pairwise (hless : ∀ a b, less a b ↔ key a < key b)
    (hl : l.Pairwise fun b c => less b c) : (l.map key).Nodup :=
  pairwise_map.mpr (hl.imp fun h => ((hless _ _).mp h).ne)

end SortedSet

/-- A set that stores one element for each key that is offered. -/
structure Covers (offered : α → Prop) (key : α → κ) (stored : α → Prop) : Prop where
  sound : ∀ a, stored a → offered a
  covered : ∀ a, offered a → ∃ b, stored b ∧ key b = key a
  unique : ∀ a b, stored a → stored b → key a = key b → a = b

namespace Covers

variable {offered stored : α → Prop} {key : α → κ}

theorem all_iff (h : Covers offered key stored) :
    (∀ a, offered a → stored a) ↔ ∀ a b, offered a → offered b → key a = key b → a = b := by
  constructor
  · intro hall a b ha hb
    exact h.unique a b (hall a ha) (hall b hb)
  · intro hinj a ha
    obtain ⟨b, hb, hkey⟩ := h.covered a ha
    rwa [← hinj b a (h.sound b hb) ha hkey]

theorem congr (h : Covers offered key stored) {key' : α → κ} (hkey : ∀ a, offered a → key' a = key a) :
    Covers offered key' stored where
  sound := h.sound
  covered a ha := by
    obtain ⟨b, hb, heq⟩ := h.covered a ha
    exact ⟨b, hb, by rw [hkey b (h.sound b hb), hkey a ha, heq]⟩
  unique a b ha hb heq := by
    rw [hkey a (h.sound a ha), hkey b (h.sound b hb)] at heq
    exact h.unique a b ha hb heq

theorem insert [LinearOrder κ] {less : α → α → Bool} {l : List α} (h : Covers offered key (· ∈ l))
    (hless : ∀ a b, less a b ↔ key a < key b) (hl : l.Pairwise fun b c => less b c) (a : α) :
    Covers (fun b => offered b ∨ b = a) key (· ∈ SortedSet.insert less a l) := by
  have hmem {b : α} := SortedSet.mem_insert (b := b) (a := a) hless hl
  refine ⟨fun b hb => ?_, fun b hb => ?_, fun b c hb hc heq => ?_⟩
  · rcases hmem.mp hb with hb | ⟨rfl, -⟩
    · exact .inl (h.sound b hb)
    · exact .inr rfl
  · rcases hb with hb | rfl
    · obtain ⟨c, hc, heq⟩ := h.covered b hb
      exact ⟨c, hmem.mpr (.inl hc), heq⟩
    · by_cases hall : ∀ c ∈ l, key c ≠ key b
      · exact ⟨b, hmem.mpr (.inr ⟨rfl, hall⟩), rfl⟩
      · push Not at hall
        obtain ⟨c, hc, heq⟩ := hall
        exact ⟨c, hmem.mpr (.inl hc), heq⟩
  · rcases hmem.mp hb with hold | ⟨rfl, hne⟩ <;> rcases hmem.mp hc with hold' | ⟨rfl, hne'⟩
    · exact h.unique b c hold hold' heq
    · exact absurd heq (hne' b hold)
    · exact absurd heq.symm (hne c hold')
    · rfl

end Covers

end OpenMama
