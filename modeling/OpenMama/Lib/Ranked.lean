import OpenMama.Lib.OrderedMap
import Mathlib.Data.List.Sort

/-!
# Reading an ordered map from either end

`Ahead` is the order in which a reading meets the keys, from the greatest down or from the least up,
and `ranked` the list of what it meets. The list is sorted by `Ahead`, so it is known as soon as its
members are.
-/

namespace OpenMama

open List Std.TreeMap

variable {K V : Type} [LinearOrder K] {d : Bool}

/-- The first key is met before the second: from the greatest key down, or from the least key up. -/
def Ahead (descending : Bool) (a b : K) : Prop := if descending then b < a else a < b

instance (d : Bool) (a b : K) : Decidable (Ahead d a b) := by
  unfold Ahead
  infer_instance

namespace Ahead

variable {a b : K}

theorem irrefl (a : K) : ¬ Ahead d a a := by
  cases d <;> simp [Ahead]

theorem trans {c : K} (hab : Ahead d a b) (hbc : Ahead d b c) : Ahead d a c := by
  cases d
  · exact lt_trans (a := a) hab hbc
  · exact lt_trans (a := c) hbc hab

theorem asymm (hab : Ahead d a b) : ¬ Ahead d b a := fun hba => irrefl a (hab.trans hba)

theorem ne (hab : Ahead d a b) : a ≠ b := by
  rintro rfl
  exact irrefl a hab

theorem of_not {c : K} (hab : ¬ Ahead d b a) (hbc : Ahead d b c) : Ahead d a c := by
  cases d
  · exact lt_of_le_of_lt (not_lt.mp hab) hbc
  · exact lt_of_lt_of_le (b := b) hbc (not_lt.mp hab)

end Ahead

namespace OrderedMap

variable {m : Std.TreeMap K V} {k a : K} {v : V}

theorem mem_iff_getElem? : k ∈ m ↔ ∃ v, m[k]? = some v := by
  rw [mem_iff_isSome_getElem?, Option.isSome_iff_exists]

theorem mem_insert : a ∈ m.insert k v ↔ a = k ∨ a ∈ m := by rw [Std.TreeMap.mem_insert, compare_eq_iff_eq, eq_comm]

theorem mem_erase : a ∈ m.erase k ↔ a ≠ k ∧ a ∈ m := by rw [Std.TreeMap.mem_erase, Ne, compare_eq_iff_eq, eq_comm]

theorem size_insert (hk : k ∉ m) : (m.insert k v).size = m.size + 1 := by
  rw [Std.TreeMap.size_insert, if_neg (mem_iff_contains.not.mp hk)]

theorem size_erase (hk : k ∈ m) : (m.erase k).size + 1 = m.size := by
  have hpos : m.size ≠ 0 := by
    intro h
    exact not_mem_of_isEmpty (isEmpty_eq_size_eq_zero.trans (by simp [h])) hk
  rw [Std.TreeMap.size_erase, if_pos (mem_iff_contains.mp hk)]
  omega

def ranked (descending : Bool) (m : Std.TreeMap K V) : List (K × V) :=
  if descending then m.toList.reverse else m.toList

theorem mem_ranked : (k, v) ∈ ranked d m ↔ m[k]? = some v := by
  cases d <;> simp [ranked, mem_toList_iff_getElem?_eq_some]

theorem length_ranked (m : Std.TreeMap K V) : (ranked d m).length = m.size := by
  cases d <;> simp [ranked]

theorem pairwise_ranked (m : Std.TreeMap K V) : (ranked d m).Pairwise fun a b => Ahead d a.1 b.1 := by
  have hup : m.toList.Pairwise fun a b => a.1 < b.1 :=
    ordered_keys_toList.imp compare_lt_iff_lt.mp
  cases d
  · exact hup
  · exact pairwise_reverse.mpr hup

theorem eq_of_mem_iff {l₁ l₂ : List (K × V)} (h₁ : l₁.Pairwise fun a b => Ahead d a.1 b.1)
    (h₂ : l₂.Pairwise fun a b => Ahead d a.1 b.1) (h : ∀ a, a ∈ l₁ ↔ a ∈ l₂) : l₁ = l₂ := by
  have hirrefl : Std.Irrefl fun a b : K × V => Ahead d a.1 b.1 := ⟨fun a => Ahead.irrefl a.1⟩
  have hanti : Std.Antisymm fun a b : K × V => Ahead d a.1 b.1 := ⟨fun _ _ hab hba => absurd hba hab.asymm⟩
  exact h₁.eq_of_mem_iff h₂ h

theorem ranked_congr {m' : Std.TreeMap K V} (h : ∀ k : K, m[k]? = m'[k]?) : ranked d m = ranked d m' := by
  refine eq_of_mem_iff (pairwise_ranked m) (pairwise_ranked m') fun a => ?_
  rw [mem_ranked, mem_ranked, h]

theorem size_congr {m' : Std.TreeMap K V} (h : ∀ k : K, m[k]? = m'[k]?) : m.size = m'.size := by
  rw [← length_ranked (d := true), ← length_ranked (d := true), ranked_congr h]

theorem exists_last_two {α : Type} {l : List α} (h : 2 ≤ l.length) : ∃ front y z, l = front ++ [y, z] := by
  have hlength := l.length_reverse
  rcases hrev : l.reverse with _ | ⟨z, _ | ⟨y, front⟩⟩
  · simp only [hrev, length_nil] at hlength
    omega
  · simp only [hrev, length_cons, length_nil] at hlength
    omega
  · refine ⟨front.reverse, y, z, ?_⟩
    rw [← l.reverse_reverse, hrev]
    simp

theorem ahead_of_last_two {front : List (K × V)} {y z : K × V} (hranked : ranked d m = front ++ [y, z]) (ha : a ∈ m)
    (haz : a ≠ z.1) :
    Ahead d a z.1 ∧ ¬ Ahead d y.1 a := by
  have hsorted := pairwise_ranked (d := d) m
  obtain ⟨u, hu⟩ := mem_iff_getElem?.mp ha
  have hmem := mem_ranked (d := d).mpr hu
  rw [hranked] at hsorted hmem
  obtain ⟨-, hlast, hfront⟩ := pairwise_append.mp hsorted
  have hyz : Ahead d y.1 z.1 := (pairwise_cons.mp hlast).1 z (by simp)
  rw [mem_append, mem_cons, mem_singleton] at hmem
  rcases hmem with hmem | rfl | rfl
  · exact ⟨hfront _ hmem z (by simp), (hfront _ hmem y (by simp)).asymm⟩
  · exact ⟨hyz, Ahead.irrefl a⟩
  · exact absurd rfl haz

end OrderedMap
end OpenMama
