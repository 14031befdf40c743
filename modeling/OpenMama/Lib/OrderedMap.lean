import Mathlib.Order.Compare
import Mathlib.Tactic.Common

/-!
# Ordered maps over a linear order

`std::map` is `Std.TreeMap`. Its lemmas speak of a comparison function; over a linear order they can be said with
equality and `<`.
-/

namespace OpenMama.OrderedMap

variable {K V : Type} [LinearOrder K]

@[simp] theorem getElem?_insert (m : Std.TreeMap K V) (k a : K) (v : V) :
    (m.insert k v)[a]? = if a = k then some v else m[a]? := by
  rw [Std.TreeMap.getElem?_insert]
  simp only [compare_eq_iff_eq, eq_comm (a := k)]

theorem forall_insert {m : Std.TreeMap K V} {k : K} {v : V} (P : K → V → Prop) (hself : P k v)
    (hrest : ∀ a u, m[a]? = some u → P a u) (a : K) (u : V) (h : (m.insert k v)[a]? = some u) : P a u := by
  rw [getElem?_insert] at h
  split at h
  next heq =>
    cases h
    exact heq ▸ hself
  · exact hrest a u h

@[simp] theorem getElem?_erase (m : Std.TreeMap K V) (k a : K) : (m.erase k)[a]? = if a = k then none else m[a]? := by
  rw [Std.TreeMap.getElem?_erase]
  simp only [compare_eq_iff_eq, eq_comm (a := k)]

@[simp] theorem getElem?_empty (a : K) : (∅ : Std.TreeMap K V)[a]? = none := Std.TreeMap.getElem?_emptyc

theorem getElem?_filter (m : Std.TreeMap K V) (f : K → Bool) (a : K) :
    (m.filter fun k _ => f k)[a]? = if f a then m[a]? else none := by
  rw [Std.TreeMap.getElem?_filter]
  simp only [Std.TreeMap.getKey_eq, Option.pfilter_eq_filter]
  cases m[a]? <;> cases f a <;> rfl

/-- The values in the order of an iteration from `begin ()` to `end ()`. -/
def iterate (m : Std.TreeMap K V) : List V := m.toList.map Prod.snd

theorem mem_iterate {m : Std.TreeMap K V} {v : V} : v ∈ iterate m ↔ ∃ k : K, m[k]? = some v := by
  simp [iterate, Std.TreeMap.mem_toList_iff_getElem?_eq_some]

theorem map_iterate {m : Std.TreeMap K V} {key : V → K}
    (hkey : ∀ k v, m[k]? = some v → key v = k) : (iterate m).map key = m.keys := by
  rw [iterate, List.map_map, ← Std.TreeMap.map_fst_toList_eq_keys]
  refine List.map_congr_left fun x hx => ?_
  exact hkey x.1 x.2 (Std.TreeMap.mem_toList_iff_getElem?_eq_some.mp hx)

theorem nodup_map_iterate {m : Std.TreeMap K V} {key : V → K}
    (hkey : ∀ k v, m[k]? = some v → key v = k) : ((iterate m).map key).Nodup := by
  rw [map_iterate hkey]
  exact Std.TreeMap.nodup_keys

end OpenMama.OrderedMap
