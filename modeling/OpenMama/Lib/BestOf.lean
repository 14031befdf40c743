import OpenMama.Lib.Ranked

/-!
# A window on the best keys of an ordered map

`Heads` says that one map, the view, is a first part of another. `BestOf` says that it is the part of the first `N`. A
window that follows a changing map may remember how many keys the view holds and a bound: a key that no key in view is
behind and, when the view is full, that every key out of view is behind. `Tracks` is that invariant. The bound need
not be a key of the map.
-/

namespace OpenMama

open OrderedMap

variable {K V : Type} [LinearOrder K] {d : Bool} {N : Nat} {full view : Std.TreeMap K V}

/-- The view is a part of the map that begins with its best keys. -/
structure Heads (d : Bool) (full view : Std.TreeMap K V) : Prop where
  held : ∀ (k : K) (v : V), view[k]? = some v → full[k]? = some v
  upper : ∀ k k' : K, k ∈ view → k' ∈ full → k' ∉ view → Ahead d k k'

namespace Heads

variable (h : Heads d full view)
include h

theorem mem {k : K} (hk : k ∈ view) : k ∈ full := by
  obtain ⟨v, hv⟩ := mem_iff_getElem?.mp hk
  exact mem_iff_getElem?.mpr ⟨v, h.held k v hv⟩

theorem getElem? {k : K} (hk : k ∈ view) : view[k]? = full[k]? := by
  obtain ⟨v, hv⟩ := mem_iff_getElem?.mp hk
  rw [hv, h.held k v hv]

theorem exists_append :
    ∃ rest, ranked d full = ranked d view ++ rest ∧
      ∀ (k : K) (v : V), (k, v) ∈ rest ↔ full[k]? = some v ∧ k ∉ view := by
  refine ⟨(ranked d full).filter (fun a => decide (a.1 ∉ view)), ?_, fun k v => ?_⟩
  · refine eq_of_mem_iff (pairwise_ranked full) (List.pairwise_append.mpr
      ⟨pairwise_ranked view, (pairwise_ranked full).filter _, ?_⟩) ?_
    · rintro ⟨k, v⟩ hk ⟨k', v'⟩ hk'
      rw [List.mem_filter, mem_ranked] at hk'
      exact h.upper k k' (mem_iff_getElem?.mpr ⟨v, mem_ranked.mp hk⟩)
        (mem_iff_getElem?.mpr ⟨v', hk'.1⟩) (of_decide_eq_true hk'.2)
    · rintro ⟨k, v⟩
      rw [List.mem_append, List.mem_filter, mem_ranked, mem_ranked, decide_eq_true_iff]
      constructor
      · intro hk
        by_cases hview : k ∈ view
        · exact Or.inl ((h.getElem? hview).trans hk)
        · exact Or.inr ⟨hk, hview⟩
      · rintro (hk | ⟨hk, -⟩)
        · exact h.held k v hk
        · exact hk
  · rw [List.mem_filter, mem_ranked, decide_eq_true_iff]

theorem size_le : view.size ≤ full.size := by
  obtain ⟨_, happend, -⟩ := h.exists_append
  have hlength := congrArg List.length happend
  rw [List.length_append, length_ranked, length_ranked] at hlength
  omega

theorem size_lt {k : K} (hk : k ∈ full) (hview : k ∉ view) : view.size < full.size := by
  obtain ⟨_, happend, hrest⟩ := h.exists_append
  obtain ⟨v, hv⟩ := mem_iff_getElem?.mp hk
  have hpos := List.length_pos_of_mem ((hrest k v).mpr ⟨hv, hview⟩)
  have hlength := congrArg List.length happend
  rw [List.length_append, length_ranked, length_ranked] at hlength
  omega

end Heads

/-- The view is the best `N` keys of the map. -/
structure BestOf (d : Bool) (N : Nat) (full view : Std.TreeMap K V) : Prop extends Heads d full view where
  size : view.size = min N full.size

namespace BestOf

theorem ranked_eq (h : BestOf d N full view) : ranked d view = (ranked d full).take N := by
  obtain ⟨rest, happend, -⟩ := h.exists_append
  have hlength := congrArg List.length happend
  rw [List.length_append, length_ranked, length_ranked] at hlength
  have hsize := h.size
  have hcut : (ranked d view).take N = ranked d view := List.take_of_length_le (by rw [length_ranked]; omega)
  rw [happend, List.take_append, hcut, length_ranked]
  rcases Nat.le_total N full.size with hN | _
  · rw [show N - view.size = 0 by omega, List.take_zero, List.append_nil]
  · rw [List.eq_nil_of_length_eq_zero (l := rest) (by omega), List.take_nil, List.append_nil]

theorem mem_view (h : BestOf d N full view) (hroom : view.size < N) {k : K} (hk : k ∈ full) : k ∈ view := by
  by_contra hview
  have hlt := h.size_lt hk hview
  have hsize := h.size
  omega

end BestOf

/-- A window of at most `N` keys on a map: its view, the number of keys in view, and the bound. -/
structure Tracks (d : Bool) (N : Nat) (full view : Std.TreeMap K V) (depth : Nat) (bound : K) : Prop
    extends BestOf d N full view where
  depth_eq : depth = view.size
  inside : ∀ k : K, k ∈ view → ¬ Ahead d bound k
  outside : depth = N → ∀ k : K, k ∈ full → k ∉ view → Ahead d bound k

namespace Tracks

variable {depth : Nat} {bound k b : K} {v : V} {full' : Std.TreeMap K V}

theorem congr (h : Tracks d N full view depth bound) (hfull : ∀ a : K, full'[a]? = full[a]?) :
    Tracks d N full' view depth bound where
  held a v ha := (hfull a).trans (h.held a v ha)
  upper a a' ha ha' hview := by
    rw [mem_iff_getElem?, hfull, ← mem_iff_getElem?] at ha'
    exact h.upper a a' ha ha' hview
  size := by rw [h.size, size_congr hfull]
  depth_eq := h.depth_eq
  inside := h.inside
  outside hdepth a ha hview := by
    rw [mem_iff_getElem?, hfull, ← mem_iff_getElem?] at ha
    exact h.outside hdepth a ha hview

theorem empty (d : Bool) (N : Nat) (bound : K) : Tracks d N (∅ : Std.TreeMap K V) (∅ : Std.TreeMap K V) 0 bound where
  held _ _ hk := by simp at hk
  upper _ _ hk := by simp at hk
  size := by simp
  depth_eq := by simp
  inside _ hk := by simp at hk
  outside _ _ hk := by simp at hk

theorem of_append {shown rest : List (K × V)} {x : K × V} (hranked : ranked d full = shown ++ [x] ++ rest)
    (hview : ∀ (k : K) (v : V), view[k]? = some v ↔ (k, v) ∈ shown ++ [x])
    (hsize : shown.length + 1 = min N full.size) :
    Tracks d N full view (shown.length + 1) x.1 := by
  have hsorted := pairwise_ranked (d := d) full
  rw [hranked] at hsorted
  obtain ⟨hfirst, -, hcross⟩ := List.pairwise_append.mp hsorted
  have hviewRanked : ranked d view = shown ++ [x] := by
    refine eq_of_mem_iff (pairwise_ranked view) hfirst fun a => ?_
    rw [mem_ranked, hview]
  have hcount : view.size = shown.length + 1 := by
    rw [← length_ranked (d := d), hviewRanked]
    simp
  have hmem : ∀ a : K, a ∈ view → ∃ v, (a, v) ∈ shown ++ [x] := fun a ha => by
    obtain ⟨v, hv⟩ := mem_iff_getElem?.mp ha
    exact ⟨v, (hview a v).mp hv⟩
  have hrest : ∀ a : K, a ∈ full → a ∉ view → ∃ v, (a, v) ∈ rest := fun a ha hout => by
    obtain ⟨v, hv⟩ := mem_iff_getElem?.mp ha
    have hin := mem_ranked (d := d).mpr hv
    rw [hranked, List.mem_append] at hin
    exact ⟨v, hin.resolve_left fun h => hout (mem_iff_getElem?.mpr ⟨v, (hview a v).mpr h⟩)⟩
  refine ⟨⟨⟨?_, ?_⟩, hcount.trans hsize⟩, hcount.symm, ?_, ?_⟩
  · intro k v hk
    apply mem_ranked (d := d).mp
    rw [hranked]
    exact List.mem_append_left _ ((hview k v).mp hk)
  · intro k k' hk hk' hout
    obtain ⟨v, hv⟩ := hmem k hk
    obtain ⟨_, hv'⟩ := hrest k' hk' hout
    exact hcross _ hv _ hv'
  · intro k hk
    obtain ⟨v, hv⟩ := hmem k hk
    rcases List.mem_append.mp hv with hv | hv
    · exact ((List.pairwise_append.mp hfirst).2.2 _ hv x (by simp)).asymm
    · rw [← List.mem_singleton.mp hv]
      exact Ahead.irrefl _
  · intro _ k hk hout
    obtain ⟨v, hv⟩ := hrest k hk hout
    exact hcross x (by simp) _ hv

variable (h : Tracks d N full view depth bound)
include h

theorem mem_view (hk : k ∈ full) (hlook : ¬ (Ahead d bound k ∧ depth = N)) : k ∈ view := by
  by_cases hdepth : depth = N
  · by_contra hview
    exact hlook ⟨h.outside hdepth k hk hview, hdepth⟩
  · have hsize := h.size
    exact h.toBestOf.mem_view (by have := h.depth_eq; omega) hk

theorem insert_behind (hk : k ∉ full) (hbehind : Ahead d bound k) (hdepth : depth = N) :
    Tracks d N (full.insert k v) view depth bound where
  held a u ha := by
    have hne : a ≠ k := by
      rintro rfl
      exact hk (h.mem (mem_iff_getElem?.mpr ⟨u, ha⟩))
    rw [getElem?_insert, if_neg hne, h.held a u ha]
  upper a a' ha ha' hview := by
    rcases mem_insert.mp ha' with rfl | ha'
    · exact Ahead.of_not (h.inside a ha) hbehind
    · exact h.upper a a' ha ha' hview
  size := by
    have hsize := h.size
    rw [size_insert hk]
    have := h.depth_eq
    omega
  depth_eq := h.depth_eq
  inside := h.inside
  outside _ a ha hview := by
    rcases mem_insert.mp ha with rfl | ha
    · exact hbehind
    · exact h.outside hdepth a ha hview

theorem insert_room (hk : k ∉ full) (hdepth : depth ≠ N) (hb : ∀ a : K, a = k ∨ a ∈ view → ¬ Ahead d b a) :
    Tracks d N (full.insert k v) (view.insert k v) (depth + 1) b := by
  have hsize := h.size
  have hcount := h.depth_eq
  have hall : ∀ a : K, a ∈ full → a ∈ view := fun a ha => h.toBestOf.mem_view (by omega) ha
  refine ⟨⟨⟨?_, ?_⟩, ?_⟩, ?_, ?_, ?_⟩
  · intro a u ha
    rw [getElem?_insert] at ha ⊢
    split_ifs at ha ⊢ with hak
    · exact ha
    · exact h.held a u ha
  · intro a a' _ ha' hview
    rw [mem_insert] at ha' hview
    exact absurd (ha'.imp_right (hall a')) hview
  · rw [size_insert hk, size_insert fun hview => hk (h.mem hview)]
    omega
  · rw [size_insert fun hview => hk (h.mem hview), hcount]
  · exact fun a ha => hb a (mem_insert.mp ha)
  · intro _ a ha hview
    rw [mem_insert] at ha hview
    exact absurd (ha.imp_right (hall a)) hview

theorem insert_evict (hk : k ∉ full) (hlook : ¬ Ahead d bound k) (hdepth : depth = N) {front : List (K × V)}
    {y z : K × V} (hranked : ranked d (view.insert k v) = front ++ [y, z]) :
    Tracks d N (full.insert k v) ((view.insert k v).erase z.1) depth y.1 := by
  have hlast : ∀ a : K, a ∈ (view.insert k v).erase z.1 → Ahead d a z.1 ∧ ¬ Ahead d y.1 a :=
    fun a ha => ahead_of_last_two hranked (mem_erase.mp ha).2 (mem_erase.mp ha).1
  have hmem : ∀ a ∈ front ++ [y, z], a.1 ∈ view.insert k v := by
    intro a ha
    rw [← hranked] at ha
    exact mem_iff_getElem?.mpr ⟨a.2, mem_ranked.mp ha⟩
  have hyz : y.1 ∈ (view.insert k v).erase z.1 := by
    refine mem_erase.mpr ⟨?_, hmem y (by simp)⟩
    have hsorted := pairwise_ranked (d := d) (view.insert k v)
    rw [hranked] at hsorted
    exact ((List.pairwise_cons.mp (List.pairwise_append.mp hsorted).2.1).1 z (by simp)).ne
  have hupper : ∀ a a' : K, a ∈ (view.insert k v).erase z.1 → a' ∈ full.insert k v →
      a' ∉ (view.insert k v).erase z.1 → Ahead d a a' := by
    intro a a' ha ha' hview
    by_cases hz : a' = z.1
    · exact hz ▸ (hlast a ha).1
    · have hout : a' ∉ view.insert k v := fun hin => hview (mem_erase.mpr ⟨hz, hin⟩)
      rw [mem_insert, not_or] at hout
      have ha'full := (mem_insert.mp ha').resolve_left hout.1
      rcases mem_insert.mp (mem_erase.mp ha).2 with rfl | hin
      · exact Ahead.of_not hlook (h.outside hdepth a' ha'full hout.2)
      · exact h.upper a a' hin ha'full hout.2
  have hcount : ((view.insert k v).erase z.1).size = depth := by
    have herase := size_erase (hmem z (by simp))
    rw [size_insert fun hview => hk (h.mem hview), ← h.depth_eq] at herase
    omega
  refine ⟨⟨⟨?_, hupper⟩, ?_⟩, hcount.symm, fun a ha => (hlast a ha).2, fun _ a ha hview => hupper y.1 a hyz ha hview⟩
  · intro a u ha
    rw [getElem?_erase] at ha
    split_ifs at ha
    rw [getElem?_insert] at ha ⊢
    split_ifs at ha ⊢
    · exact ha
    · exact h.held a u ha
  · have hsize := h.size
    have := h.depth_eq
    rw [size_insert hk]
    omega

theorem erase_behind (hk : k ∈ full) (hbehind : Ahead d bound k) (hdepth : depth = N) :
    Tracks d N (full.erase k) view depth bound := by
  have hout : k ∉ view := fun hview => h.inside k hview hbehind
  refine ⟨⟨⟨?_, ?_⟩, ?_⟩, h.depth_eq, h.inside, ?_⟩
  · intro a u ha
    have hne : a ≠ k := by
      rintro rfl
      exact hout (mem_iff_getElem?.mpr ⟨u, ha⟩)
    rw [getElem?_erase, if_neg hne, h.held a u ha]
  · exact fun a a' ha ha' hview => h.upper a a' ha (mem_erase.mp ha').2 hview
  · have hlt := h.size_lt hk hout
    have herase := size_erase hk
    have := h.depth_eq
    omega
  · exact fun hdepth a ha hview => h.outside hdepth a (mem_erase.mp ha).2 hview

theorem heads_erase (k : K) : Heads d (full.erase k) (view.erase k) where
  held a u ha := by
    rw [getElem?_erase] at ha ⊢
    split_ifs at ha ⊢
    exact h.held a u ha
  upper a a' ha ha' hview := by
    rw [mem_erase] at ha ha' hview
    exact h.upper a a' ha.2 ha'.2 fun hin => hview ⟨ha'.1, hin⟩

theorem erase_shrink (hk : k ∈ view) (hnext : (ranked d (full.erase k))[depth - 1]? = none) :
    Tracks d N (full.erase k) (view.erase k) (depth - 1) bound := by
  have hheads := h.heads_erase k
  have hview := size_erase hk
  have hsize := h.size
  have hcount := h.depth_eq
  have hle := hheads.size_le
  rw [List.getElem?_eq_none_iff, length_ranked] at hnext
  refine ⟨⟨hheads, by omega⟩, by omega, fun a ha => h.inside a (mem_erase.mp ha).2, ?_⟩
  omega

theorem erase_refill (hk : k ∈ view) {a : K} {u : V} (hnext : (ranked d (full.erase k))[depth - 1]? = some (a, u)) :
    a ∉ view.erase k ∧ Tracks d N (full.erase k) ((view.erase k).insert a u) depth a := by
  have hheads := h.heads_erase k
  have hview := size_erase hk
  have hfull := size_erase (h.mem hk)
  have hsize := h.size
  have hcount := h.depth_eq
  obtain ⟨rest, happend, hrest⟩ := hheads.exists_append
  rw [happend, List.getElem?_append_right (by rw [length_ranked]; omega), length_ranked,
    show depth - 1 - (view.erase k).size = 0 by omega] at hnext
  obtain ⟨others, rfl⟩ : ∃ others, rest = (a, u) :: others := by
    cases rest with
    | nil => simp at hnext
    | cons _ others =>
      simp only [List.getElem?_cons_zero, Option.some_inj] at hnext
      exact ⟨others, by rw [hnext]⟩
  obtain ⟨hau, hout⟩ := (hrest a u).mp (by simp)
  -- What is left out of view is behind the key that came in.
  have hbehind : ∀ x : K, x ∈ full.erase k → x ∉ (view.erase k).insert a u → Ahead d a x := by
    intro x hx hxview
    obtain ⟨t, ht⟩ := mem_iff_getElem?.mp hx
    rw [mem_insert, not_or] at hxview
    have hxrest := (hrest x t).mpr ⟨ht, hxview.2⟩
    have hsorted := pairwise_ranked (d := d) (full.erase k)
    rw [happend] at hsorted
    rcases List.mem_cons.mp hxrest with heq | hxothers
    · exact absurd (congrArg Prod.fst heq) hxview.1
    · exact (List.pairwise_cons.mp (List.pairwise_append.mp hsorted).2.1).1 _ hxothers
  have hbefore : ∀ x : K, x ∈ view.erase k → Ahead d x a := fun x hx =>
    hheads.upper x a hx (mem_iff_getElem?.mpr ⟨u, hau⟩) hout
  have hsizes := size_insert (v := u) hout
  refine ⟨hout, ⟨⟨⟨?_, ?_⟩, ?_⟩, ?_, ?_, fun _ => hbehind⟩⟩
  · intro x t hx
    rw [getElem?_insert] at hx
    split_ifs at hx with hxa
    · rw [hxa, hau, ← hx]
    · exact hheads.held x t hx
  · intro x x' hx hx' hxview
    rcases mem_insert.mp hx with rfl | hx
    · exact hbehind x' hx' hxview
    · exact (hbefore x hx).trans (hbehind x' hx' hxview)
  · have hlength := congrArg List.length happend
    rw [List.length_append, length_ranked, length_ranked, List.length_cons] at hlength
    omega
  · omega
  · intro x hx
    rcases mem_insert.mp hx with rfl | hx
    · exact Ahead.irrefl x
    · exact (hbefore x hx).asymm

theorem next_eq_none (hk : k ∈ view) (hexact : depth - 1 = min N (full.erase k).size) :
    (ranked d (full.erase k))[depth - 1]? = none := by
  have hview := size_erase hk
  have hsize := h.size
  have hcount := h.depth_eq
  rw [List.getElem?_eq_none_iff, length_ranked]
  omega

theorem next_eq_some (hk : k ∈ view) {a : K} {u : V} (hout : a ∉ view.erase k)
    (hexact : ranked d ((view.erase k).insert a u) = (ranked d (full.erase k)).take N) :
    (ranked d (full.erase k))[depth - 1]? = some (a, u) := by
  have hview := size_erase hk
  have hcount := h.depth_eq
  obtain ⟨rest, happend, -⟩ := (h.heads_erase k).exists_append
  have hlength := congrArg List.length hexact
  have hmem : (a, u) ∈ (ranked d (full.erase k)).take N := by
    rw [← hexact, mem_ranked, getElem?_insert, if_pos rfl]
  have hlong : (ranked d (view.erase k)).length = depth - 1 := by
    rw [length_ranked]
    omega
  rw [length_ranked, size_insert hout, happend, List.length_take, List.length_append] at hlength
  rw [happend, List.take_append, List.mem_append] at hmem
  have hin : (a, u) ∈ rest.take (N - (ranked d (view.erase k)).length) := by
    refine hmem.resolve_left fun hleft => hout ?_
    exact mem_iff_getElem?.mpr ⟨u, mem_ranked.mp (List.mem_of_mem_take hleft)⟩
  rw [happend, List.getElem?_append_right (by omega), hlong, Nat.sub_self]
  cases rest with
  | nil => simp at hin
  | cons x rest =>
    have hone : (x :: rest).take (N - (ranked d (view.erase k)).length) = [x] := by
      rw [List.length_cons] at hlength
      rcases hroom : N - (ranked d (view.erase k)).length with _ | n
      · rw [hroom] at hin
        simp at hin
      · have hn : n = 0 ∨ rest = [] := by
          rcases Nat.eq_zero_or_pos n with hn | hn
          · exact Or.inl hn
          · exact Or.inr (List.eq_nil_of_length_eq_zero (by omega))
        rcases hn with rfl | rfl <;> simp
    rw [hone, List.mem_singleton] at hin
    rw [hin, List.getElem?_cons_zero]

end Tracks
end OpenMama
