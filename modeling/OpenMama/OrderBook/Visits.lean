import OpenMama.OrderBook.ListReplay

/-!
# Loops over the levels of a book

The bulk operations work at one price of one side in each pass. `Visited` is what holds after some passes: the deltas
are those of the places visited, each place visited has what its pass left there, and the others are as they were.
-/

namespace OpenMama.OrderBook

open Book List OrderedMap

variable {P : Type} [LinearOrder P]

def slots (w : World P) (b : BookRef) : List (Side × LevelRef) :=
  (iterate (w.book b).bidLevels).map (Prod.mk .bid) ++
    (iterate (w.book b).askLevels).map (Prod.mk .ask)

theorem mem_slots {w : World P} {b : BookRef} {s : Side} {l : LevelRef} :
    (s, l) ∈ slots w b ↔ ∃ p, findLevel w b s p = some l := by
  cases s with
  | bid | ask => simp [slots, findLevel, Book.levels, OrderedMap.mem_iterate]
  | unknown => simp [slots, findLevel]

def slotPlace (w : World P) (x : Side × LevelRef) : Side × P := (x.1, (w.level x.2).price)

theorem mem_slots_place {w : World P} (h : Wired w) {b : BookRef} {s : Side} {l : LevelRef}
    (hmem : (s, l) ∈ slots w b) : findLevel w b s (w.level l).price = some l := by
  obtain ⟨p, hp⟩ := mem_slots.mp hmem
  rwa [(h.slot hp).1]

theorem nodup_slots {w : World P} (h : Wired w) (b : BookRef) : ((slots w b).map (slotPlace w)).Nodup := by
  have hside : ∀ s, ((iterate ((w.book b).levels s)).map fun l =>
      (s, (w.level l).price)).Nodup := by
    intro s
    have hmap : (iterate ((w.book b).levels s)).map (fun l => (s, (w.level l).price)) =
        ((iterate ((w.book b).levels s)).map fun l => (w.level l).price).map (Prod.mk s) := by
      simp
    rw [hmap]
    exact (nodup_map_iterate fun p l hl => (h.slot hl).1).map (Prod.mk_right_injective s)
  rw [slots, map_append, map_map, map_map, nodup_append]
  refine ⟨hside .bid, hside .ask, fun x hx y hy => ?_⟩
  obtain ⟨l, -, rfl⟩ := mem_map.mp hx
  obtain ⟨_, -, rfl⟩ := mem_map.mp hy
  simp [slotPlace]

/-! ### Passes -/

/-- After some passes over book `b` that started from `w`. `F` is what a pass leaves at its place. -/
structure Visited (b : BookRef) (w : World P) (F : Block P → LevelRef → World P → Prop)
    (s : PriceLevel.Recorded P) (ks : List (Block P)) : Prop where
  confined : Confined b w s.1
  deltas : s.2 = ks.flatMap Block.deltas
  nodup : (ks.map Block.place).Nodup
  block : ∀ k ∈ ks, ∃ l, findLevel s.1 b k.side k.price = some l ∧ F k l s.1
  other : ∀ side p, (side, p) ∉ ks.map Block.place →
    findLevel s.1 b side p = findLevel w b side p ∧
      ∀ l, findLevel w b side p = some l → Untouched w s.1 l

def Stable (F : Block P → LevelRef → World P → Prop) : Prop :=
  ∀ ⦃k l l' w w'⦄, F k l w → l' ≠ l → Wired w → Frame l' w w' → F k l w'

namespace Visited

variable {b : BookRef} {w : World P} {F : Block P → LevelRef → World P → Prop}
  {s : PriceLevel.Recorded P} {ks : List (Block P)}

theorem start (h : Wired w) : Visited b w F (w, []) [] where
  confined := Confined.refl h b
  deltas := rfl
  nodup := by simp
  block := by simp
  other _ _ _ := ⟨rfl, fun l _ => Untouched.refl w l⟩

theorem pass (h : Visited b w F s ks) (hF : Stable F) {k : Block P} {l : LevelRef} {w' : World P}
    (hnew : k.place ∉ ks.map Block.place) (hstores : Stores b k.side (some k.price) l s.1 w')
    (hl : findLevel s.1 b k.side k.price = some l ∨ s.1.nextLevel ≤ l) (hk : F k l w') :
    Visited b w F (w', s.2 ++ k.deltas) (ks ++ [k]) := by
  have hwired := h.confined.wired
  have hreach : Reaches b w l := by
    rcases hl with hfound | hfresh
    · exact h.confined.reaches (q := some k.price) hfound
    · exact .inl (h.confined.within.nextLevel.trans hfresh)
  -- A level at another place is another level, and stays there.
  have hother : ∀ {side p l'}, ¬ (side, p) = k.place → findLevel s.1 b side p = some l' →
      l ≠ l' ∧ findLevel w' b side p = some l' := by
    intro side p l' hne hl'
    have hplace : ¬ (b = b ∧ side = k.side ∧ some p = some k.price) := fun heq =>
      hne (Prod.ext heq.2.1 (Option.some.inj heq.2.2))
    have hkept : stored w' b side (some p) = some l' := by
      rw [hstores.stored, if_neg hplace]
      exact hl'
    refine ⟨?_, hkept⟩
    rintro rfl
    exact hplace (hstores.wired.owner hstores.stored_self hkept)
  refine ⟨h.confined.stores hstores hreach, ?_, ?_, ?_, ?_⟩
  · rw [h.deltas, flatMap_append, flatMap_singleton]
  · rw [map_append, map_singleton, nodup_append]
    refine ⟨h.nodup, by simp, fun x hx y hy => ?_⟩
    rw [mem_singleton] at hy
    rintro rfl
    exact hnew (hy ▸ hx)
  · intro k' hk'
    rcases mem_append.mp hk' with hold | hlast
    · obtain ⟨l', hl', hFk⟩ := h.block k' hold
      have hne : ¬ (k'.side, k'.price) = k.place := fun heq => hnew (heq ▸ mem_map_of_mem (f := Block.place) hold)
      obtain ⟨hll, hkept⟩ := hother hne hl'
      exact ⟨l', hkept, hF hFk hll hwired hstores.frame⟩
    · obtain rfl := mem_singleton.mp hlast
      exact ⟨l, hstores.stored_self, hk⟩
  · intro side p hne
    rw [map_append, map_singleton, mem_append, mem_singleton, not_or] at hne
    obtain ⟨hfind, huntouched⟩ := h.other side p hne.1
    constructor
    · have hplace : stored w' b side (some p) = stored s.1 b side (some p) := by
        rw [hstores.stored, if_neg]
        exact fun heq => hne.2 (Prod.ext heq.2.1 (Option.some.inj heq.2.2))
      exact hplace.trans hfind
    · intro l' hl'
      have hll := (hother hne.2 (hfind.trans hl')).1
      exact (huntouched l' hl').trans (hstores.frame.untouched hwired hll.symm)

theorem loop {α : Type} (place : α → Side × P)
    (body : α → PriceLevel.Recorded P → Outcome (PriceLevel.Recorded P) (BookException P))
    {xs : List α} (hnodup : (xs.map place).Nodup)
    (hbody : ∀ x ∈ xs, ∀ s ks, Visited b w F s ks → place x ∉ ks.map Block.place →
      (body x s).error = none ∧ ∃ k, k.place = place x ∧ Visited b w F (body x s).state (ks ++ [k]))
    (h : Visited b w F s ks) (hks : ∀ x ∈ xs, place x ∉ ks.map Block.place) :
    (Outcome.each body xs s).error = none ∧
      ∃ ks', ks'.map Block.place = xs.map place ∧
        Visited b w F (Outcome.each body xs s).state (ks ++ ks') := by
  induction xs generalizing s ks with
  | nil => exact ⟨rfl, [], rfl, by simpa [Outcome.each] using h⟩
  | cons x xs ih =>
    rw [map_cons, nodup_cons] at hnodup
    obtain ⟨hok, k, hk, hnext⟩ := hbody x (by simp) s ks h (hks x (by simp))
    have hrest : ∀ y ∈ xs, place y ∉ (ks ++ [k]).map Block.place := by
      intro y hy hmem
      rw [map_append, map_singleton, mem_append, mem_singleton, hk] at hmem
      rcases hmem with hold | heq
      · exact hks y (by simp [hy]) hold
      · exact hnodup.1 (heq ▸ mem_map_of_mem (f := place) hy)
    obtain ⟨hok', ks', hks', hvisited⟩ := ih hnodup.2 (fun y hy => hbody y (by simp [hy])) hnext hrest
    rw [Outcome.each, Outcome.andThen_of_ok hok]
    refine ⟨hok', k :: ks', by rw [map_cons, map_cons, hk, hks'], ?_⟩
    rwa [append_assoc] at hvisited

end Visited

end OpenMama.OrderBook
