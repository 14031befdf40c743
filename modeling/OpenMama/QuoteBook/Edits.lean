import OpenMama.QuoteBook.Listener
import OpenMama.OrderBook.Places

/-!
# Edits of a side

`Placed` says what an edit does to the heap: one place of the book is given a level, or loses its level. `Edited` adds
that one delta is recorded. `handleSide_cases` lists the edits that a changed quote leads to.
-/

namespace OpenMama.QuoteBook

open OrderBook OrderBook.Book
open Listener (Session Handler)

variable {P : Type} [LinearOrder P]

/-! ### Levels by price -/

def levelAt (w : World P) (b : BookRef) (side : Side) (p : P) : Option (P × Int) :=
  (findLevel w b side p).map fun l => ((w.level l).price, (w.level l).size)

structure Tidy (b : BookRef) (w : World P) : Prop where
  wired : Wired w
  limit : ∀ {s p l}, findLevel w b s p = some l → (w.level l).orderType = .limit

section

variable {w : World P} {b : BookRef} {side : Side} {p₀ : P} {l : LevelRef}

theorem levelAt_modifyLevel_of_not_stored (hl : ∀ s p, findLevel w b s p ≠ some l)
    (g : PriceLevel P → PriceLevel P) (s : Side) (p : P) :
    levelAt (w.modifyLevel l g) b s p = levelAt w b s p := by
  have hfind : findLevel (w.modifyLevel l g) b s p = findLevel w b s p := rfl
  unfold levelAt
  rw [hfind]
  cases hk : findLevel w b s p with
  | none => rfl
  | some k =>
    have hne : k ≠ l := fun heq => hl s p (heq ▸ hk)
    simp [hne]

theorem levelAt_modifyLevel (h : Wired w) (hl : findLevel w b side p₀ = some l)
    {g : PriceLevel P → PriceLevel P} (hg : (g (w.level l)).price = (w.level l).price) (s : Side) (p : P) :
    levelAt (w.modifyLevel l g) b s p =
      if s = side ∧ p = p₀ then some (p₀, (g (w.level l)).size) else levelAt w b s p := by
  have hfind : findLevel (w.modifyLevel l g) b s p = findLevel w b s p := rfl
  unfold levelAt
  rw [hfind]
  by_cases hplace : s = side ∧ p = p₀
  · obtain ⟨rfl, rfl⟩ := hplace
    simp [hl, hg, (h.slot hl).1]
  · rw [if_neg hplace]
    cases hk : findLevel w b s p with
    | none => rfl
    | some k =>
      have hne : k ≠ l := by
        rintro rfl
        obtain ⟨-, hs, hp⟩ := h.slot_inj hl hk
        exact hplace ⟨hs, hp⟩
      simp [hne]

/-- The level `l` was put in a place of the book, with a size, or was taken out of it. -/
structure Placed (b : BookRef) (side : Side) (p₀ : P) (l : LevelRef) (size : Option Int) (w w' : World P) : Prop where
  tidy : Tidy b w'
  levelAt : ∀ s p, levelAt w' b s p =
    if s = side ∧ p = p₀ then size.map (p₀, ·) else levelAt w b s p
  lt : l < w'.nextLevel
  side : (w'.level l).side = side
  price : (w'.level l).price = p₀
  kept : ∀ k < w.nextLevel, (w'.level k).side = (w.level k).side ∧ (w'.level k).price = (w.level k).price
  nextLevel : w.nextLevel ≤ w'.nextLevel

def resize (l : LevelRef) (size : Int) (time : DateTime) (w : World P) : World P :=
  w.modifyLevel l fun lev => { lev.setSize size with time := time }

theorem Tidy.resize (h : Tidy b w) (l : LevelRef) (size : Int) (time : DateTime) : Tidy b (resize l size time w) := by
  refine ⟨h.wired.modifyLevel ⟨rfl, rfl, rfl⟩, fun {s p k} hk => ?_⟩
  have hlimit := h.limit (show findLevel w b s p = some k from hk)
  by_cases hkl : k = l
  · subst hkl
    simpa [QuoteBook.resize, PriceLevel.setSize] using hlimit
  · simpa [QuoteBook.resize, hkl] using hlimit

theorem resize_kept (l : LevelRef) (size : Int) (time : DateTime) (w : World P) (k : LevelRef) :
    ((resize l size time w).level k).side = (w.level k).side ∧
      ((resize l size time w).level k).price = (w.level k).price := by
  by_cases hkl : k = l
  · subst hkl
    simp [resize, PriceLevel.setSize]
  · simp [resize, hkl]

theorem placed_resize (h : Tidy b w) (hl : findLevel w b side p₀ = some l) {size : Int} (hsize : 0 ≤ size)
    (time : DateTime) : Placed b side p₀ l (some size) w (resize l size time w) where
  tidy := h.resize l size time
  levelAt s p := by
    rw [resize, levelAt_modifyLevel h.wired hl (by rfl)]
    simp [PriceLevel.setSize, clampQuantity_of_nonneg hsize]
  lt := h.wired.lt_nextLevel hl
  side := by rw [(resize_kept l size time w l).1, (h.wired.slot hl).2]
  price := by rw [(resize_kept l size time w l).2, (h.wired.slot hl).1]
  kept k _ := resize_kept l size time w k
  nextLevel := le_rfl

theorem placed_findOrCreateLevel (h : Tidy b w) (hside : side ≠ .unknown) (price : P) {size : Int}
    (hsize : 0 ≤ size) (time : DateTime) :
    Placed b side price (findOrCreateLevel w b side price side).2.1 (some size) w
      (resize (findOrCreateLevel w b side price side).2.1 size time
        (findOrCreateLevel w b side price side).1) := by
  cases hl : findLevel w b side price with
  | some l =>
    rw [findOrCreateLevel_of_some hl]
    exact placed_resize h hl hsize time
  | none =>
    obtain ⟨w', hcreate, hstores, hnew⟩ := findOrCreateLevel_of_none h.wired hside hl
    rw [hcreate]
    have hstored := hstores.stored_self
    have helsewhere : ∀ s p, ¬ (s = side ∧ p = price) → findLevel w' b s p = findLevel w b s p :=
      fun s p hne => (hstores.stored b s (some p)).trans (if_neg fun heq => hne ⟨heq.2.1, Option.some.inj heq.2.2⟩)
    have hold : ∀ s p k, findLevel w b s p = some k → w'.level k = w.level k := fun s p k hk =>
      hstores.frame.level k (h.wired.lt_nextLevel hk).ne
    have htidy : Tidy b w' := by
      refine ⟨hstores.wired, fun {s p k} hk => ?_⟩
      by_cases hplace : s = side ∧ p = price
      · obtain ⟨rfl, rfl⟩ := hplace
        obtain rfl : w.nextLevel = k := Option.some.inj (hstored.symm.trans hk)
        rw [hnew]
      · rw [helsewhere s p hplace] at hk
        rw [hold s p k hk]
        exact h.limit hk
    have hplaced := placed_resize htidy hstored hsize time
    refine { hplaced with levelAt := fun s p => ?_, kept := fun k hk => ?_, nextLevel := ?_ }
    · rw [hplaced.levelAt]
      split
      · rfl
      next hplace =>
        unfold levelAt
        rw [helsewhere s p hplace]
        cases hk : findLevel w b s p with
        | none => rfl
        | some k => simp [hold s p k hk]
    · rw [← hstores.frame.level k hk.ne]
      exact resize_kept _ _ _ _ _
    · exact hstores.frame.nextLevel

theorem placed_detach (h : Tidy b w) (hl : findLevel w b side p₀ = some l) (time : DateTime) :
    Placed b side p₀ l none w (resize l 0 time (detach w b l)) := by
  obtain ⟨hlevel, -, -, hnextLevel⟩ := detach_frame w b l
  obtain ⟨hprice, hside⟩ := h.wired.slot hl
  have hplace : (w.level l).place = some p₀ := by simp [PriceLevel.place, h.limit hl, hprice]
  have hfind : ∀ s p, findLevel (detach w b l) b s p = if s = side ∧ p = p₀ then none else findLevel w b s p := by
    intro s p
    have hstored := stored_detach w b l b s (some p)
    rw [hside, hplace] at hstored
    simpa [stored] using hstored
  have hgone : ∀ s p, findLevel (detach w b l) b s p ≠ some l := by
    intro s p hk
    rw [hfind] at hk
    split at hk
    · cases hk
    next hne =>
      obtain ⟨-, hs, hp⟩ := h.wired.slot_inj hl hk
      exact hne ⟨hs, hp⟩
  have htidy : Tidy b (detach w b l) := by
    refine ⟨wired_detach h.wired b l, fun {s p k} hk => ?_⟩
    rw [hfind] at hk
    split at hk
    · cases hk
    · rw [hlevel]
      exact h.limit hk
  refine ⟨htidy.resize l 0 time, fun s p => ?_, ?_, ?_, ?_, fun k _ => ?_, ?_⟩
  · rw [resize, levelAt_modifyLevel_of_not_stored hgone, levelAt, hfind, hlevel]
    split
    · rfl
    · rfl
  · exact (h.wired.lt_nextLevel hl).trans_eq hnextLevel.symm
  · rw [(resize_kept l 0 time _ l).1, hlevel, hside]
  · rw [(resize_kept l 0 time _ l).2, hlevel, hprice]
  · rw [← hlevel]
    exact resize_kept l 0 time _ k
  · exact hnextLevel.ge

end

theorem tidy_cleanupDetached {w : World P} {b : BookRef} (h : Tidy b w) : Tidy b (cleanupDetached w b) := by
  have hsame : Book.SamePlaces (w.book b) { w.book b with detachedLevels := [], detachedEntries := [] } :=
    ⟨rfl, rfl, rfl, rfl⟩
  refine ⟨?_, fun {s p l} hl => ?_⟩
  · exact h.wired.modifyBook (fun hl => hl) (fun hl => hl)
  · exact h.limit ((stored_modifyBook hsame b s (some p)).symm.trans hl)

theorem levelAt_cleanupDetached (w : World P) (b : BookRef) (side : Side) (p : P) :
    levelAt (cleanupDetached w b) b side p = levelAt w b side p := by
  have hsame : Book.SamePlaces (w.book b) { w.book b with detachedLevels := [], detachedEntries := [] } :=
    ⟨rfl, rfl, rfl, rfl⟩
  have hfind : findLevel (cleanupDetached w b) b side p = findLevel w b side p :=
    stored_modifyBook hsame b side (some p)
  rw [levelAt, hfind]
  rfl

/-! ### The edits of the listener -/

variable [Zero P]

/-- What an edit of one level does, and the delta that it adds. -/
structure Edited (c : Settings P) (side : Side) (p₀ : P) (l : LevelRef) (size : Option Int) (change : Int)
    (action : Action) (s s' : State P) : Prop where
  placed : Placed c.book side p₀ l size s.book s'.book
  deltas : s'.deltas = s.deltas.addDelta
    { isBid := decide (side = .bid), price := p₀,
      delta := { priceLevel := some l, plDeltaSize := change, plAction := action } }
  rest : s' = { s with book := s'.book, deltas := s'.deltas }

namespace State

variable {c : Settings P} {side : Side} {s : State P} {l : LevelRef} {p : P}

theorem addDelta_deltas (hside : (s.book.level l).side = side) (hprice : (s.book.level l).price = p)
    {change change' : Int} (hchange : change' = change) (action : Action) :
    (s.addDelta l change' action).deltas = s.deltas.addDelta
      { isBid := decide (side = .bid), price := p,
        delta := { priceLevel := some l, plDeltaSize := change, plAction := action } } := by
  rw [← hside, ← hprice, ← hchange]
  rfl

theorem edited_addLevel (h : Tidy c.book s.book) (hside : side ≠ .unknown) (hsize : 0 ≤ (s.cache.quoted side).size) :
    ∃ l, Edited c side (s.cache.quoted side).price l (some (s.cache.quoted side).size)
      (s.cache.quoted side).size .add s (s.addLevel c side) := by
  have hplaced := placed_findOrCreateLevel h hside (s.cache.quoted side).price hsize s.cache.quoteTime
  exact ⟨_, hplaced, addDelta_deltas hplaced.side hplaced.price rfl _, rfl⟩

theorem edited_updateLevel (h : Tidy c.book s.book) (hl : findLevel s.book c.book side p = some l)
    (hsize : 0 ≤ (s.cache.quoted side).size) :
    Edited c side p l (some (s.cache.quoted side).size)
      ((s.cache.quoted side).size - (s.book.level l).size) .update s (s.updateLevel side l) := by
  have hplaced := placed_resize h hl hsize s.cache.quoteTime
  exact ⟨hplaced, addDelta_deltas hplaced.side hplaced.price rfl _, rfl⟩

theorem edited_deleteLevel (h : Tidy c.book s.book) (hl : findLevel s.book c.book side p = some l) :
    Edited c side p l none 0 .delete s (s.deleteLevel c l) := by
  have hplaced := placed_detach h hl s.cache.quoteTime
  have hchange : 0 - ((resize l 0 s.cache.quoteTime (detach s.book c.book l)).level l).size = 0 := by
    simp [resize, PriceLevel.setSize]
  exact ⟨hplaced, addDelta_deltas hplaced.side hplaced.price hchange _, rfl⟩

theorem currentLevel_eq (c : Settings P) (side : Side) (s : State P) :
    s.currentLevel c side =
      (((bestFirst s.book c.book side).map Prod.snd).filter (isShown s.book)).head? := by
  rw [currentLevel, sideBegin, Cursor.first, (Cursor.skip_settled _ _).get?_eq, Cursor.skip_ahead]

theorem currentLevel_eq_none (hnone : s.currentLevel c side = none) (hl : findLevel s.book c.book side p = some l) :
    (s.book.level l).size = 0 := by
  rw [currentLevel_eq, List.head?_eq_none_iff, List.filter_eq_nil_iff] at hnone
  have hmem : l ∈ (bestFirst s.book c.book side).map Prod.snd := List.mem_map.mpr ⟨(p, l), mem_bestFirst.mpr hl, rfl⟩
  simpa [isShown] using hnone l hmem

theorem currentLevel_eq_some (hsome : s.currentLevel c side = some l) :
    ∃ p, findLevel s.book c.book side p = some l ∧ (s.book.level l).size ≠ 0 := by
  rw [currentLevel_eq] at hsome
  obtain ⟨hmem, hshown⟩ := List.mem_filter.mp (List.mem_of_head? hsome)
  obtain ⟨⟨p, _⟩, hlevel, rfl⟩ := List.mem_map.mp hmem
  exact ⟨p, mem_bestFirst.mp hlevel, by simpa [isShown] using hshown⟩

theorem handleSide_cases (h : Tidy c.book s.book) (hside : side ≠ .unknown) {q : Quoted P}
    (hq : s.cache.quoted side = q) (hsize : 0 ≤ q.size) :
    ((q.got = false ∨ s.currentLevel c side = none ∧ q.isBlank c.isZero) ∧ s.handleSide c side = s) ∨
    ((q.got ∧ s.currentLevel c side = none ∧ q.isBlank c.isZero = false) ∧
      ∃ l, Edited c side q.price l (some q.size) q.size .add s (s.handleSide c side)) ∨
    ∃ l p, q.got ∧ s.currentLevel c side = some l ∧
      findLevel s.book c.book side p = some l ∧ (s.book.level l).size ≠ 0 ∧
      (q.isBlank c.isZero ∧ Edited c side p l none 0 .delete s (s.handleSide c side) ∨
        (q.isBlank c.isZero = false ∧ q.price = p) ∧
          Edited c side p l (some q.size) (q.size - (s.book.level l).size) .update s (s.handleSide c side) ∨
        (q.isBlank c.isZero = false ∧ q.price ≠ p) ∧
          ∃ between l', Edited c side p l none 0 .delete s between ∧
            Edited c side q.price l' (some q.size) q.size .add between (s.handleSide c side)) := by
  subst hq
  unfold handleSide
  dsimp only
  cases hgot : (s.cache.quoted side).got with
  | false => exact .inl ⟨.inl rfl, rfl⟩
  | true =>
    cases hcurrent : s.currentLevel c side with
    | none =>
      cases hblank : (s.cache.quoted side).isBlank c.isZero with
      | true => exact .inl ⟨.inr ⟨rfl, rfl⟩, rfl⟩
      | false => exact .inr (.inl ⟨⟨rfl, rfl, rfl⟩, edited_addLevel h hside hsize⟩)
    | some l =>
      obtain ⟨p, hl, hnonzero⟩ := currentLevel_eq_some hcurrent
      have hprice : (s.book.level l).price = p := (h.wired.slot hl).1
      have hdelete := edited_deleteLevel h hl
      refine .inr (.inr ⟨l, p, rfl, rfl, hl, hnonzero, ?_⟩)
      cases hblank : (s.cache.quoted side).isBlank c.isZero with
      | true => exact .inl ⟨rfl, hdelete⟩
      | false =>
        dsimp only
        rw [hprice]
        by_cases hsame : (s.cache.quoted side).price = p
        · refine .inr (.inl ⟨⟨rfl, hsame⟩, ?_⟩)
          rw [if_pos hsame]
          exact edited_updateLevel h hl hsize
        · refine .inr (.inr ⟨⟨rfl, hsame⟩, s.deleteLevel c l, ?_⟩)
          rw [if_neg hsame]
          obtain ⟨l', hadd⟩ := edited_addLevel hdelete.placed.tidy hside (s := s.deleteLevel c l) hsize
          exact ⟨l', hdelete, hadd⟩

end State

end OpenMama.QuoteBook
