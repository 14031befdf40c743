import OpenMama.OrderBook.View

/-!
# What an operation does to the places of a book

An operation on one place of a book leaves a level there (`Stores`) or empties it (`Vacates`). A run of such
operations is `Confined` to its book: it changes the levels the book held and those it allocates, with their entries.
-/

namespace OpenMama.OrderBook

open Book

variable {P : Type} [LinearOrder P]

/-- The place `(b, s, q)` holds the level `l`; nothing else changed. -/
structure Stores (b : BookRef) (s : Side) (q : Option P) (l : LevelRef) (w w' : World P) : Prop where
  wired : Wired w'
  frame : Frame l w w'
  stored : ∀ b' s' q', stored w' b' s' q' =
    if b' = b ∧ s' = s ∧ q' = q then some l else stored w b' s' q'
  check : ∀ b', (w'.book b').checkVisibility = (w.book b').checkVisibility

namespace Stores

variable {b : BookRef} {s : Side} {q : Option P} {l : LevelRef} {w w' : World P}

theorem stored_self (h : Stores b s q l w w') : OrderBook.stored w' b s q = some l := by
  rw [h.stored, if_pos ⟨rfl, rfl, rfl⟩]

theorem of_stored (hwired : Wired w') (hframe : Frame l w w')
    (hstored : ∀ b' s' q', OrderBook.stored w' b' s' q' = OrderBook.stored w b' s' q')
    (hcheck : ∀ b', (w'.book b').checkVisibility = (w.book b').checkVisibility)
    (hl : OrderBook.stored w b s q = some l) : Stores b s q l w w' := by
  refine ⟨hwired, hframe, fun b' s' q' => ?_, hcheck⟩
  rw [hstored]
  split
  next heq => rw [heq.1, heq.2.1, heq.2.2, hl]
  · rfl

theorem placeView_self (h : Stores b s q l w w') : placeView w' b s q = some (levelView w' l) := by
  rw [placeView, h.stored_self, Option.map_some]

theorem placeView_other (h : Stores b s q l w w') (hw : Wired w) {b' : BookRef} {s' : Side}
    {q' : Option P} (hne : ¬ (b' = b ∧ s' = s ∧ q' = q)) :
    placeView w' b' s' q' = placeView w b' s' q' := by
  have hother := h.stored b' s' q'
  rw [if_neg hne] at hother
  refine Untouched.placeView hother fun l' hl' => h.frame.untouched hw ?_
  rintro rfl
  exact hne (h.wired.owner h.stored_self (hother.trans hl'))

end Stores

/-- The place `(b, s, q)`, which held the level `l`, is empty; nothing else changed but `l`. -/
structure Vacates (b : BookRef) (s : Side) (q : Option P) (l : LevelRef) (w w' : World P) : Prop where
  wired : Wired w'
  frame : Frame l w w'
  stored : ∀ b' s' q', stored w' b' s' q' =
    if b' = b ∧ s' = s ∧ q' = q then none else stored w b' s' q'
  check : ∀ b', (w'.book b').checkVisibility = (w.book b').checkVisibility

namespace Vacates

variable {b : BookRef} {s : Side} {q : Option P} {l : LevelRef} {w w' : World P}

theorem placeView_self (h : Vacates b s q l w w') : placeView w' b s q = none := by
  rw [placeView_eq_none, h.stored, if_pos ⟨rfl, rfl, rfl⟩]

theorem placeView_other (h : Vacates b s q l w w') (hw : Wired w)
    (hl : OrderBook.stored w b s q = some l) {b' : BookRef} {s' : Side} {q' : Option P}
    (hne : ¬ (b' = b ∧ s' = s ∧ q' = q)) : placeView w' b' s' q' = placeView w b' s' q' := by
  have hother := h.stored b' s' q'
  rw [if_neg hne] at hother
  refine Untouched.placeView hother fun l' hl' => h.frame.untouched hw ?_
  rintro rfl
  exact hne (hw.owner hl hl')

theorem of_stores {w'' : World P} (hstores : Stores b s q l w w') (h : Vacates b s q l w' w'') :
    Vacates b s q l w w'' := by
  refine ⟨h.wired, hstores.frame.trans h.frame, fun b' s' q' => ?_, ?_⟩
  · rw [h.stored]
    split
    · rfl
    next hne => rw [hstores.stored, if_neg hne]
  · exact fun b' => (h.check b').trans (hstores.check b')

end Vacates

structure Book.SamePlaces (book book' : Book P) : Prop where
  bidLevels : book'.bidLevels = book.bidLevels
  askLevels : book'.askLevels = book.askLevels
  bidMarketOrders : book'.bidMarketOrders = book.bidMarketOrders
  askMarketOrders : book'.askMarketOrders = book.askMarketOrders

theorem Book.SamePlaces.levels {book book' : Book P} (h : SamePlaces book book') (s : Side) :
    book'.levels s = book.levels s := by
  cases s <;> simp [Book.levels, h.bidLevels, h.askLevels]

theorem Book.SamePlaces.marketOrders {book book' : Book P} (h : SamePlaces book book') (s : Side) :
    book'.marketOrders s = book.marketOrders s := by
  cases s <;> simp [Book.marketOrders, h.bidMarketOrders, h.askMarketOrders]

theorem stored_modifyBook {w : World P} {b : BookRef} {f : Book P → Book P}
    (hf : SamePlaces (w.book b) (f (w.book b))) (b' : BookRef) (s : Side) (q : Option P) :
    stored (w.modifyBook b f) b' s q = stored w b' s q := by
  by_cases hb : b' = b
  · subst hb
    cases q <;> simp [stored, findLevel, hf.levels, hf.marketOrders]
  · exact stored_congr (by simp [hb]) s q

theorem placeView_modifyBook {w : World P} {b : BookRef} {f : Book P → Book P}
    (hf : SamePlaces (w.book b) (f (w.book b))) (b' : BookRef) (s : Side) (q : Option P) :
    placeView (w.modifyBook b f) b' s q = placeView w b' s q :=
  Untouched.placeView (stored_modifyBook hf b' s q) fun _ _ => ⟨rfl, fun _ _ => rfl⟩

structure Within (L : LevelRef → Prop) (w w' : World P) : Prop where
  level : ∀ l, ¬ L l → w'.level l = w.level l
  entry : ∀ n < w.nextEntry, (∀ l, L l → .obj n ∉ (w.level l).entryList) →
    w'.entry (.obj n) = w.entry (.obj n)
  reserved : ∀ l, ¬ L l → w'.entry (.reserved l) = w.entry (.reserved l)
  kept : ∀ l n, L l → .obj n ∈ (w'.level l).entryList →
    (∃ l', L l' ∧ .obj n ∈ (w.level l').entryList) ∨ w.nextEntry ≤ n
  nextEntry : w.nextEntry ≤ w'.nextEntry
  nextLevel : w.nextLevel ≤ w'.nextLevel

namespace Within

variable {L : LevelRef → Prop} {w w' w'' : World P}

theorem refl (L : LevelRef → Prop) (w : World P) : Within L w w :=
  ⟨fun _ _ => rfl, fun _ _ _ => rfl, fun _ _ => rfl, fun l _ hl he => .inl ⟨l, hl, he⟩, le_rfl, le_rfl⟩

theorem untouched (h : Within L w w') (hw : Wired w) {l : LevelRef} (hl : ¬ L l) : Untouched w w' l where
  level := h.level l hl
  entry e he := by
    cases e with
    | obj n =>
      refine h.entry n (hw.listed he).1 fun l' hl' => hw.not_mem_of_ne he ?_
      rintro rfl
      exact hl hl'
    | reserved k =>
      obtain rfl := hw.placeholder he
      exact h.reserved k hl

theorem frame (h : Within L w w') {l : LevelRef} (hl : L l) (hframe : Frame l w' w'') : Within L w w'' where
  level l' hl' := by
    have hne : l' ≠ l := fun heq => hl' (heq ▸ hl)
    rw [hframe.level l' hne, h.level l' hl']
  entry n hn hmem := by
    refine (hframe.entry n (hn.trans_le h.nextEntry) fun hmem' => ?_).trans (h.entry n hn hmem)
    rcases h.kept l n hl hmem' with ⟨l', hl', hold⟩ | hnew
    · exact hmem l' hl' hold
    · exact absurd hn hnew.not_gt
  reserved l' hl' := by
    have hne : l' ≠ l := fun heq => hl' (heq ▸ hl)
    rw [hframe.reserved l' hne, h.reserved l' hl']
  kept l' n hl' hn := by
    by_cases heq : l' = l
    · subst heq
      rcases hframe.kept n hn with hmid | hnew
      · exact h.kept l' n hl' hmid
      · exact .inr (h.nextEntry.trans hnew)
    · rw [hframe.level l' heq] at hn
      exact h.kept l' n hl' hn
  nextEntry := h.nextEntry.trans hframe.nextEntry
  nextLevel := h.nextLevel.trans hframe.nextLevel

end Within

/-! ### Levels found, created and detached -/

def PriceLevel.place (lev : PriceLevel P) : Option P :=
  if lev.orderType = .market then none else some lev.price

section

variable {w : World P} {b : BookRef} {side : Side} {l : LevelRef}

theorem detach_frame (w : World P) (b : BookRef) (l : LevelRef) :
    (detach w b l).level = w.level ∧ (detach w b l).entry = w.entry ∧
      (detach w b l).nextEntry = w.nextEntry ∧ (detach w b l).nextLevel = w.nextLevel := by
  unfold detach
  dsimp only
  split
  · exact ⟨rfl, rfl, rfl, rfl⟩
  · split <;> exact ⟨rfl, rfl, rfl, rfl⟩

theorem stored_detach (w : World P) (b : BookRef) (l : LevelRef) (b' : BookRef) (s : Side) (q : Option P) :
    stored (detach w b l) b' s q =
      if b' = b ∧ s = (w.level l).side ∧ q = (w.level l).place then none else stored w b' s q := by
  unfold detach PriceLevel.place
  by_cases htype : (w.level l).orderType = .market
  · rw [if_pos htype, if_pos htype]
    by_cases hside : (w.level l).side = .unknown
    · -- There are no market orders on the unknown side.
      rw [hside]
      have hsame : stored (w.modifyBook b (·.setMarketOrders .unknown none)) b' s q = stored w b' s q :=
        stored_congr (by by_cases hb : b' = b <;> simp [hb, Book.setMarketOrders]) s q
      rw [hsame]
      split
      next hplace =>
        rw [hplace.2.1, hplace.2.2]
        rfl
      · rfl
    · exact stored_setMarketOrders hside
  · rw [if_neg htype, if_neg htype]
    by_cases hfind : (findLevel w b (w.level l).side (w.level l).price).isSome
    · rw [if_pos hfind, ← stored_eraseLevel]
      cases q <;> by_cases hb : b' = b <;> simp [stored, findLevel, hb] <;>
        cases s <;> simp [Book.levels, Book.marketOrders]
    · rw [if_neg hfind]
      split
      next hplace =>
        rw [hplace.1, hplace.2.1, hplace.2.2]
        simpa [stored] using hfind
      · rfl

theorem wired_detach (h : Wired w) (b : BookRef) (l : LevelRef) : Wired (detach w b l) := by
  obtain ⟨hlevel, hentry, hnextEntry, hnextLevel⟩ := detach_frame w b l
  refine h.congr ?_ (fun l' => by rw [hlevel]; exact ⟨rfl, rfl, rfl⟩) (fun n _ => by rw [hentry])
    (fun k => by rw [hentry]; exact SameContent.refl _) hnextEntry.ge hnextLevel.ge
  intro _ s q k hk
  rw [stored_detach] at hk
  split at hk
  · cases hk
  · exact hk

theorem Wired.not_stored_nextLevel (h : Wired w) (b' : BookRef) (s : Side) (q : Option P) :
    stored w b' s q ≠ some w.nextLevel := fun hl => Nat.lt_irrefl _ (h.allocated hl)

theorem findOrCreateLevel_of_some {price : P} (hl : stored w b side (some price) = some l) :
    findOrCreateLevel w b side price side = (w, l, .update) := by
  simp only [findOrCreateLevel, show findLevel w b side price = some l from hl]

theorem findOrCreateLevel_of_none (h : Wired w) (hside : side ≠ .unknown) {price : P}
    (hnone : stored w b side (some price) = none) :
    ∃ w', findOrCreateLevel w b side price side = (w', w.nextLevel, .add) ∧
      Stores b side (some price) w.nextLevel w w' ∧
      w'.level w.nextLevel = { price := price, side := side, book := some b } := by
  refine ⟨insertLevel (w.newLevel { price := price, side := side, book := some b }) b side price
      w.nextLevel, ?_, ⟨?_, (Frame.newLevel w rfl).modifyBook b _, fun _ _ _ => stored_insertLevel hside, fun b' => ?_⟩,
      ?_⟩
  · simp only [findOrCreateLevel, show findLevel w b side price = none from hnone]
  · exact (h.newLevel rfl).insertLevel b hside (Nat.lt_succ_self _) (by simp) h.not_stored_nextLevel
  · by_cases hb : b' = b <;> simp [insertLevel, hb]
  · simp [insertLevel]

end

def Reaches (b : BookRef) (w : World P) (l : LevelRef) : Prop :=
  w.nextLevel ≤ l ∨ ∃ s q, stored w b s q = some l

theorem not_reaches {b b' : BookRef} {w : World P} (h : Wired w) {s : Side} {q : Option P}
    {l : LevelRef} (hl : stored w b' s q = some l) (hne : b' ≠ b) : ¬ Reaches b w l := by
  rintro (hnew | ⟨_, _, hl'⟩)
  · exact absurd (h.allocated hl) hnew.not_gt
  · exact hne (h.owner hl' hl).1

/-- What a run on book `b` leaves as it was. -/
structure Confined (b : BookRef) (w w' : World P) : Prop where
  wired : Wired w'
  within : Within (Reaches b w) w w'
  reaches : ∀ {s q l}, stored w' b s q = some l → Reaches b w l
  stored : ∀ b' s q, b' ≠ b → stored w' b' s q = stored w b' s q
  check : ∀ b', (w'.book b').checkVisibility = (w.book b').checkVisibility

namespace Confined

variable {b b' : BookRef} {s : Side} {q : Option P} {l : LevelRef} {w w' w'' : World P}

theorem refl (h : Wired w) (b : BookRef) : Confined b w w :=
  ⟨h, Within.refl _ w, fun hl => .inr ⟨_, _, hl⟩, fun _ _ _ _ => rfl, fun _ => rfl⟩

variable (h : Confined b w w')
include h

theorem stores (hstores : Stores b s q l w' w'') (hl : Reaches b w l) : Confined b w w'' where
  wired := hstores.wired
  within := h.within.frame hl hstores.frame
  reaches {s' q' l'} hl' := by
    rw [hstores.stored] at hl'
    split at hl'
    · cases hl'
      exact hl
    · exact h.reaches hl'
  stored c s' q' hc := by
    rw [hstores.stored, if_neg fun heq => hc heq.1]
    exact h.stored c s' q' hc
  check c := (hstores.check c).trans (h.check c)

theorem vacates (hvacates : Vacates b s q l w' w'') (hl : Reaches b w l) : Confined b w w'' where
  wired := hvacates.wired
  within := h.within.frame hl hvacates.frame
  reaches {s' q' l'} hl' := by
    rw [hvacates.stored] at hl'
    split at hl'
    · cases hl'
    · exact h.reaches hl'
  stored c s' q' hc := by
    rw [hvacates.stored, if_neg fun heq => hc heq.1]
    exact h.stored c s' q' hc
  check c := (hvacates.check c).trans (h.check c)

theorem untouched (hw : Wired w) (hl : OrderBook.stored w b' s q = some l) (hne : b' ≠ b) : Untouched w w' l :=
  h.within.untouched hw (not_reaches hw hl hne)

end Confined

end OpenMama.OrderBook
