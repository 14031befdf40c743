import OpenMama.OrderBook.Wiring
import Mathlib.Algebra.Order.BigOperators.Group.List

/-!
# A level's figures

`Tally` is what a level's own figures say about its list. `Sound` is the wiring together with every level's tally, for
heaps in which no entry was ever added at a position; it is preserved by every primitive step of the entry operations.
-/

namespace OpenMama.OrderBook

open Book List PriceLevel SameContent

variable {P : Type} [LinearOrder P]

def countedEntries (w : World P) (l : LevelRef) : List EntryRef :=
  (w.level l).entryList.filter (w.counted (w.checkState l))

/-- The size and the counts of a level are those of its entries. -/
structure Tally (w : World P) (l : LevelRef) : Prop where
  size : (w.level l).size = ((countedEntries w l).map fun e => (w.entry e).size).sum
  numEntries : (w.level l).numEntries = (countedEntries w l).length
  numEntriesTotal : (w.level l).numEntriesTotal = (w.level l).entryList.length

/-- A heap without placeholders in which every level's figures are right and every stored level knows
its book. -/
structure Sound (w : World P) : Prop extends Wired w where
  book : ∀ {b s p l}, findLevel w b s p = some l → (w.level l).book = some b
  objects : ∀ {l e}, e ∈ (w.level l).entryList → ∃ n, e = .obj n
  nonneg : ∀ e, 0 ≤ (w.entry e).size
  tally : ∀ l, Tally w l

variable {w : World P} {l : LevelRef} {e : EntryRef} {w' : World P} {n : Nat}

theorem Sound.priceLevel (h : Sound w) (he : e ∈ (w.level l).entryList) : (w.entry e).priceLevel = some l := by
  obtain ⟨n, rfl⟩ := h.objects he
  exact (h.listed he).2

theorem Sound.nodup (h : Sound w) (l : LevelRef) : (w.level l).entryList.Nodup := by
  rw [nodup_iff_count_le_one]
  intro e
  by_cases he : e ∈ (w.level l).entryList
  · obtain ⟨n, rfl⟩ := h.objects he
    exact h.once l n
  · simp [count_eq_zero_of_not_mem he]

theorem Tally.congr (h : Tally w l) (hsize : (w'.level l).size = (w.level l).size)
    (hnum : (w'.level l).numEntries = (w.level l).numEntries)
    (htotal : (w'.level l).numEntriesTotal = (w.level l).numEntriesTotal)
    (hlist : (w'.level l).entryList = (w.level l).entryList)
    (hcheck : w'.checkState l = w.checkState l)
    (hentry : ∀ e ∈ (w.level l).entryList, (w'.entry e).size = (w.entry e).size ∧
      (w'.entry e).isVisible = (w.entry e).isVisible) : Tally w' l := by
  have hcounted : countedEntries w' l = countedEntries w l := by
    simp only [countedEntries, hlist, hcheck]
    refine filter_congr fun e he => ?_
    simp only [World.counted, (hentry e he).2]
  constructor
  · rw [hsize, h.size, hcounted]
    congr 1
    refine map_congr_left fun e he => ?_
    exact (hentry e (mem_of_mem_filter he)).1.symm
  · rw [hnum, h.numEntries, hcounted]
  · rw [htotal, h.numEntriesTotal, hlist]

theorem Tally.of_level_eq (h : Tally w l) (hlevel : w'.level l = w.level l) (hcheck : w'.checkState l = w.checkState l)
    (hentry : ∀ e ∈ (w.level l).entryList, (w'.entry e).size = (w.entry e).size ∧
      (w'.entry e).isVisible = (w.entry e).isVisible) : Tally w' l :=
  h.congr (by rw [hlevel]) (by rw [hlevel]) (by rw [hlevel]) (by rw [hlevel]) hcheck hentry

/-- Two states of a level that differ at most in the size change, the action, the time and the order
type. -/
structure SameLevel (lev lev' : PriceLevel P) : Prop where
  price : lev'.price = lev.price
  side : lev'.side = lev.side
  book : lev'.book = lev.book
  entryList : lev'.entryList = lev.entryList
  size : lev'.size = lev.size
  numEntries : lev'.numEntries = lev.numEntries
  numEntriesTotal : lev'.numEntriesTotal = lev.numEntriesTotal

omit [LinearOrder P] in
theorem SameLevel.refl (lev : PriceLevel P) : SameLevel lev lev := ⟨rfl, rfl, rfl, rfl, rfl, rfl, rfl⟩

theorem checkState_congr (hbook : (w'.level l).book = (w.level l).book)
    (hcheck : ∀ b, (w'.book b).checkVisibility = (w.book b).checkVisibility) :
    w'.checkState l = w.checkState l := by
  simp only [World.checkState, hbook, hcheck]

theorem Sound.congr (h : Sound w) (hfind : ∀ {b s q l}, stored w' b s q = some l → stored w b s q = some l)
    (hcheck : ∀ b, (w'.book b).checkVisibility = (w.book b).checkVisibility)
    (hlevel : ∀ l, SameLevel (w.level l) (w'.level l))
    (hentry : ∀ n < w.nextEntry, (w'.entry (.obj n)).priceLevel = (w.entry (.obj n)).priceLevel ∧
      (w'.entry (.obj n)).size = (w.entry (.obj n)).size ∧
      (w'.entry (.obj n)).isVisible = (w.entry (.obj n)).isVisible)
    (hblank : ∀ k, SameContent (w.entry (.reserved k)) (w'.entry (.reserved k)))
    (hnonneg : ∀ e, 0 ≤ (w'.entry e).size)
    (hnextEntry : w.nextEntry ≤ w'.nextEntry) (hnextLevel : w.nextLevel ≤ w'.nextLevel) :
    Sound w' where
  toWired := h.toWired.congr hfind
    (fun l => ⟨(hlevel l).price, (hlevel l).side, (hlevel l).entryList⟩)
    (fun n hn => (hentry n hn).1) hblank hnextEntry hnextLevel
  book {b s p l} hl := (hlevel _).book.trans (h.book (hfind (q := some p) hl))
  objects he := h.objects ((hlevel _).entryList ▸ he)
  nonneg := hnonneg
  tally l := by
    refine (h.tally l).congr (hlevel l).size (hlevel l).numEntries (hlevel l).numEntriesTotal
      (hlevel l).entryList (checkState_congr (hlevel l).book hcheck) fun e he => ?_
    obtain ⟨n, rfl⟩ := h.objects he
    exact (hentry n (h.listed he).1).2

theorem Sound.newEntry (h : Sound w) {entry : Entry} (hsize : 0 ≤ entry.size) : Sound (w.newEntry entry) := by
  refine h.congr (fun hl => hl) (fun _ => rfl) (fun l => SameLevel.refl _) ?_
    (fun _ => refl _) ?_ (Nat.le_succ _) le_rfl
  · intro n hn
    have hne : EntryRef.obj n ≠ w.freshEntry := fun heq => Nat.ne_of_lt hn (EntryRef.obj.inj heq)
    simp [hne]
  · intro e
    by_cases he : e = w.freshEntry
    · simpa [he] using hsize
    · simpa [he] using h.nonneg e

theorem Sound.modifyEntry (h : Sound w) (n : Nat) {f : Entry → Entry}
    (hsize : (f (w.entry (.obj n))).size = (w.entry (.obj n)).size)
    (hback : (f (w.entry (.obj n))).priceLevel = (w.entry (.obj n)).priceLevel)
    (hsource : (f (w.entry (.obj n))).sourceDeriv = (w.entry (.obj n)).sourceDeriv) :
    Sound (w.modifyEntry (.obj n) f) := by
  refine h.congr (fun hl => hl) (fun _ => rfl) (fun l => SameLevel.refl _) ?_ (fun _ => refl _) ?_ le_rfl le_rfl
  · intro m _
    by_cases hm : m = n
    · subst hm
      simp [hsize, hback, Entry.isVisible_congr hsource]
    · simp [hm]
  · intro x
    by_cases hx : x = .obj n
    · subst hx
      simpa [hsize] using h.nonneg (.obj n)
    · simpa [hx] using h.nonneg x

theorem Sound.modifyLevel (h : Sound w) {g : PriceLevel P → PriceLevel P} (hg : SameLevel (w.level l) (g (w.level l))) :
    Sound (w.modifyLevel l g) := by
  refine h.congr (fun hl => hl) (fun _ => rfl) ?_ (fun _ _ => ⟨rfl, rfl, rfl⟩) (fun _ => refl _) h.nonneg le_rfl le_rfl
  intro l'
  by_cases hl : l' = l
  · subst hl
    simpa using hg
  · simpa [hl] using SameLevel.refl _

theorem Sound.modifyBook (h : Sound w) {b : BookRef} {f : Book P → Book P}
    (hlevels : ∀ {s : Side} {p : P} {l}, ((f (w.book b)).levels s)[p]? = some l → ((w.book b).levels s)[p]? = some l)
    (hmarket : ∀ {s : Side} {l}, (f (w.book b)).marketOrders s = some l → (w.book b).marketOrders s = some l)
    (hcheck : (f (w.book b)).checkVisibility = (w.book b).checkVisibility) :
    Sound (w.modifyBook b f) := by
  refine h.congr ?_ ?_ (fun l => SameLevel.refl _) (fun _ _ => ⟨rfl, rfl, rfl⟩) (fun _ => refl _) h.nonneg le_rfl le_rfl
  · exact Wired.stored_modifyBook hlevels hmarket
  · intro b'
    by_cases hb : b' = b
    · simp [hb, hcheck]
    · simp [hb]

/-! ### Creating levels, listing and erasing entries -/

theorem Sound.insertNewLevel (h : Sound w) {b : BookRef} {side : Side} {price : P} (hside : side ≠ .unknown) :
    Sound (insertLevel (w.newLevel { price := price, side := side, book := some b }) b side price
      w.nextLevel) := by
  set lev : PriceLevel P := { price := price, side := side, book := some b } with hlev
  have hlist : ∀ l, ((w.newLevel lev).level l).entryList = if l = w.nextLevel then [] else (w.level l).entryList := by
    intro l
    by_cases hl : l = w.nextLevel <;> simp [hl, hlev, entryList]
  have hwired : Wired (w.newLevel lev) := h.toWired.newLevel rfl
  refine { toWired := hwired.insertLevel b hside (Nat.lt_succ_self _) ?_ ?_, book := ?_,
           objects := ?_, nonneg := h.nonneg, tally := ?_ }
  · simp [hlev]
  · intro _ s q hl
    exact Nat.lt_irrefl _ (h.allocated hl)
  · intro _ s p l hl
    rw [findLevel_insertLevel hside] at hl
    split at hl
    next hslot =>
      cases hl
      simp [insertLevel, hlev, hslot.1]
    · have hne : l ≠ w.nextLevel := Nat.ne_of_lt (h.lt_nextLevel hl)
      simpa [insertLevel, hne] using h.book hl
  · intro l e (he : e ∈ ((w.newLevel lev).level l).entryList)
    rw [hlist] at he
    split at he
    · simp at he
    · exact h.objects he
  · intro l
    by_cases hl : l = w.nextLevel
    · subst hl
      constructor <;> simp [insertLevel, countedEntries, hlev, entryList]
    · have hcheck : ∀ b', ((insertLevel (w.newLevel lev) b side price w.nextLevel).book b').checkVisibility
          = (w.book b').checkVisibility := by
        intro b'
        by_cases hb : b' = b <;> simp [insertLevel, hb]
      refine (h.tally l).congr ?_ ?_ ?_ ?_ (checkState_congr ?_ hcheck) fun _ _ => ⟨rfl, rfl⟩ <;> simp [insertLevel, hl]

theorem Tally.listEntry (h : Tally w l) (hlist : (w'.level l).entryList.Perm (e :: (w.level l).entryList))
    (hcheck : w'.checkState l = w.checkState l)
    (hentry : ∀ x, (w'.entry x).size = (w.entry x).size
      ∧ (w'.entry x).isVisible = (w.entry x).isVisible)
    (hsize : (w'.level l).size
      = if w.counted (w.checkState l) e then (w.level l).size + (w.entry e).size else (w.level l).size)
    (hnum : (w'.level l).numEntries
      = if w.counted (w.checkState l) e then (w.level l).numEntries + 1 else (w.level l).numEntries)
    (htotal : (w'.level l).numEntriesTotal = (w.level l).numEntriesTotal + 1) : Tally w' l := by
  have hcounted : (countedEntries w' l).Perm
      ((if w.counted (w.checkState l) e then [e] else []) ++ countedEntries w l) := by
    have hc : w'.counted (w'.checkState l) = w.counted (w.checkState l) := by
      funext x
      rw [World.counted, World.counted, hcheck, (hentry x).2]
    have hfilter := hlist.filter (w.counted (w.checkState l))
    rw [countedEntries, hc]
    split
    next he =>
      rwa [filter_cons_of_pos he] at hfilter
    next he =>
      rwa [filter_cons_of_neg he] at hfilter
  constructor
  · rw [(hcounted.map fun x => (w'.entry x).size).sum_eq, hsize, h.size]
    simp only [(hentry _).1]
    split <;> simp [add_comm]
  · rw [hcounted.length_eq, hnum, h.numEntries]
    split <;> simp [add_comm]
  · rw [hlist.length_eq, htotal, h.numEntriesTotal, length_cons]

theorem Tally.addEntry (h : Tally w l) (e : EntryRef) : Tally (addEntry w l e) l := by
  refine h.listEntry (e := e) ?_ (checkState_congr (by simp) fun _ => rfl) (fun x => ⟨by simp, by simp⟩) ?_ ?_ ?_
  · rw [addEntry_entryList, if_pos rfl]
    exact perm_append_singleton e _
  all_goals simp [PriceLevel.addEntry]

theorem Tally.addEntryAt (h : Tally w l) (e : EntryRef) {entryPosition : Nat}
    (hlist : .reserved l ∉ (w.level l).entryList) (hposition : entryPosition ≤ (w.level l).entryList.length + 1) :
    Tally (addEntryAt w l e entryPosition) l := by
  obtain ⟨hperm, hone⟩ := insertAt_perm e hlist hposition
  refine h.listEntry (e := e) ?_ (checkState_congr (by simp [PriceLevel.addEntryAt]) fun _ => rfl)
    (fun x => ⟨by simp, by simp⟩) ?_ ?_ ?_
  · simpa [PriceLevel.addEntryAt, PriceLevel.entryList] using hperm
  all_goals simp [PriceLevel.addEntryAt, hone]

theorem Sound.listEntry (h : Sound w) (hw' : Wired w')
    (hlist : ∀ e ∈ (w'.level l).entryList, e = .obj n ∨ e ∈ (w.level l).entryList)
    (hothers : ∀ l', l' ≠ l → w'.level l' = w.level l') (hlevelBook : (w'.level l).book = (w.level l).book)
    (hbook : w'.book = w.book)
    (hentry : ∀ x, (w'.entry x).size = (w.entry x).size ∧ (w'.entry x).isVisible = (w.entry x).isVisible)
    (htally : Tally w' l) : Sound w' := by
  have hlevelBook' : ∀ l', (w'.level l').book = (w.level l').book := by
    intro l'
    by_cases hl : l' = l
    · rw [hl, hlevelBook]
    · rw [hothers l' hl]
  refine { toWired := hw', book := ?_, objects := ?_, nonneg := ?_, tally := ?_ }
  · intro b s p _ hl'
    rw [findLevel, hbook] at hl'
    rw [hlevelBook']
    exact h.book hl'
  · intro l' e he
    by_cases hl : l' = l
    · subst hl
      rcases hlist e he with rfl | hold
      · exact ⟨n, rfl⟩
      · exact h.objects hold
    · rw [hothers l' hl] at he
      exact h.objects he
  · intro e
    rw [(hentry e).1]
    exact h.nonneg e
  · intro l'
    by_cases hl : l' = l
    · exact hl ▸ htally
    · exact (h.tally l').of_level_eq (hothers l' hl)
        (checkState_congr (hlevelBook' l') fun b => by rw [hbook]) fun e _ => hentry e

theorem Sound.addEntry (h : Sound w) (l : LevelRef) (hn : n < w.nextEntry)
    (hfresh : ∀ l', .obj n ∉ (w.level l').entryList) : Sound (addEntry w l (.obj n)) := by
  refine h.listEntry (l := l) (n := n) (h.toWired.addEntry (.inr ⟨n, rfl, hn, hfresh⟩)) ?_
    (fun l' hl => by simp [PriceLevel.addEntry, hl]) (by simp) rfl (fun x => ⟨by simp, by simp⟩)
    ((h.tally l).addEntry _)
  intro e he
  rw [addEntry_entryList, if_pos rfl, mem_append, mem_singleton] at he
  exact he.symm

theorem Sound.addEntryAt (h : Sound w) (l : LevelRef) (hn : n < w.nextEntry)
    (hfresh : ∀ l', .obj n ∉ (w.level l').entryList) {entryPosition : Nat}
    (hposition : entryPosition ≤ (w.level l).entryList.length + 1) :
    Sound (addEntryAt w l (.obj n) entryPosition) := by
  have hlist : .reserved l ∉ (w.level l).entryList := fun he => by
    obtain ⟨n, hn⟩ := h.objects he
    cases hn
  refine h.listEntry (l := l) (n := n) (h.toWired.addEntryAt (.inr ⟨n, rfl, hn, hfresh⟩) entryPosition) ?_
    (fun l' hl => by simp [PriceLevel.addEntryAt, hl]) (by simp [PriceLevel.addEntryAt]) rfl
    (fun x => ⟨by simp, by simp⟩) ((h.tally l).addEntryAt _ hlist hposition)
  intro e he
  have hperm := (insertAt_perm (.obj n) hlist hposition).1
  have hmem : e ∈ (insertAt l (w.level l).entryList (.obj n) entryPosition).1 := by
    simpa [PriceLevel.addEntryAt, PriceLevel.entryList] using he
  exact mem_cons.mp (hperm.mem_iff.mp hmem)

private theorem tally_erase (h : Tally w l) (hnonneg : ∀ x ∈ (w.level l).entryList, 0 ≤ (w.entry x).size)
    (he : e ∈ (w.level l).entryList) :
    let rest := ((w.level l).entryList.erase e).filter (w.counted (w.checkState l))
    (if w.counted (w.checkState l) e then clampQuantity ((w.level l).size - (w.entry e).size)
      else (w.level l).size) = (rest.map fun x => (w.entry x).size).sum ∧
    (if w.counted (w.checkState l) e then (w.level l).numEntries - 1
      else (w.level l).numEntries) = rest.length := by
  obtain ⟨hsize, hnum, -⟩ := h
  rw [hsize, hnum, ← erase_filter]
  by_cases hc : w.counted (w.checkState l) e
  · have hmem : e ∈ countedEntries w l := mem_filter.mpr ⟨he, hc⟩
    have hsum := sum_map_erase (fun x => (w.entry x).size) hmem
    have hrest : 0 ≤ (((countedEntries w l).erase e).map fun x => (w.entry x).size).sum := by
      refine sum_nonneg fun q hq => ?_
      obtain ⟨x, hx, rfl⟩ := mem_map.mp hq
      exact hnonneg x (mem_of_mem_filter (mem_of_mem_erase hx))
    rw [if_pos hc, if_pos hc, ← hsum, add_sub_cancel_left, clampQuantity_of_nonneg hrest]
    exact ⟨rfl, (length_erase_of_mem hmem).symm⟩
  · have hmem : e ∉ countedEntries w l := fun hm => hc (mem_filter.mp hm).2
    rw [if_neg hc, if_neg hc]
    have herase := erase_of_not_mem hmem
    rw [countedEntries] at herase ⊢
    rw [herase]
    exact ⟨rfl, rfl⟩

theorem checkState_eraseEntry (w : World P) (l l' : LevelRef) (e : EntryRef) :
    (eraseEntry w l e).checkState l' = w.checkState l' := by
  refine checkState_congr ?_ fun b => eraseEntry_checkVisibility w l e b
  rw [eraseEntry_level]
  split
  next hl => rw [hl]
  · rfl

theorem Tally.eraseEntry (h : Tally w l) (hnonneg : ∀ x ∈ (w.level l).entryList, 0 ≤ (w.entry x).size)
    (he : e ∈ (w.level l).entryList) : Tally (PriceLevel.eraseEntry w l e) l := by
  set w' := PriceLevel.eraseEntry w l e with hw'
  have hlevel := PriceLevel.eraseEntry_level w l l e
  have hentry : w'.entry = w.entry := PriceLevel.eraseEntry_entry w l e
  have hlist : (w'.level l).entryList = (w.level l).entryList.erase e := by
    rw [hlevel, if_pos rfl]
    rfl
  have hcounted : ∀ b, w'.counted b = w.counted b := by
    intro b
    funext x
    simp only [World.counted, hentry]
  have hrest : countedEntries w' l = ((w.level l).entryList.erase e).filter (w.counted (w.checkState l)) := by
    rw [countedEntries, hlist, hw', checkState_eraseEntry, hcounted]
  obtain ⟨hsize, hnum⟩ := tally_erase h hnonneg he
  constructor
  · rw [hrest, hentry, ← hsize, hlevel, if_pos rfl]
  · rw [hrest, ← hnum, hlevel, if_pos rfl]
  · rw [hlist, length_erase_of_mem he, hlevel, if_pos rfl, ← h.numEntriesTotal]

theorem Sound.eraseEntry (h : Sound w) (he : e ∈ (w.level l).entryList) : Sound (eraseEntry w l e) := by
  have hlevel := fun l' => eraseEntry_level w l l' e
  have hentry := eraseEntry_entry w l e
  refine { toWired := h.toWired.eraseEntry l e, book := ?_, objects := ?_, nonneg := ?_, tally := ?_ }
  · intro b s p _ hl'
    rw [findLevel_eraseEntry] at hl'
    rw [hlevel]
    split
    next hl => exact hl ▸ h.book hl'
    · exact h.book hl'
  · intro _ x hx
    rw [hlevel] at hx
    split at hx
    · exact h.objects (mem_of_mem_erase hx)
    · exact h.objects hx
  · intro x
    rw [hentry]
    exact h.nonneg x
  · intro l'
    by_cases hl : l' = l
    · subst hl
      exact (h.tally l').eraseEntry (fun x _ => h.nonneg x) he
    · exact (h.tally l').of_level_eq (by rw [hlevel, if_neg hl]) (checkState_eraseEntry w l l' e) fun x _ => by simp

/-! ### Changing the size of an entry -/

private theorem sum_map_resize {es : List EntryRef} (hnodup : es.Nodup) (he : e ∈ es) (f : EntryRef → Int) (v : Int) :
    (es.map fun x => if x = e then v else f x).sum = (es.map f).sum + (v - f e) := by
  have hold := sum_map_erase f he
  have hnew := sum_map_erase (fun x => if x = e then v else f x) he
  have hrest : (es.erase e).map (fun x => if x = e then v else f x) = (es.erase e).map f := by
    refine map_congr_left fun x hx => if_neg ?_
    exact fun heq => hnodup.not_mem_erase (heq ▸ hx)
  rw [hrest, if_pos rfl] at hnew
  omega

theorem Tally.sum_resize (h : Tally w l) (hnodup : (w.level l).entryList.Nodup) (he : e ∈ (w.level l).entryList)
    (size : Int) :
    ((countedEntries w l).map fun x => if x = e then size else (w.entry x).size).sum =
      (w.level l).size + if w.counted (w.checkState l) e then size - (w.entry e).size else 0 := by
  rw [h.size]
  by_cases hc : w.counted (w.checkState l) e
  · have hmem := mem_filter.mpr ⟨he, hc⟩
    have hnodup' : (countedEntries w l).Nodup := hnodup.filter _
    rw [if_pos hc, sum_map_resize hnodup' hmem]
  · rw [if_neg hc, add_zero]
    congr 1
    refine map_congr_left fun x hx => if_neg ?_
    rintro rfl
    exact hc (mem_filter.mp hx).2

theorem Tally.resize_nonneg (h : Tally w l) (hnodup : (w.level l).entryList.Nodup)
    (hnonneg : ∀ x ∈ (w.level l).entryList, 0 ≤ (w.entry x).size) (he : e ∈ (w.level l).entryList) {size : Int}
    (hsize : 0 ≤ size) (hcounted : w.counted (w.checkState l) e) :
    0 ≤ (w.level l).size + (size - (w.entry e).size) := by
  have hsum := h.sum_resize hnodup he size
  rw [if_pos hcounted] at hsum
  rw [← hsum]
  refine sum_nonneg fun q hq => ?_
  obtain ⟨x, hx, rfl⟩ := mem_map.mp hq
  split
  · exact hsize
  · exact hnonneg x (mem_of_mem_filter hx)

theorem Tally.resizeEntry (h : Tally w l) (hnodup : (w.level l).entryList.Nodup) (he : e ∈ (w.level l).entryList)
    {size : Int} (time : DateTime) {g : PriceLevel P → PriceLevel P}
    (hg : SameLevel
      { w.level l with
        size := (w.level l).size +
          (if w.counted (w.checkState l) e then size - (w.entry e).size else 0) }
      (g (w.level l))) :
    Tally ((w.modifyLevel l g).modifyEntry e fun x => { x with size := size, time := time }) l := by
  set w' := (w.modifyLevel l g).modifyEntry e fun x => { x with size := size, time := time } with hw'
  have hsizes : ∀ x, (w'.entry x).size = if x = e then size else (w.entry x).size := by
    intro x
    by_cases hx : x = e <;> simp [hw', hx]
  have hvisible : ∀ x, (w'.entry x).isVisible = (w.entry x).isVisible := by
    intro x
    apply Entry.isVisible_congr
    by_cases hx : x = e <;> simp [hw', hx]
  have hself : w'.level l = g (w.level l) := by simp [hw']
  have hlist : (w'.level l).entryList = (w.level l).entryList := by rw [hself, hg.entryList]; rfl
  have hcheck : w'.checkState l = w.checkState l := checkState_congr (by rw [hself, hg.book]) fun _ => rfl
  have hcounted : countedEntries w' l = countedEntries w l := by
    rw [countedEntries, hlist, hcheck]
    exact filter_congr fun x _ => by simp only [World.counted, hvisible]
  constructor
  · rw [hcounted, hself, hg.size, ← h.sum_resize hnodup he size]
    simp only [hsizes]
  · rw [hcounted, hself, hg.numEntries, h.numEntries]
  · rw [hlist, hself, hg.numEntriesTotal, h.numEntriesTotal]

theorem Sound.resizeEntry (h : Sound w)
    (he : e ∈ (w.level l).entryList) {size : Int} (hsize : 0 ≤ size) (time : DateTime)
    {g : PriceLevel P → PriceLevel P}
    (hg : SameLevel
      { w.level l with
        size := (w.level l).size +
          (if w.counted (w.checkState l) e then size - (w.entry e).size else 0) }
      (g (w.level l))) :
    Sound ((w.modifyLevel l g).modifyEntry e fun x => { x with size := size, time := time }) := by
  obtain ⟨n, rfl⟩ := h.objects he
  set w' := (w.modifyLevel l g).modifyEntry (.obj n) fun x => { x with size := size, time := time }
    with hw'
  have hother : ∀ l', l' ≠ l → w'.level l' = w.level l' := fun l' hl => by simp [hw', hl]
  have hself : w'.level l = g (w.level l) := by simp [hw']
  have hlevel : ∀ l', (w'.level l').book = (w.level l').book ∧ (w'.level l').entryList = (w.level l').entryList := by
    intro l'
    by_cases hl : l' = l
    · subst hl
      rw [hself]
      exact ⟨hg.book, hg.entryList⟩
    · rw [hother l' hl]
      exact ⟨rfl, rfl⟩
  refine { toWired := (h.toWired.modifyLevel ⟨hg.price, hg.side, hg.entryList⟩).modifyEntry n rfl,
           book := ?_, objects := ?_, nonneg := ?_, tally := ?_ }
  · intro b s p l' hl'
    exact (hlevel l').1.trans (h.book hl')
  · intro l' x hx
    exact h.objects ((hlevel l').2 ▸ hx)
  · intro x
    by_cases hx : x = .obj n
    · simpa [hw', hx] using hsize
    · simpa [hw', hx] using h.nonneg x
  · intro l'
    by_cases hl : l' = l
    · subst hl
      exact (h.tally l').resizeEntry (h.nodup l') he time hg
    · refine (h.tally l').of_level_eq (hother l' hl) (checkState_congr (hlevel l').1 fun _ => rfl) fun x hx => ?_
      have hne : x ≠ .obj n := fun heq => h.not_mem_of_ne he hl (heq ▸ hx)
      simp [hw', hne]

end OpenMama.OrderBook
