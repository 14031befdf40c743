import OpenMama.OrderBook.Iteration
import OpenMama.OrderBook.EntryCalls
import OpenMama.OrderBook.Aggregates

/-!
# Positions and iteration

The entry iterators, `getEntryAtPosition` and `getPosition` agree when the figures of the levels are right, every
level with an entry has a size, and there are no placeholders in the lists. `positions_agree_of_updates_held` says
which calls keep a book that way.
-/

namespace OpenMama.OrderBook

open Book PriceLevel World List

variable {P : Type} [LinearOrder P]

def sideEntries (w : World P) (b : BookRef) (side : Side) : List EntryRef :=
  (bestFirst w b side).flatMap fun place => (w.level place.2).entryList

/-- The three readings of a side see the entries of the side, each once and in this order. -/
structure PositionsAgree (w : World P) (b : BookRef) (side : Side) : Prop where
  nodup : (sideEntries w b side).Nodup
  iterated : ∀ n, (sideEntries w b side).length ≤ n →
    visitEntries w n (sideEntryBegin w b side) = some (sideEntries w b side)
  atPosition : ∀ pos, getEntryAtPosition w b pos side = (sideEntries w b side)[pos]?
  position : ∀ pos e, (sideEntries w b side)[pos]? = some e → Entry.getPosition w e 0 = .ok pos

/-- No book checks source states, every entry has a size, and the figures of the levels are right. -/
structure Standing (w : World P) : Prop extends Sound w where
  unchecked : Unchecked w
  positive : ∀ n < w.nextEntry, 0 < (w.entry (.obj n)).size

namespace Standing

variable {w : World P} {b : BookRef} {side : Side} {e : EntryRef}

theorem visited_eq (w : World P) (b : BookRef) (side : Side) :
    (sideBegin w b side).visited (Book.isShown w)
      = ((bestFirst w b side).map Prod.snd).filter (Book.isShown w) := by
  rw [sideBegin, Cursor.first, (Cursor.skip_settled _ _).visited_eq, Cursor.skip_ahead]

variable (h : Standing w)
include h

theorem countedEntries_eq (l : LevelRef) : countedEntries w l = (w.level l).entryList :=
  filter_eq_self.mpr fun e _ => h.unchecked.counted l e

theorem size_pos {l : LevelRef} (he : e ∈ (w.level l).entryList) : 0 < (w.entry e).size := by
  obtain ⟨n, rfl⟩ := h.objects he
  exact h.positive n (h.listed he).1

theorem isShown_iff (l : LevelRef) : Book.isShown w l ↔ (w.level l).entryList ≠ [] := by
  have hsize : (w.level l).size = ((w.level l).entryList.map fun e => (w.entry e).size).sum := by
    rw [(h.tally l).size, h.countedEntries_eq]
  rw [Book.isShown, decide_eq_true_iff, hsize]
  constructor
  · rintro hne hempty
    simp [hempty] at hne
  · intro hne
    have hpos : 0 < ((w.level l).entryList.map fun e => (w.entry e).size).sum := by
      refine sum_pos _ (fun x hx => ?_) (by simpa using hne)
      obtain ⟨e, he, rfl⟩ := mem_map.mp hx
      exact h.size_pos he
    exact ne_of_gt hpos

theorem entryShown (e : EntryRef) : isShown w e := by
  have hcheck : w.entryCheckState e = false := by
    unfold entryCheckState
    split
    · exact h.unchecked.checkState _
    · rfl
  simp [PriceLevel.isShown, counted, hcheck]

theorem numEntries_eq (l : LevelRef) : (w.level l).numEntries = (w.level l).entryList.length := by
  rw [(h.tally l).numEntries, h.countedEntries_eq]

theorem flatMap_filter (levels : List LevelRef) :
    (levels.filter (Book.isShown w)).flatMap (fun l => (w.level l).entryList)
      = levels.flatMap fun l => (w.level l).entryList := by
  induction levels with
  | nil => rfl
  | cons l _ ih =>
    by_cases hl : isShown w l
    · rw [filter_cons_of_pos hl, flatMap_cons, flatMap_cons, ih]
    · have hempty : (w.level l).entryList = [] := by
        by_contra hne
        exact hl ((h.isShown_iff l).mpr hne)
      rw [filter_cons_of_neg hl, flatMap_cons, hempty, ih, nil_append]

theorem sideEntries_eq :
    sideEntries w b side
      = ((sideBegin w b side).visited (Book.isShown w)).flatMap fun l => (w.level l).entryList := by
  rw [visited_eq, h.flatMap_filter, flatMap_map]
  rfl

/-! ### The three readings -/

theorem iterated {n : Nat} (hn : (sideEntries w b side).length ≤ n) :
    visitEntries w n (sideEntryBegin w b side) = some (sideEntries w b side) := by
  have hbegin : ∀ l, (entryBegin w l).Settled (PriceLevel.isShown w) := fun l e _ => h.entryShown e
  have helements : ∀ l, Nested.elements (entryBegin w) (isShown w) l = (w.level l).entryList := by
    intro l
    have hahead : (entryBegin w l).ahead = (w.level l).entryList := by
      rw [entryBegin, Cursor.first]
      cases (w.level l).entryList with
      | nil => rfl
      | cons e _ => rw [Cursor.skip, if_pos (h.unchecked.counted l e)]
    rw [Nested.elements, hahead]
    exact filter_eq_self.mpr fun e _ => h.entryShown e
  have hlevels : (sideBegin w b side).Settled (Book.isShown w) := Cursor.skip_settled _ _
  obtain ⟨hsettled, hrest⟩ := Nested.enter_seek hbegin hlevels _
  have hside : (sideEntryBegin w b side).rest (Book.isShown w) (entryBegin w) (isShown w) = sideEntries w b side := by
    rw [sideEntryBegin, Nested.first, hrest, h.sideEntries_eq, hlevels.visited_eq]
    exact flatMap_congr fun l _ => helements l
  rw [← hside]
  exact hsettled.visit_eq hbegin (le_of_eq_of_le (congrArg length hside) hn)

theorem entryAtPosition_eq (levels : List LevelRef) (pos : Nat) :
    entryAtPosition w pos levels = (levels.flatMap fun l => (w.level l).entryList)[pos]? := by
  induction levels generalizing pos with
  | nil => simp [entryAtPosition]
  | cons l _ ih =>
    rw [entryAtPosition, h.numEntries_eq, flatMap_cons]
    by_cases hle : (w.level l).entryList.length ≤ pos
    · rw [if_pos hle, ih, getElem?_append_right hle]
    · rw [if_neg hle, getElem?_append_left (by omega), PriceLevel.getEntryAtPosition]
      rw [show (w.level l).entryList.filter (w.counted (w.checkState l)) = _ from h.countedEntries_eq l]

theorem atPosition (hside : side ≠ .unknown) (pos : Nat) :
    getEntryAtPosition w b pos side = (sideEntries w b side)[pos]? := by
  rw [h.sideEntries_eq, ← h.entryAtPosition_eq]
  cases side with
  | bid => rfl
  | ask => rfl
  | unknown => exact absurd rfl hside

theorem visibleEntries_eq (l : LevelRef) : visibleEntries w l = (w.level l).entryList := by
  have hdrop : (w.level l).entryList.dropWhile (fun e => !w.counted (w.checkState l) e) = (w.level l).entryList := by
    cases (w.level l).entryList with
    | nil => rfl
    | cons e _ => simp [h.unchecked.counted l e]
  rw [visibleEntries, hdrop]
  cases (w.level l).entryList with
  | nil => rfl
  | cons e _ =>
    simp only [cons.injEq, true_and]
    exact filter_eq_self.mpr fun e _ => h.entryShown e

theorem positionFrom_eq {l : LevelRef} {behind : P → P → Bool} {operation : String}
    (he : e ∈ (w.level l).entryList) {levels : List LevelRef} (hl : l ∈ levels)
    (hbehind : levels.Pairwise fun a b => behind (w.level a).price (w.level b).price = false) (pos : Nat) :
    Entry.positionFrom w e l 0 behind operation pos levels
      = .ok (pos + (levels.flatMap fun l => (w.level l).entryList).idxOf e) := by
  induction levels generalizing pos with
  | nil => simp at hl
  | cons level levels ih =>
    obtain ⟨hfirst, htail⟩ := pairwise_cons.mp hbehind
    rw [flatMap_cons, Entry.positionFrom]
    by_cases hlevel : level = l
    · subst hlevel
      rw [if_neg (by simp), h.visibleEntries_eq, if_pos he, idxOf_append_of_mem he]
    · have hmem : l ∈ levels := (mem_cons.mp hl).resolve_left (Ne.symm hlevel)
      have hnot := h.toWired.not_mem_of_ne he hlevel
      have hprice : ¬ behind (w.level level).price (w.level l).price := by
        rw [hfirst l hmem]
        exact Bool.false_ne_true
      rw [if_pos hlevel, if_neg hprice, h.numEntries_eq, idxOf_append_of_notMem hnot]
      simp only [Entry.capped, Nat.lt_irrefl, false_and, if_false]
      rw [ih hmem htail, Nat.add_assoc]

theorem pairwise_visited (b : BookRef) (side : Side) :
    ((sideBegin w b side).visited (Book.isShown w)).Pairwise
      fun a b => Ahead side.descending (w.level a).price (w.level b).price := by
  have hsorted := OrderedMap.pairwise_ranked (d := side.descending) ((w.book b).levels side)
  rw [visited_eq]
  refine List.Pairwise.filter _ (pairwise_map.mpr (hsorted.imp_of_mem ?_))
  rintro ⟨p, l⟩ ⟨_, _⟩ hl hl' hahead
  rw [(h.slot (mem_bestFirst.mp hl)).1, (h.slot (mem_bestFirst.mp hl')).1]
  exact hahead

theorem getPosition_eq (hside : side ≠ .unknown) (he : e ∈ sideEntries w b side) :
    Entry.getPosition w e 0 = .ok ((sideEntries w b side).idxOf e) := by
  simp only [sideEntries, mem_flatMap, Prod.exists, mem_bestFirst] at he
  obtain ⟨p, l, hl, hmem⟩ := he
  have hvisited : l ∈ (sideBegin w b side).visited (Book.isShown w) := by
    rw [visited_eq]
    exact mem_filter.mpr ⟨mem_map.mpr ⟨(p, l), mem_bestFirst.mpr hl, rfl⟩, (h.isShown_iff l).mpr (ne_nil_of_mem hmem)⟩
  have hsorted := h.pairwise_visited b side
  rw [h.sideEntries_eq]
  simp only [Entry.getPosition, h.priceLevel hmem, h.book hl, (h.slot hl).2]
  cases side with
  | bid | ask =>
    refine (h.positionFrom_eq hmem hvisited (hsorted.imp fun hahead => ?_) 0).trans (by rw [Nat.zero_add])
    exact decide_eq_false (lt_asymm hahead)
  | unknown => exact absurd rfl hside

theorem nodup_sideEntries : (sideEntries w b side).Nodup := by
  refine nodup_flatMap.mpr ⟨fun place _ => h.toSound.nodup place.2, ?_⟩
  apply (OrderedMap.pairwise_ranked _).imp_of_mem
  rintro ⟨p, l⟩ ⟨_, l'⟩ hl hl' hahead e he he'
  have hne : l' ≠ l := by
    rintro rfl
    have hp := (h.slot (mem_bestFirst.mp hl)).1.symm.trans (h.slot (mem_bestFirst.mp hl')).1
    exact hahead.ne hp
  exact h.toWired.not_mem_of_ne he hne he'

theorem positionsAgree (b : BookRef) (hside : side ≠ .unknown) : PositionsAgree w b side where
  nodup := h.nodup_sideEntries
  iterated _ hn := h.iterated hn
  atPosition := h.atPosition hside
  position pos e he := by
    obtain ⟨hlt, hget⟩ := List.getElem?_eq_some_iff.mp he
    rw [h.getPosition_eq hside (mem_of_getElem? he), ← hget, h.nodup_sideEntries.idxOf_getElem]

end Standing

/-! ### The calls that keep it so -/

def listLength (w : World P) (b : BookRef) (side : Side) (price : P) : Nat :=
  match findLevel w b side price with
  | some l => (w.level l).entryList.length
  | none => 0

inductive PlacedCall (P : Type) where
  | addEntry (entry : Entry) (price : P) (side : Side) (eventTime : DateTime)
      (entryPosition : Option Nat)
  | updateEntry (e : EntryRef) (size : Int) (eventTime : DateTime)
  | deleteEntry (e : EntryRef) (eventTime : DateTime)

namespace PlacedCall

def apply (b : BookRef) (w : World P) : PlacedCall P → World P
  | addEntry entry price side eventTime none =>
    (Book.addEntry (w.newEntry entry) b w.freshEntry price side eventTime {}).1
  | addEntry entry price side eventTime (some entryPosition) =>
    (addEntryAt (w.newEntry entry) b w.freshEntry price side eventTime {} entryPosition).1
  | updateEntry e size eventTime => (Book.updateEntry w b e size eventTime {}).state.1
  | deleteEntry e eventTime => (Book.deleteEntry w b e eventTime {}).state.1

def Admissible : PlacedCall P → Prop
  | addEntry entry _ _ _ _ => 0 < entry.size
  | updateEntry _ size _ => 0 < size
  | deleteEntry _ _ => True

instance : DecidablePred (Admissible : PlacedCall P → Prop)
  | addEntry entry _ _ _ _ => inferInstanceAs (Decidable (0 < entry.size))
  | updateEntry _ size _ => inferInstanceAs (Decidable (0 < size))
  | deleteEntry _ _ => isTrue trivial

/-- An entry that is updated is in the book, or was never in a level (and the call throws); a position
is not beyond the end of the list. -/
def Fits (w : World P) (b : BookRef) : PlacedCall P → Prop
  | addEntry _ price side _ (some entryPosition) => entryPosition ≤ listLength w b side price + 1
  | updateEntry e _ _ => (w.entry e).priceLevel = none ∨ Holds w b e
  | _ => True

end PlacedCall

variable {w : World P} {b : BookRef}

theorem Sound.addEntrySideAt (h : Sound w) {side : Side} {price : P} (eventTime : DateTime) {n : Nat}
    (hside : side ≠ .unknown) (hn : n < w.nextEntry) (hfresh : ∀ l, .obj n ∉ (w.level l).entryList)
    {entryPosition : Nat} (hposition : entryPosition ≤ listLength w b side price + 1) :
    Sound (addEntrySideAt w b side (.obj n) price side eventTime entryPosition).1 := by
  rcases hfoc : Book.findOrCreateLevel w b side price side with ⟨w', l, a⟩
  obtain ⟨hw', -, -, hnext, hlists⟩ := h.findOrCreateLevel hside hfoc
  have hlength : (w'.level l).entryList.length = listLength w b side price := by
    unfold Book.findOrCreateLevel at hfoc
    split at hfoc
    next _ hl₀ =>
      cases hfoc
      simp only [listLength, hl₀]
    next hnone =>
      cases hfoc
      simp [listLength, hnone, insertLevel, entryList]
  simp only [Book.addEntrySideAt, hfoc]
  refine Sound.addEntryAt (hw'.modifyLevel ⟨rfl, rfl, rfl, rfl, rfl, rfl, rfl⟩) l ?_ ?_ ?_
  · simpa [hnext] using hn
  · intro l' he
    refine hfresh l' (hlists l' _ ?_)
    by_cases hl : l' = l
    · subst hl
      simpa [entryList] using he
    · simpa [hl] using he
  · rw [← hlength] at hposition
    simpa [entryList] using hposition

structure SameChecks (w w' : World P) : Prop where
  check : ∀ b, (w'.book b).checkVisibility = (w.book b).checkVisibility
  nextEntry : w'.nextEntry = w.nextEntry
  size : ∀ e, (w'.entry e).size = (w.entry e).size

theorem SameChecks.trans {w₁ w₂ w₃ : World P} (h₁ : SameChecks w₁ w₂) (h₂ : SameChecks w₂ w₃) : SameChecks w₁ w₃ :=
  ⟨fun b => (h₂.check b).trans (h₁.check b), h₂.nextEntry.trans h₁.nextEntry,
    fun e => (h₂.size e).trans (h₁.size e)⟩

theorem Standing.of_sameChecks {w' : World P} (h : Standing w) (hw' : Sound w') (hsame : SameChecks w w') :
    Standing w' where
  toSound := hw'
  unchecked b := (hsame.check b).trans (h.unchecked b)
  positive n hn := by
    rw [hsame.size]
    exact h.positive n (hsame.nextEntry ▸ hn)

section

variable (w) (b) (bookSide : Side)

theorem findOrCreateLevel_sameChecks (price : P) (side : Side) :
    SameChecks w (findOrCreateLevel w b bookSide price side).1 := by
  unfold findOrCreateLevel
  split
  · exact ⟨fun _ => rfl, rfl, fun _ => rfl⟩
  · refine ⟨fun b' => ?_, rfl, fun _ => rfl⟩
    by_cases hb : b' = b <;> simp [insertLevel, hb]

theorem addEntrySide_sameChecks (e : EntryRef) (price : P) (side : Side) (eventTime : DateTime) :
    SameChecks w (addEntrySide w b bookSide e price side eventTime).1 := by
  have hfoc := findOrCreateLevel_sameChecks w b bookSide price side
  exact hfoc.trans ⟨fun _ => rfl, rfl, fun x => by simp [addEntrySide]⟩

theorem addEntrySideAt_sameChecks (e : EntryRef) (price : P) (side : Side) (eventTime : DateTime)
    (entryPosition : Nat) :
    SameChecks w (addEntrySideAt w b bookSide e price side eventTime entryPosition).1 := by
  have hfoc := findOrCreateLevel_sameChecks w b bookSide price side
  exact hfoc.trans ⟨fun _ => rfl, rfl, fun x => by simp [addEntrySideAt]⟩

theorem detach_sameChecks (l : LevelRef) : SameChecks w (detach w b l) := by
  unfold detach
  dsimp only
  split
  · refine ⟨fun b' => ?_, rfl, fun _ => rfl⟩
    by_cases hb : b' = b <;> simp [hb]
  · split
    · refine ⟨fun b' => ?_, rfl, fun _ => rfl⟩
      by_cases hb : b' = b <;> simp [eraseLevel, hb]
    · exact ⟨fun _ => rfl, rfl, fun _ => rfl⟩

theorem deleteEntry_sameChecks (e : EntryRef) (eventTime : DateTime) (delta : BasicDelta) :
    SameChecks w (deleteEntry w b e eventTime delta).state.1 := by
  unfold deleteEntry
  split
  · exact ⟨fun _ => rfl, rfl, fun _ => rfl⟩
  next l _ =>
    dsimp only [Outcome.ok_state]
    set timed := w.modifyLevel l fun lev =>
      { lev with time := if w.counted (w.book b).checkVisibility e then eventTime else lev.time }
    have hremoved : SameChecks w (removeEntry timed l e) := by
      unfold removeEntry
      split
      · exact ⟨fun b' => by simp [timed], by simp [timed], fun x => by simp [timed]⟩
      · exact ⟨fun _ => rfl, rfl, fun _ => rfl⟩
    split
    · exact hremoved.trans (detach_sameChecks _ b l)
    · exact hremoved

end

theorem Standing.newEntry (h : Standing w) {entry : Entry} (hsize : 0 < entry.size) : Standing (w.newEntry entry) where
  toSound := h.toSound.newEntry hsize.le
  unchecked := h.unchecked
  positive n hn := by
    by_cases hlast : n = w.nextEntry
    · simpa [newEntry, hlast, freshEntry] using hsize
    · have hlt : n < w.nextEntry := Nat.lt_of_le_of_ne (Nat.lt_succ_iff.mp hn) hlast
      simpa [newEntry, freshEntry, hlast] using h.positive n hlt

theorem Standing.updateEntry (h : Standing w) {e : EntryRef} {size : Int} (eventTime : DateTime) (delta : BasicDelta)
    (hsize : 0 < size) (htarget : (w.entry e).priceLevel = none ∨ Holds w b e) :
    Standing (updateEntry w b e size eventTime delta).state.1 := by
  have hsound := h.toSound.updateEntry eventTime delta hsize.le htarget
  have hparts : (∀ b', ((Book.updateEntry w b e size eventTime delta).state.1.book b').checkVisibility
        = (w.book b').checkVisibility)
      ∧ (Book.updateEntry w b e size eventTime delta).state.1.nextEntry = w.nextEntry
      ∧ ∀ x, ((Book.updateEntry w b e size eventTime delta).state.1.entry x).size = size
        ∨ ((Book.updateEntry w b e size eventTime delta).state.1.entry x).size = (w.entry x).size := by
    unfold Book.updateEntry
    split
    · exact ⟨fun _ => rfl, rfl, fun _ => .inr rfl⟩
    · dsimp only [Outcome.ok_state]
      refine ⟨fun _ => ?_, ?_, fun x => ?_⟩
      · split <;> split <;> rfl
      · split <;> split <;> rfl
      · by_cases hx : x = e
        · split <;> split <;> simp [hx]
        · split <;> split <;> simp [hx]
  refine ⟨hsound, fun b' => (hparts.1 b').trans (h.unchecked b'), fun n hn => ?_⟩
  rcases hparts.2.2 (.obj n) with hx | hx
  · rwa [hx]
  · rw [hx]
    exact h.positive n (hparts.2.1 ▸ hn)

theorem Standing.apply (h : Standing w) {call : PlacedCall P} (hcall : call.Admissible) (hfits : call.Fits w b) :
    Standing (call.apply b w) := by
  cases call with
  | addEntry entry price side eventTime entryPosition =>
    have hnew := h.newEntry hcall
    have hlt : w.nextEntry < (w.newEntry entry).nextEntry := Nat.lt_succ_self _
    have hfresh : ∀ l, .obj w.nextEntry ∉ ((w.newEntry entry).level l).entryList :=
      h.toWired.freshEntry_not_mem
    cases entryPosition with
    | none =>
      cases side with
      | bid | ask =>
        exact hnew.of_sameChecks (hnew.toSound.addEntrySide price eventTime (by decide) hlt hfresh)
          (addEntrySide_sameChecks _ b _ _ price _ eventTime)
      | unknown => exact hnew
    | some entryPosition =>
      cases side with
      | bid | ask =>
        exact hnew.of_sameChecks
          (hnew.toSound.addEntrySideAt eventTime (by decide) hlt hfresh hfits)
          (addEntrySideAt_sameChecks _ b _ _ price _ eventTime entryPosition)
      | unknown => exact hnew
  | updateEntry e _ eventTime => exact h.updateEntry eventTime {} hcall hfits
  | deleteEntry e eventTime =>
    exact h.of_sameChecks (h.toSound.deleteEntry b e eventTime {}) (deleteEntry_sameChecks w b e eventTime {})

/-- From an empty book, after any calls in which updates are given entries of the book and no position is beyond its
list, the three readings of a side agree. -/
theorem positions_agree_of_updates_held [Inhabited P] (source : BookRef → Option SourceDerivative)
    (b : BookRef) (calls : List (PlacedCall P))
    (hcalls : Along (PlacedCall.apply b) (fun w call => call.Admissible ∧ call.Fits w b)
      (init (fun _ => false) source) calls) (side : Side) (hside : side ≠ .unknown) :
    PositionsAgree (calls.foldl (PlacedCall.apply b) (init (fun _ => false) source)) b side := by
  refine Standing.positionsAgree ?_ b hside
  have hinit : Standing (init (fun _ => false) source : World P) :=
    ⟨sound_init _ _, fun _ => rfl, fun n hn => absurd hn (Nat.not_lt_zero n)⟩
  exact hcalls.invariant hinit fun w call hw hcall => hw.apply hcall.1 hcall.2

def placedCalls : List (PlacedCall Int) :=
  [.addEntry { id := some "a", size := 5 } 10 .bid {} none,
    .addEntry { id := some "b", size := 3 } 10 .bid {} (some 1),
    .addEntry { id := some "c", size := 4 } 11 .bid {} none,
    .updateEntry (.obj 0) 7 {}, .deleteEntry (.obj 1) {}]

theorem positions_agree_placedCalls :
    PositionsAgree (placedCalls.foldl (PlacedCall.apply 0) (init (fun _ => false) fun _ => none)) 0
      .bid := by
  refine positions_agree_of_updates_held (fun _ => none) 0 placedCalls ?_ .bid (by decide)
  refine ⟨⟨by decide, trivial⟩, ⟨by decide, show _ ≤ _ from by decide⟩, ⟨by decide, trivial⟩,
    ⟨by decide, ?_⟩,
    ⟨trivial, trivial⟩, trivial⟩
  exact .inr ⟨.bid, 10, 0, by decide, by decide⟩

def deleteThenShrink : List (PlacedCall Int) :=
  [.addEntry { id := some "a", size := 5 } 10 .bid {} none,
    .addEntry { id := some "b", size := 3 } 10 .bid {} none,
    .deleteEntry (.obj 0) {}, .updateEntry (.obj 0) 2 {}]

theorem not_positions_agree_deleteThenShrink :
    ¬ PositionsAgree (deleteThenShrink.foldl (PlacedCall.apply 0)
        (init (fun _ => false) fun _ => none)) 0 .bid
      ∧ ¬ PositionsAgree (PlacedCall.apply 0 (init (fun _ => false) fun _ => none)
        (.addEntry { id := some "a", size := 5 } (10 : Int) .bid {} (some 3))) 0 .bid := by
  constructor
  · intro h
    have hiterated := h.iterated 1 (by decide)
    revert hiterated
    decide
  · intro h
    have hnodup := h.nodup
    revert hnodup
    decide

end OpenMama.OrderBook
