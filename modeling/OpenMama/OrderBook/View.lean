import OpenMama.OrderBook.Apply
import OpenMama.OrderBook.Wiring

/-!
# What a book holds, and what a step leaves alone

`bookView` is what a reader of a book sees: for each side and price the level's figures and its entries, in order.
`Frame l₀ w w'` says that from `w` to `w'` nothing changed but the level `l₀`, the entries it lists and what was
allocated on the way.
-/

namespace OpenMama.OrderBook

open Book PriceLevel

variable {P : Type} [LinearOrder P]

/-- What a copy of an entry keeps: its id, its size, its source, and whether it has a position. An entry
without an id is never copied to a position. -/
structure EntryView where
  id : Option String
  size : Int
  sourceDeriv : Option SourceDerivative
  positioned : Bool
deriving DecidableEq

structure LevelView where
  size : Int
  numEntries : Nat
  numEntriesTotal : Nat
  entries : List EntryView
deriving DecidableEq

def Entry.view (entry : Entry) : EntryView where
  id := entry.id
  size := entry.size
  sourceDeriv := entry.sourceDeriv
  positioned := entry.entryPositionReceived && entry.id.isSome

def entryView (w : World P) (e : EntryRef) : EntryView := (w.entry e).view

def entryViews (w : World P) (l : LevelRef) : List EntryView :=
  (w.level l).entryList.map (entryView w)

variable {w w' : World P} {l : LevelRef} {b : BookRef} {s : Side}

theorem entryViews_congr (hentry : w'.entry = w.entry) (hlist : (w'.level l).entryList = (w.level l).entryList) :
    entryViews w' l = entryViews w l := by
  rw [entryViews, hlist]
  exact List.map_congr_left fun e _ => by rw [entryView, hentry, entryView]

variable (w)

def levelView (l : LevelRef) : LevelView where
  size := (w.level l).size
  numEntries := (w.level l).numEntries
  numEntriesTotal := (w.level l).numEntriesTotal
  entries := entryViews w l

def bookView (b : BookRef) (s : Side) (p : P) : Option LevelView :=
  (findLevel w b s p).map (levelView w)

def placeView (b : BookRef) (s : Side) (q : Option P) : Option LevelView :=
  (stored w b s q).map (levelView w)

theorem placeView_some (b : BookRef) (s : Side) (p : P) :
    placeView w b s (some p) = bookView w b s p := rfl

variable {w}

theorem bookView_of_findLevel {p : P} (hl : findLevel w b s p = some l) : bookView w b s p = some (levelView w l) := by
  rw [bookView, hl, Option.map_some]

theorem bookView_eq_none {p : P} : bookView w b s p = none ↔ findLevel w b s p = none := by
  rw [bookView, Option.map_eq_none_iff]

theorem placeView_eq_none {q : Option P} : placeView w b s q = none ↔ stored w b s q = none := by
  rw [placeView, Option.map_eq_none_iff]

/-- The level and its entries are as they were. -/
structure Untouched (w w' : World P) (l : LevelRef) : Prop where
  level : w'.level l = w.level l
  entry : ∀ e ∈ (w.level l).entryList, w'.entry e = w.entry e

theorem Untouched.refl (w : World P) (l : LevelRef) : Untouched w w l := ⟨rfl, fun _ _ => rfl⟩

theorem Untouched.trans {w₁ w₂ w₃ : World P} (h₁ : Untouched w₁ w₂ l) (h₂ : Untouched w₂ w₃ l) : Untouched w₁ w₃ l where
  level := h₂.level.trans h₁.level
  entry e he := (h₂.entry e (by rwa [h₁.level])).trans (h₁.entry e he)

theorem Untouched.entryViews (h : Untouched w w' l) : entryViews w' l = entryViews w l := by
  rw [OrderBook.entryViews, h.level]
  exact List.map_congr_left fun e he => by rw [entryView, h.entry e he, entryView]

theorem Untouched.levelView (h : Untouched w w' l) : levelView w' l = levelView w l := by
  rw [OrderBook.levelView, OrderBook.levelView, h.level, h.entryViews]

theorem Untouched.placeView {q : Option P} (hstored : stored w' b s q = stored w b s q)
    (h : ∀ l, stored w b s q = some l → Untouched w w' l) : placeView w' b s q = placeView w b s q := by
  rw [OrderBook.placeView, OrderBook.placeView, hstored]
  cases hl : stored w b s q with
  | none => rfl
  | some l => rw [Option.map_some, Option.map_some, (h l hl).levelView]

theorem Wired.untouched_newEntry (h : Wired w) (entry : Entry) (l : LevelRef) : Untouched w (w.newEntry entry) l where
  level := rfl
  entry e he := by
    have hne : e ≠ w.freshEntry := fun heq => h.freshEntry_not_mem l (heq ▸ he)
    simp [hne]

/-! ### Frames -/

/-- A step that touches one level and the entries in its list. -/
structure Frame (l₀ : LevelRef) (w w' : World P) : Prop where
  level : ∀ l, l ≠ l₀ → w'.level l = w.level l
  entry : ∀ n < w.nextEntry, .obj n ∉ (w.level l₀).entryList →
    w'.entry (.obj n) = w.entry (.obj n)
  reserved : ∀ l, l ≠ l₀ → w'.entry (.reserved l) = w.entry (.reserved l)
  kept : ∀ n, .obj n ∈ (w'.level l₀).entryList →
    .obj n ∈ (w.level l₀).entryList ∨ w.nextEntry ≤ n
  nextEntry : w.nextEntry ≤ w'.nextEntry
  nextLevel : w.nextLevel ≤ w'.nextLevel

namespace Frame

variable {l₀ : LevelRef} {w w' : World P} {e : EntryRef}

theorem refl (l₀ : LevelRef) (w : World P) : Frame l₀ w w :=
  ⟨fun _ _ => rfl, fun _ _ _ => rfl, fun _ _ => rfl, fun _ h => .inl h, le_rfl, le_rfl⟩

theorem untouched (h : Frame l₀ w w') (hw : Wired w) (hl : l ≠ l₀) : Untouched w w' l where
  level := h.level l hl
  entry e he := by
    cases e with
    | obj n => exact h.entry n (hw.listed he).1 (hw.not_mem_of_ne he hl.symm)
    | reserved k =>
      obtain rfl := hw.placeholder he
      exact h.reserved k hl

theorem trans {w'' : World P} (h₁ : Frame l₀ w w') (h₂ : Frame l₀ w' w'') : Frame l₀ w w'' where
  level l hl := (h₂.level l hl).trans (h₁.level l hl)
  entry n hn hmem := by
    refine (h₂.entry n (hn.trans_le h₁.nextEntry) fun hmem' => ?_).trans (h₁.entry n hn hmem)
    rcases h₁.kept n hmem' with hold | hnew
    · exact hmem hold
    · exact absurd hn hnew.not_gt
  reserved l hl := (h₂.reserved l hl).trans (h₁.reserved l hl)
  kept n hn := by
    rcases h₂.kept n hn with hmid | hnew
    · exact h₁.kept n hmid
    · exact .inr (h₁.nextEntry.trans hnew)
  nextEntry := h₁.nextEntry.trans h₂.nextEntry
  nextLevel := h₁.nextLevel.trans h₂.nextLevel

/-! The steps. Each extends a frame of everything done before it. -/

theorem newEntry (h : Frame l₀ w w') (entry : Entry) : Frame l₀ w (w'.newEntry entry) := by
  refine { h with entry := ?_, nextEntry := h.nextEntry.trans (Nat.le_succ _) }
  intro n hn hmem
  have hne : EntryRef.obj n ≠ w'.freshEntry := fun heq =>
    Nat.ne_of_lt (hn.trans_le h.nextEntry) (EntryRef.obj.inj heq)
  simpa [hne] using h.entry n hn hmem

theorem newLevel (w : World P) {lev : PriceLevel P} (hlev : lev.entryList = []) :
    Frame w.nextLevel w (w.newLevel lev) := by
  refine { refl w.nextLevel w with level := ?_, kept := ?_, nextLevel := Nat.le_succ _ }
  · intro l hl
    simp [hl]
  · intro n hn
    simp [hlev] at hn

theorem modifyLevel (h : Frame l₀ w w') {g : PriceLevel P → PriceLevel P}
    (hg : ∀ e ∈ (g (w'.level l₀)).entryList, e ∈ (w'.level l₀).entryList) :
    Frame l₀ w (w'.modifyLevel l₀ g) := by
  refine { h with level := ?_, kept := ?_ }
  · intro l hl
    simpa [hl] using h.level l hl
  · intro n hn
    rw [World.modifyLevel_level, if_pos rfl] at hn
    exact h.kept n (hg _ hn)

theorem modifyBook (h : Frame l₀ w w') (b : BookRef) (f : Book P → Book P) :
    Frame l₀ w (w'.modifyBook b f) := { h with }

def Own (l₀ : LevelRef) (w : World P) : EntryRef → Prop
  | .obj n => .obj n ∈ (w.level l₀).entryList ∨ w.nextEntry ≤ n
  | .reserved l => l = l₀

variable (h : Frame l₀ w w')
include h

theorem own_of_mem (hw' : Wired w') (he : e ∈ (w'.level l₀).entryList) : Own l₀ w e := by
  cases e with
  | obj n => exact h.kept n he
  | reserved k => exact hw'.placeholder he

theorem modifyEntry (he : Own l₀ w e) (f : Entry → Entry) : Frame l₀ w (w'.modifyEntry e f) := by
  refine { h with entry := ?_, reserved := ?_ }
  · intro n hn hmem
    have hne : EntryRef.obj n ≠ e := by
      rintro rfl
      rcases he with hold | hnew
      · exact hmem hold
      · exact absurd hn hnew.not_gt
    simpa [hne] using h.entry n hn hmem
  · intro l hl
    have hne : EntryRef.reserved l ≠ e := by
      rintro rfl
      exact hl he
    simpa [hne] using h.reserved l hl

theorem listEntry (he : Own l₀ w e) {f : Entry → Entry} {g : PriceLevel P → PriceLevel P}
    (hg : ∀ x ∈ (g (w'.level l₀)).entryList, x = e ∨ x = .reserved l₀ ∨ x ∈ (w'.level l₀).entryList) :
    Frame l₀ w ((w'.modifyEntry e f).modifyLevel l₀ g) := by
  refine { h.modifyEntry he f with level := ?_, kept := ?_ }
  · intro l hl
    simpa [hl] using h.level l hl
  · intro n hn
    rw [World.modifyLevel_level, if_pos rfl] at hn
    rcases hg _ hn with rfl | hres | hold
    · exact he
    · cases hres
    · exact h.kept n hold

theorem addEntry (he : Own l₀ w e) : Frame l₀ w (addEntry w' l₀ e) := by
  unfold PriceLevel.addEntry
  refine h.listEntry he fun x hx => ?_
  rcases List.mem_append.mp hx with hold | hnew
  · exact .inr (.inr hold)
  · exact .inl (List.mem_singleton.mp hnew)

theorem addEntryAt (he : Own l₀ w e) (entryPosition : Nat) : Frame l₀ w (addEntryAt w' l₀ e entryPosition) := by
  unfold PriceLevel.addEntryAt
  exact h.listEntry he fun x hx => mem_insertAt hx

theorem eraseEntry (e : EntryRef) : Frame l₀ w (eraseEntry w' l₀ e) := by
  constructor
  · intro l hl
    rw [eraseEntry_level, if_neg hl]
    exact h.level l hl
  · intro n hn hmem
    rw [eraseEntry_entry]
    exact h.entry n hn hmem
  · intro l hl
    rw [eraseEntry_entry]
    exact h.reserved l hl
  · intro n hn
    rw [eraseEntry_level, if_pos rfl] at hn
    exact h.kept n (List.mem_of_mem_erase hn)
  · simpa using h.nextEntry
  · simpa using h.nextLevel

end Frame

end OpenMama.OrderBook
