import OpenMama.DepthFilter.Filter
import OpenMama.Lib.BestOf

/-!
# What the operations of the filter can change

Everything the filter does to its own state is a change to the view and the window of one side. `Moved` says which
view and window a piece of code leaves there, and that all else is as it was. Each operation has one such fact, and
they compose.
-/

namespace OpenMama.DepthFilter

open OrderBook Book State

variable {P : Type} [LinearOrder P] {s s' s'' : State P} {side : Side}
  {levels levels' : Std.TreeMap P LevelRef} {win win' : Window P}

def State.view (s : State P) (side : Side) : Std.TreeMap P LevelRef :=
  (s.world.book s.truncatedBook).levels side

def SameQuote (x y : OrderBook.PriceLevel P) : Prop :=
  x.price = y.price ∧ x.side = y.side ∧ x.size = y.size

/-- What no step of the filter changes. -/
structure Kept (s s' : State P) : Prop where
  truncatedBook : s'.truncatedBook = s.truncatedBook
  maxDepth : s'.maxDepth = s.maxDepth
  level : ∀ l, SameQuote (s'.world.level l) (s.world.level l)
  book : ∀ b, b ≠ s.truncatedBook → s'.world.book b = s.world.book b

namespace Kept

theorem refl (s : State P) : Kept s s := ⟨rfl, rfl, fun _ => ⟨rfl, rfl, rfl⟩, fun _ _ => rfl⟩

theorem trans (h : Kept s s') (h' : Kept s' s'') : Kept s s'' where
  truncatedBook := h'.truncatedBook.trans h.truncatedBook
  maxDepth := h'.maxDepth.trans h.maxDepth
  level l := by
    obtain ⟨hprice, hside, hsize⟩ := h.level l
    obtain ⟨hprice', hside', hsize'⟩ := h'.level l
    exact ⟨hprice'.trans hprice, hside'.trans hside, hsize'.trans hsize⟩
  book b hb := (h'.book b (h.truncatedBook ▸ hb)).trans (h.book b hb)

theorem isShown (h : Kept s s') : isShown s'.world = isShown s.world := by
  funext l
  unfold Book.isShown
  rw [(h.level l).2.2]

theorem getLevelAtPosition (h : Kept s s') {b : BookRef} (hb : b ≠ s.truncatedBook) (pos : Nat) (side : Side) :
    getLevelAtPosition s'.world b pos side = getLevelAtPosition s.world b pos side := by
  have hbegin : ∀ x, sideBegin s'.world b x = sideBegin s.world b x := fun x => by
    unfold sideBegin bestFirst
    rw [h.isShown, h.book b hb]
  unfold Book.getLevelAtPosition Book.bidBegin Book.askBegin
  rw [h.isShown, hbegin, hbegin]

end Kept

/-- A step that leaves one side with these levels and this window. -/
structure Moved (s s' : State P) (side : Side) (levels : Std.TreeMap P LevelRef) (win : Window P) : Prop where
  kept : Kept s s'
  view : s'.view side = levels
  window : s'.window side = win
  other : ∀ x, x ≠ side → x ≠ .unknown → s'.view x = s.view x ∧ s'.window x = s.window x

def Still (s s' : State P) (side : Side) : Prop := Moved s s' side (s.view side) (s.window side)

variable {p : P} {l : LevelRef}

theorem Moved.trans (h : Moved s s' side levels win) (h' : Moved s' s'' side levels' win') :
    Moved s s'' side levels' win' where
  kept := h.kept.trans h'.kept
  view := h'.view
  window := h'.window
  other x hx hu := ⟨(h'.other x hx hu).1.trans (h.other x hx hu).1, (h'.other x hx hu).2.trans (h.other x hx hu).2⟩

theorem Moved.still (h : Moved s s' side levels win) (h' : Still s' s'' side) : Moved s s'' side levels win := by
  have htrans := h.trans h'
  rwa [h.view, h.window] at htrans

theorem still_of_world (hworld : s'.world = s.world) (htruncated : s'.truncatedBook = s.truncatedBook)
    (hmax : s'.maxDepth = s.maxDepth) (hbid : s'.bid = s.bid) (hask : s'.ask = s.ask) :
    Still s s' side := by
  have hview : ∀ x, s'.view x = s.view x := fun x => by
    unfold view
    rw [hworld, htruncated]
  have hwindow : ∀ x, s'.window x = s.window x := fun x => by
    cases x <;> simp only [window, hbid, hask]
  refine ⟨⟨htruncated, hmax, fun l => ?_, fun b _ => by rw [hworld]⟩, hview side, hwindow side,
    fun x _ _ => ⟨hview x, hwindow x⟩⟩
  rw [hworld]
  exact ⟨rfl, rfl, rfl⟩

variable (s)

theorem still_refl (side : Side) : Still s s side := still_of_world rfl rfl rfl rfl rfl

theorem still_saveDelta (delta : BasicDelta) (side : Side) : Still s (s.saveDelta delta) side :=
  still_of_world rfl rfl rfl rfl rfl

theorem still_addDelta (delta : BasicDelta) (side : Side) : Still s (s.addDelta delta) side := by
  unfold addDelta
  split <;> exact still_saveDelta s _ side

theorem still_invokeDeltaHandlers (side : Side) : Still s s.invokeDeltaHandlers side := by
  unfold invokeDeltaHandlers
  split <;> exact still_of_world rfl rfl rfl rfl rfl

theorem still_addDeltasFromLevel (l : LevelRef) (side : Side) : Still s (s.addDeltasFromLevel l) side := by
  unfold addDeltasFromLevel
  split
  · refine ⟨⟨rfl, rfl, fun l' => ?_, fun _ _ => rfl⟩, rfl, ?_, fun x _ _ => ⟨rfl, ?_⟩⟩
    · by_cases hl : l' = l
      · simp [PriceLevel.createEntries, SameQuote, hl]
      · simp [PriceLevel.createEntries, SameQuote, hl]
    · cases side <;> rfl
    · cases x <;> rfl
  · exact still_saveDelta s _ side

theorem moved_setWindow (hside : side ≠ .unknown) (win : Window P) :
    Moved s (s.setWindow side win) side (s.view side) win := by
  cases side with
  | bid | ask =>
    refine ⟨⟨rfl, rfl, fun _ => ⟨rfl, rfl, rfl⟩, fun _ _ => rfl⟩, rfl, rfl, fun x hx hu => ⟨rfl, ?_⟩⟩
    cases x <;> first | rfl | contradiction
  | unknown => contradiction

def State.setView (side : Side) (levels : Std.TreeMap P LevelRef) : State P :=
  { s with world := s.world.modifyBook s.truncatedBook (·.setLevels side levels) }

theorem moved_setView (hside : side ≠ .unknown) (levels : Std.TreeMap P LevelRef) :
    Moved s (s.setView side levels) side levels (s.window side) := by
  have hview : ∀ x, (s.setView side levels).view x = if x = side then levels else s.view x := by
    intro x
    simp only [view, setView, World.modifyBook_book, if_true, levels_setLevels hside]
  refine ⟨⟨rfl, rfl, fun _ => ⟨rfl, rfl, rfl⟩, fun b hb => ?_⟩, ?_, ?_, fun x hx _ => ⟨?_, ?_⟩⟩
  · simp [setView, hb]
  · rw [hview, if_pos rfl]
  · cases side <;> rfl
  · rw [hview, if_neg hx]
  · cases x <;> rfl

variable {s}

section

variable (h : Moved s s' side levels win) (hside : side ≠ .unknown)
include h hside

theorem Moved.setWindow (win' : Window P) : Moved s (s'.setWindow side win') side levels win' := by
  have htrans := h.trans (moved_setWindow s' hside win')
  rwa [h.view] at htrans

theorem Moved.setDepth (depth : Nat) : Moved s (s'.setDepth side depth) side levels { win with depth := depth } := by
  rw [← h.window]
  exact h.setWindow hside _

theorem Moved.setLastPrice (price : P) :
    Moved s (s'.setLastPrice side price) side levels { win with lastPrice := price } := by
  rw [← h.window]
  exact h.setWindow hside _

theorem Moved.setView (levels' : Std.TreeMap P LevelRef) : Moved s (s'.setView side levels') side levels' win := by
  have htrans := h.trans (moved_setView s' hside levels')
  rwa [h.window] at htrans

end

/-- Where the iterators can show a level: it knows the price and the side it is stored under, and its
size is not zero. -/
structure Filed (w : World P) (side : Side) (price : P) (l : LevelRef) : Prop where
  price : (w.level l).price = price
  side : (w.level l).side = side
  size : (w.level l).size ≠ 0

theorem Filed.shown {w : World P} (h : Filed w side p l) : isShown w l := decide_eq_true h.size

theorem Filed.kept (h : Filed s.world side p l) (hkept : Kept s s') : Filed s'.world side p l := by
  obtain ⟨hprice, hside, hsize⟩ := hkept.level l
  exact ⟨hprice.trans h.price, hside.trans h.side, fun h0 => h.size (hsize.symm.trans h0)⟩

theorem onLevelSide_eq {op : World P → BookRef → Side → LevelRef → Book.Result P} {w : World P} {b : BookRef}
    (hside : side ≠ .unknown) (hlevel : (w.level l).side = side) :
    onLevelSide op w b l = (op w b side l).rethrow (.atPrice · (w.level l).price) := by
  unfold onLevelSide
  rw [hlevel]
  cases side <;> first | rfl | contradiction

variable (hside : side ≠ .unknown) (hlevel : (s.world.level l).side = side) (hprice : (s.world.level l).price = p)
include hside hlevel hprice

theorem addLevel_eq (hnew : p ∉ s.view side) :
    s.onTruncatedBook addLevel l = .ok (s.setView side ((s.view side).insert p l)) := by
  have hfind : findLevel s.world s.truncatedBook side p = none := Std.TreeMap.getElem?_eq_none hnew
  have hadd : addLevel s.world s.truncatedBook l = .ok (insertLevel s.world s.truncatedBook side p l) := by
    rw [addLevel, onLevelSide_eq hside hlevel, addLevelSideNoCopy, addLevelWith, hprice, hfind, Outcome.rethrow_ok]
  rw [onTruncatedBook, hadd]
  rfl

theorem addLevel_error (hold : p ∈ s.view side) : (s.onTruncatedBook addLevel l).error ≠ none := by
  obtain ⟨found, hfound⟩ := OrderedMap.mem_iff_getElem?.mp hold
  have hfind : findLevel s.world s.truncatedBook side p = some found := hfound
  simp [onTruncatedBook, addLevel, onLevelSide_eq hside hlevel, addLevelSideNoCopy, addLevelWith, hprice, hfind]

theorem deleteLevel_eq (hold : p ∈ s.view side) :
    s.onTruncatedBook deleteLevel l = .ok (s.setView side ((s.view side).erase p)) := by
  obtain ⟨found, hfound⟩ := OrderedMap.mem_iff_getElem?.mp hold
  have hfind : findLevel s.world s.truncatedBook side p = some found := hfound
  have hdelete : deleteLevel s.world s.truncatedBook l = .ok (eraseLevel s.world s.truncatedBook side p) := by
    rw [deleteLevel, onLevelSide_eq hside hlevel, deleteLevelSide, hprice, hfind]
    rfl
  rw [onTruncatedBook, hdelete]
  rfl

end OpenMama.DepthFilter
