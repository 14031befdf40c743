import OpenMama.OrderBook.Apply
import OpenMama.Lib.Ranked
import OpenMama.Lib.Nested

/-!
# Iterating over a book

The iterators of `MamdaOrderBook.cpp` go from the best price on. The level iterators step over the levels of size
zero, and the entry iterators use them. `getEntryAtPosition` and `getPosition` count with `mNumEntries`.
-/

namespace OpenMama.OrderBook

open List PriceLevel Cursor

variable {P : Type} [LinearOrder P]

def Side.descending : Side → Bool
  | .bid => true
  | _ => false

namespace PriceLevel

/-- `begin`. It asks the level whether to check source states. -/
def entryBegin (w : World P) (l : LevelRef) : Cursor EntryRef :=
  .first (w.counted (w.checkState l)) (w.level l).entryList

/-- Whether `++` stops at an entry. It asks the entry whether to check source states. -/
def isShown (w : World P) (e : EntryRef) : Bool := w.counted (w.entryCheckState e) e

/-- `getEntryAtPosition`, the first entry being at position 0. -/
def getEntryAtPosition (w : World P) (l : LevelRef) (pos : Nat) : Option EntryRef :=
  ((w.level l).entryList.filter (w.counted (w.checkState l)))[pos]?

end PriceLevel

namespace Book

variable (w : World P)

def bestFirst (b : BookRef) (side : Side) : List (P × LevelRef) :=
  OrderedMap.ranked side.descending ((w.book b).levels side)

def isShown (l : LevelRef) : Bool := decide ((w.level l).size ≠ 0)

variable (b : BookRef)

def sideBegin (side : Side) : Cursor LevelRef :=
  .first (isShown w) ((bestFirst w b side).map Prod.snd)

def sideEnd (side : Side) : Cursor LevelRef :=
  .last ((bestFirst w b side).map Prod.snd)

def bidBegin : Cursor LevelRef := sideBegin w b .bid
def bidEnd : Cursor LevelRef := sideEnd w b .bid
def askBegin : Cursor LevelRef := sideBegin w b .ask
def askEnd : Cursor LevelRef := sideEnd w b .ask

/-- `getLevelAtPosition`, the best level being at position 0. Every side but bid is ask. -/
def getLevelAtPosition (pos : Nat) (side : Side) : Option LevelRef :=
  match side with
  | .bid => (bidBegin w b).nth (isShown w) pos
  | _ => (askBegin w b).nth (isShown w) pos

def sideEntryBegin (side : Side) : Nested LevelRef EntryRef :=
  .first (isShown w) (entryBegin w) (sideBegin w b side)

def bidEntryBegin : Nested LevelRef EntryRef := sideEntryBegin w b .bid
def askEntryBegin : Nested LevelRef EntryRef := sideEntryBegin w b .ask

/-- What a loop from an entry iterator to the end meets, unless it takes more than `n` passes. -/
def visitEntries (n : Nat) (c : Nested LevelRef EntryRef) : Option (List EntryRef) :=
  c.visit (isShown w) (PriceLevel.entryBegin w) (PriceLevel.isShown w) n

def entryAtPosition (w : World P) : Nat → List LevelRef → Option EntryRef
  | _, [] => none
  | pos, l :: levels =>
    if (w.level l).numEntries ≤ pos then entryAtPosition w (pos - (w.level l).numEntries) levels
    else getEntryAtPosition w l pos

/-- `getEntryAtPosition`, the first entry of the best level being at position 0. -/
def getEntryAtPosition (w : World P) (b : BookRef) (pos : Nat) (side : Side) : Option EntryRef :=
  match side with
  | .bid => entryAtPosition w pos ((bidBegin w b).visited (isShown w))
  | _ => entryAtPosition w pos ((askBegin w b).visited (isShown w))

theorem mem_bestFirst {w : World P} {b : BookRef} {side : Side} {p : P} {l : LevelRef} :
    (p, l) ∈ bestFirst w b side ↔ findLevel w b side p = some l :=
  OrderedMap.mem_ranked

theorem getLevelAtPosition_eq {w : World P} {b : BookRef} {side : Side} (hside : side ≠ .unknown)
    (hshown : ∀ p l, findLevel w b side p = some l → (w.level l).size ≠ 0) (pos : Nat) :
    getLevelAtPosition w b pos side = ((bestFirst w b side)[pos]?).map Prod.snd := by
  have hall : ((bestFirst w b side).map Prod.snd).filter (isShown w) = (bestFirst w b side).map Prod.snd := by
    refine filter_eq_self.mpr fun l hl => ?_
    obtain ⟨⟨p, _⟩, hmem, rfl⟩ := mem_map.mp hl
    exact decide_eq_true (hshown p _ (mem_bestFirst.mp hmem))
  have hcursor : (sideBegin w b side).nth (isShown w) pos = ((bestFirst w b side).map Prod.snd)[pos]? := by
    rw [sideBegin, first, (skip_settled _ _).nth_eq, skip_ahead, hall]
  rw [← getElem?_map, ← hcursor]
  cases side with
  | bid => rfl
  | ask => rfl
  | unknown => exact absurd rfl hside

/-! ### Both directions -/

/-- A `bidIterator` or an `askIterator`: where it stands, and the place of `mPlMapBegin`, if that is one of the
places of the side. -/
structure LevelIterator where
  cursor : Cursor LevelRef
  begin? : Option Nat

/-- `operator=`, which leaves `mPlMapBegin` as it is. -/
def LevelIterator.assign (i rhs : LevelIterator) : LevelIterator := { i with cursor := rhs.cursor }

def shownLevels (w : World P) (b : BookRef) (side : Side) : List (P × LevelRef) :=
  (bestFirst w b side).filter fun slot => isShown w slot.2

/-- Assigned from the begin and the end of a side, an iterator goes over the levels that are shown, best price
first, and back over the same levels. -/
structure BothWays (w : World P) (b : BookRef) (side : Side) (i : LevelIterator) : Prop where
  forth : (i.assign ⟨sideBegin w b side, some 0⟩).cursor.visited (isShown w) = (shownLevels w b side).map Prod.snd
  bestFirst : (shownLevels w b side).Pairwise fun slot slot' => Ahead side.descending slot.1 slot'.1
  back : (i.assign ⟨sideEnd w b side, some 0⟩).cursor.returns (isShown w) i.begin? (shownLevels w b side).length =
    some ((shownLevels w b side).map Prod.snd).reverse

/-- An iterator that was made for the side goes both ways. One that was assigned does if and only if no level that
is shown is better than the place that it takes for the beginning. -/
theorem bothWays_iff (w : World P) (b : BookRef) (side : Side) (i : LevelIterator)
    (hnodup : ((bestFirst w b side).map Prod.snd).Nodup) :
    BothWays w b side i ↔ ∀ k, i.begin? = some k → k ≤ (bestFirst w b side).length →
      ((bestFirst w b side).take k).filter (fun slot => isShown w slot.2) = [] := by
  have hlevels : ((bestFirst w b side).map Prod.snd).filter (isShown w) = (shownLevels w b side).map Prod.snd :=
    filter_map
  have hforth : (sideBegin w b side).visited (isShown w) = (shownLevels w b side).map Prod.snd := by
    rw [sideBegin, first, (skip_settled _ _).visited_eq, skip_ahead, hlevels]
  have hback := returns_eq_iff (isShown w) i.begin? ((bestFirst w b side).map Prod.snd).reverse []
    (by simpa using hnodup)
  rw [filter_reverse, hlevels, length_reverse, length_map, length_reverse, length_map] at hback
  have hbetter : ∀ k ≤ (bestFirst w b side).length,
      (((bestFirst w b side).map Prod.snd).reverse.drop ((bestFirst w b side).length - k)).filter (isShown w) = [] ↔
        ((bestFirst w b side).take k).filter (fun slot => isShown w slot.2) = [] := by
    intro k hk
    rw [drop_reverse, filter_reverse, reverse_eq_nil_iff, length_map, Nat.sub_sub_self hk,
      ← map_take, filter_map, map_eq_nil_iff]
    rfl
  have hall := hback.trans (forall_congr' fun k => forall_congr' fun _ => forall_congr' (hbetter k))
  exact ⟨fun h => hall.mp h.back, fun h => ⟨hforth, (OrderedMap.pairwise_ranked _).filter _, hall.mpr h⟩⟩

def twoAsks : World Nat where
  entry _ := {}
  level l := { price := 100 + l, size := 5, side := .ask }
  book _ := { askLevels := (∅ : Std.TreeMap Nat LevelRef).insert 100 0 |>.insert 101 1 }
  nextEntry := 0
  nextLevel := 2

theorem bothWays_askEnd : BothWays twoAsks 0 .ask ⟨askEnd twoAsks 0, some 0⟩ :=
  (bothWays_iff twoAsks 0 .ask _ (by decide)).mpr (by rintro k ⟨⟩; exact fun _ => rfl)

theorem not_bothWays_assigned : ¬ BothWays twoAsks 0 .ask ⟨askBegin twoAsks 0, some 1⟩ :=
  fun h => nomatch h.back

end Book

namespace Entry

open Book

def capped (maxPos pos : Nat) (continues : Except (BookException P) Nat) : Except (BookException P) Nat :=
  if 0 < maxPos ∧ maxPos < pos then .ok maxPos else continues

/-- The loop of `getPosition`, with `pos` entries counted so far. A level that should come after the entry's own level
`l` is an error. -/
def positionFrom (w : World P) (e : EntryRef) (l : LevelRef) (maxPos : Nat) (behind : P → P → Bool)
    (operation : String) : Nat → List LevelRef → Except (BookException P) Nat
  | _, [] => .error (.invalidEntry e "MamdaOrderBookEntry::getPosition() (not found)")
  | pos, level :: levels =>
    if level ≠ l then
      if behind (w.level level).price (w.level l).price then .error (.invalidEntry e operation)
      else
        let pos' := pos + (w.level level).numEntries
        capped maxPos pos' (positionFrom w e l maxPos behind operation pos' levels)
    else
      let entries := visibleEntries w level
      if e ∈ entries then .ok (pos + entries.idxOf e)
      else
        let pos' := pos + entries.length
        capped maxPos pos' (positionFrom w e l maxPos behind operation pos' levels)

/-- `getPosition`; with `maxPos` 0 the position is not capped. -/
def getPosition (w : World P) (e : EntryRef) (maxPos : Nat) : Except (BookException P) Nat :=
  match (w.entry e).priceLevel with
  | none => .error (.invalidEntry e "MamdaOrderBookEntry::getPosition() (no level)")
  | some l =>
    match (w.level l).book, (w.level l).side with
    | none, _ => .error .nullDereference
    | some b, .bid =>
      positionFrom w e l maxPos (fun p own => p < own) "MamdaOrderBookEntry::getPosition() (bid)" 0
        ((bidBegin w b).visited (isShown w))
    | some b, _ =>
      positionFrom w e l maxPos (fun p own => own < p) "MamdaOrderBookEntry::getPosition() (ask)" 0
        ((askBegin w b).visited (isShown w))

end Entry
end OpenMama.OrderBook
