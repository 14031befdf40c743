import OpenMama.OrderBook.World
import OpenMama.Lib.Outcome

/-!
# The operations of a price level

`MamdaOrderBookPriceLevel.cpp`, function by function, on the heap. A level counts an entry (`mNumEntries`, `mSize`)
only when its book does not check source states or the entry is visible, and lists it in any case
(`mNumEntriesTotal`). Erasing an entry does not clear the entry's own pointer to the level.
-/

namespace OpenMama.OrderBook

open List

variable {P : Type} [LinearOrder P]

/-- `MamdaOrderBookBasicDelta`, cleared. It points at live objects; it holds no copy of them. -/
structure BasicDelta where
  priceLevel : Option LevelRef := none
  entry : Option EntryRef := none
  plDeltaSize : Int := 0
  plAction : Action := .unknown
  entryAction : Action := .unknown
deriving DecidableEq

/-- The exceptions of the order book, with the values their texts are made of, and the uses of a pointer or an iterator
that C++ leaves undefined. -/
inductive BookException (P : Type) where
  | levelExists (symbol : String) (price : P) (size : Int)
  | levelMissing (operation : String) (symbol : String) (price : P)
  | marketOrdersExist (symbol : String) (side : Side) (size : Int)
  | marketOrdersMissing (symbol : String) (side : Side) (size : Int)
  | marketSideMissing (symbol : String) (side : Side)
  | invalidSide (operation : String) (side : Side)
  | badSide
  | invalidEntry (entry : EntryRef) (operation : String)
  | atPrice (inner : BookException P) (price : P)
  | marketOrder (inner : BookException P)
  | nullDereference
  | invalidIterator
deriving DecidableEq

def Side.toChar : Side → String
  | .bid => "B"
  | .ask => "A"
  | .unknown => "Z"

/-- The text of an exception; `showPrice` and `showSize` are the conversions of `%g`. -/
def BookException.what (showPrice : P → String) (showSize : Int → String) :
    BookException P → String
  | levelExists symbol price size =>
    "addLevel(" ++ symbol ++ "): price=" ++ showPrice price ++ " already exists in book (size="
      ++ showSize size ++ ")"
  | levelMissing operation symbol price =>
    operation ++ "(" ++ symbol ++ "): price=" ++ showPrice price ++ " does not exist in book"
  | marketOrdersExist symbol side size =>
    "addMarketOrderSide(" ++ symbol ++ "): side=" ++ side.toChar
      ++ " already exists in book (size=" ++ showSize size ++ ")"
  | marketOrdersMissing symbol side size =>
    "updateMarketOrderSide(" ++ symbol ++ "): side=" ++ side.toChar
      ++ " does not exist in book(size=" ++ showSize size ++ ")"
  | marketSideMissing symbol side =>
    "deleteMarketOrderSide (" ++ symbol ++ "): side" ++ side.toChar ++ " does not exist in book"
  | invalidSide operation side => operation ++ ": invalid side provided: " ++ side.toChar
  | badSide => "MamdaOrderBook::apply (simple delta): bad side"
  | invalidEntry _ operation => operation
  | atPrice inner price => inner.what showPrice showSize ++ " (price=" ++ showPrice price ++ ")"
  | marketOrder inner => inner.what showPrice showSize ++ " Market order"
  | nullDereference => ""
  | invalidIterator => ""

namespace PriceLevel

def addEntry (w : World P) (l : LevelRef) (e : EntryRef) : World P :=
  let counted := w.counted (w.checkState l) e
  (w.modifyEntry e fun x => { x with entryPositionReceived := false, priceLevel := some l }).modifyLevel
    l fun lev =>
      { lev with
        entries := some (lev.entryList ++ [e])
        numEntries := if counted then lev.numEntries + 1 else lev.numEntries
        size := if counted then lev.size + (w.entry e).size else lev.size
        numEntriesTotal := lev.numEntriesTotal + 1 }

section AddEntry

variable (w : World P) (l l' : LevelRef) (e e' : EntryRef)

@[simp] theorem addEntry_book : (addEntry w l e).book = w.book := rfl
@[simp] theorem addEntry_nextEntry : (addEntry w l e).nextEntry = w.nextEntry := rfl
@[simp] theorem addEntry_nextLevel : (addEntry w l e).nextLevel = w.nextLevel := rfl

theorem addEntry_entry_of_ne {e e' : EntryRef} (h : e' ≠ e) : (addEntry w l e).entry e' = w.entry e' := by
  simp [addEntry, h]

theorem addEntry_entryList : ((addEntry w l e).level l').entryList =
    if l' = l then (w.level l).entryList ++ [e] else (w.level l').entryList := by
  by_cases h : l' = l <;> simp [addEntry, entryList, h]

@[simp] theorem addEntry_price : ((addEntry w l e).level l').price = (w.level l').price := by
  by_cases h : l' = l <;> simp [addEntry, h]

@[simp] theorem addEntry_side : ((addEntry w l e).level l').side = (w.level l').side := by
  by_cases h : l' = l <;> simp [addEntry, h]

@[simp] theorem addEntry_levelBook : ((addEntry w l e).level l').book = (w.level l').book := by
  by_cases h : l' = l <;> simp [addEntry, h]

@[simp] theorem addEntry_entry_id : ((addEntry w l e).entry e').id = (w.entry e').id := by
  by_cases h : e' = e <;> simp [addEntry, h]

@[simp] theorem addEntry_entry_size : ((addEntry w l e).entry e').size = (w.entry e').size := by
  by_cases h : e' = e <;> simp [addEntry, h]

@[simp] theorem addEntry_entry_sourceDeriv : ((addEntry w l e).entry e').sourceDeriv = (w.entry e').sourceDeriv := by
  by_cases h : e' = e <;> simp [addEntry, h]

@[simp] theorem addEntry_entry_isVisible : ((addEntry w l e).entry e').isVisible = (w.entry e').isVisible :=
  Entry.isVisible_congr (addEntry_entry_sourceDeriv w l e e')

@[simp] theorem addEntry_entry_priceLevel :
    ((addEntry w l e).entry e').priceLevel = if e' = e then some l else (w.entry e').priceLevel := by
  by_cases h : e' = e <;> simp [addEntry, h]

end AddEntry

variable (l) (es : List EntryRef) (e)

/-- The list after `addEntry (entry, entryPosition)`, and how many elements it gained. A placeholder at the position is
replaced; beyond the end, new placeholders fill up. -/
def insertAt (entryPosition : Nat) : List EntryRef × Nat :=
  if entryPosition = 0 then (es ++ [e], 1)
  else if entryPosition ≤ es.length + 1 then
    match es.drop (entryPosition - 1) with
    | [] => (es ++ [e], 1)
    | x :: rest =>
      if x = .reserved l then (es.take (entryPosition - 1) ++ e :: rest, 0)
      else (es.take (entryPosition - 1) ++ e :: x :: rest, 1)
  else
    (es ++ List.replicate (entryPosition - 1 - es.length) (.reserved l) ++ [e],
      entryPosition - es.length)

theorem insertAt_length_succ : insertAt l es e (es.length + 1) = (es ++ [e], 1) := by
  simp [insertAt]

/-- A placeholder at the position is replaced, or what is there is shifted, or placeholders fill the gap. -/
def Inserted (entryPosition : Nat) (r : List EntryRef × Nat) : Prop :=
  (∃ front back, es = front ++ .reserved l :: back ∧ front.length + 1 = entryPosition ∧
      r = (front ++ e :: back, 0)) ∨
    (∃ front back, es = front ++ back ∧ (entryPosition ≠ 0 → front.length + 1 = entryPosition) ∧
      back.head? ≠ some (.reserved l) ∧ r = (front ++ e :: back, 1)) ∨
    es.length + 1 < entryPosition ∧
      r = (es ++ List.replicate (entryPosition - 1 - es.length) (.reserved l) ++ [e], entryPosition - es.length)

theorem insertAt_inserted (entryPosition : Nat) : Inserted l es e entryPosition (insertAt l es e entryPosition) := by
  have hend : (entryPosition ≠ 0 → es.length + 1 = entryPosition) →
      Inserted l es e entryPosition (es ++ [e], 1) := fun h =>
    .inr (.inl ⟨es, [], (append_nil es).symm, h, nofun, rfl⟩)
  unfold insertAt
  split
  · exact hend fun h => absurd ‹_› h
  · split
    · have hsplit := take_append_drop (entryPosition - 1) es
      split
      next hdrop =>
        have hle := drop_eq_nil_iff.mp hdrop
        exact hend fun _ => by omega
      next x rest hdrop =>
        have hfront : (es.take (entryPosition - 1)).length + 1 = entryPosition := by
          rw [length_take]
          omega
        rw [hdrop] at hsplit
        split
        next hx => exact .inl ⟨_, rest, hx ▸ hsplit.symm, hfront, rfl⟩
        next hx => exact .inr (.inl ⟨_, x :: rest, hsplit.symm, fun _ => hfront, by simpa using hx, rfl⟩)
    · exact .inr (.inr ⟨by omega, rfl⟩)

variable {e} {l}

theorem mem_insertAt {l : LevelRef} {es : List EntryRef} {e x : EntryRef} {entryPosition : Nat}
    (hx : x ∈ (insertAt l es e entryPosition).1) : x = e ∨ x = .reserved l ∨ x ∈ es := by
  rcases insertAt_inserted l es e entryPosition with ⟨front, back, rfl, -, heq⟩ | ⟨_, _, rfl, -, -, heq⟩ | ⟨-, heq⟩
  all_goals
    rw [heq] at hx
    simp only [mem_append, mem_cons, mem_replicate] at hx ⊢
    tauto

theorem count_insertAt (l : LevelRef) (es : List EntryRef) (e : EntryRef) (entryPosition n : Nat) :
    (insertAt l es e entryPosition).1.count (.obj n) ≤
      es.count (.obj n) + if e = .obj n then 1 else 0 := by
  rcases insertAt_inserted l es e entryPosition with ⟨front, back, rfl, -, heq⟩ | ⟨_, _, rfl, -, -, heq⟩ | ⟨-, heq⟩
  all_goals
    rw [heq]
    simp only [count_append, count_cons, count_replicate, count_nil, beq_iff_eq, reduceCtorEq, if_false]
    omega

theorem insertAt_perm {l : LevelRef} {es : List EntryRef} (e : EntryRef)
    {entryPosition : Nat} (hes : .reserved l ∉ es) (hposition : entryPosition ≤ es.length + 1) :
    (insertAt l es e entryPosition).1.Perm (e :: es) ∧ (insertAt l es e entryPosition).2 = 1 := by
  rcases insertAt_inserted l es e entryPosition with ⟨front, back, rfl, -, heq⟩ | ⟨_, _, rfl, -, -, heq⟩ | ⟨hgap, -⟩
  · exact absurd (by simp) hes
  · rw [heq]
    exact ⟨perm_middle, rfl⟩
  · exact absurd hgap (by omega)

def addEntryAt (w : World P) (l : LevelRef) (e : EntryRef) (entryPosition : Nat) : World P :=
  let counted := w.counted (w.checkState l) e
  (w.modifyEntry e fun x =>
      { x with entryPositionReceived := decide (entryPosition ≠ 0), priceLevel := some l }).modifyLevel
    l fun lev =>
      let (es, numNewEntries) := insertAt l lev.entryList e entryPosition
      { lev with
        entries := some es
        numEntries := if counted then lev.numEntries + numNewEntries else lev.numEntries
        size := if counted then lev.size + (w.entry e).size else lev.size
        numEntriesTotal := lev.numEntriesTotal + numNewEntries }

section AddEntryAt

variable (w : World P) (l : LevelRef) (e x : EntryRef) (entryPosition : Nat)

@[simp] theorem addEntryAt_entry_size : ((addEntryAt w l e entryPosition).entry x).size = (w.entry x).size := by
  by_cases hx : x = e <;> simp [addEntryAt, hx]

@[simp] theorem addEntryAt_entry_isVisible :
    ((addEntryAt w l e entryPosition).entry x).isVisible = (w.entry x).isVisible := by
  apply Entry.isVisible_congr
  by_cases hx : x = e <;> simp [addEntryAt, hx]

end AddEntryAt

variable (w : World P)

def createEntries (l : LevelRef) : World P :=
  w.modifyLevel l fun lev => { lev with entries := some lev.entryList }

def findById (l : LevelRef) (id : Option String) : Option EntryRef :=
  (w.level l).entryList.find? fun e => (w.entry e).equalId id

def updateEntry (l : LevelRef) (entry : Entry) : World P :=
  match findById w l entry.id with
  | some e => (createEntries w l).modifyEntry e (·.setDetails entry)
  | none => createEntries w l

/-- `eraseEntryByIterator`, at the first occurrence of the entry. Without a book the code deletes the entry; here it
stays, and nothing refers to it. -/
def eraseEntry (l : LevelRef) (e : EntryRef) : World P :=
  let counted := w.counted (w.checkState l) e
  let w' := w.modifyLevel l fun lev =>
    { lev with
      entries := some (lev.entryList.erase e)
      size := if counted then clampQuantity (lev.size - (w.entry e).size) else lev.size
      numEntries := if counted then lev.numEntries - 1 else lev.numEntries
      numEntriesTotal := lev.numEntriesTotal - 1 }
  match (w.level l).book with
  | some b =>
    if e = .reserved l then w'
    else w'.modifyBook b fun bk => { bk with detachedEntries := bk.detachedEntries ++ [e] }
  | none => w'

section EraseEntry

variable (w : World P) (l l' : LevelRef) (e : EntryRef)

@[simp] theorem eraseEntry_entry : (eraseEntry w l e).entry = w.entry := by
  unfold eraseEntry
  split
  · split <;> rfl
  · rfl

@[simp] theorem eraseEntry_nextEntry : (eraseEntry w l e).nextEntry = w.nextEntry := by
  unfold eraseEntry
  split
  · split <;> rfl
  · rfl

@[simp] theorem eraseEntry_nextLevel : (eraseEntry w l e).nextLevel = w.nextLevel := by
  unfold eraseEntry
  split
  · split <;> rfl
  · rfl

variable (b : BookRef)

private theorem eraseEntry_book : ∃ es, (eraseEntry w l e).book b = { w.book b with detachedEntries := es } := by
  unfold eraseEntry
  split
  next b' _ =>
    split
    · exact ⟨_, rfl⟩
    · by_cases hb : b = b'
      · subst hb
        exact ⟨_, by simp; rfl⟩
      · exact ⟨_, by simp [hb]; rfl⟩
  · exact ⟨_, rfl⟩

@[simp] theorem eraseEntry_levels (s : Side) : ((eraseEntry w l e).book b).levels s = (w.book b).levels s := by
  obtain ⟨_, hes⟩ := eraseEntry_book w l e b
  rw [hes]
  cases s <;> rfl

@[simp] theorem eraseEntry_marketOrders (s : Side) :
    ((eraseEntry w l e).book b).marketOrders s = (w.book b).marketOrders s := by
  obtain ⟨_, hes⟩ := eraseEntry_book w l e b
  rw [hes]
  cases s <;> rfl

@[simp] theorem eraseEntry_checkVisibility :
    ((eraseEntry w l e).book b).checkVisibility = (w.book b).checkVisibility := by
  obtain ⟨_, hes⟩ := eraseEntry_book w l e b
  rw [hes]

theorem eraseEntry_level : (eraseEntry w l e).level l' =
    if l' = l then
      { w.level l with
        entries := some ((w.level l).entryList.erase e)
        size := if w.counted (w.checkState l) e then
            clampQuantity ((w.level l).size - (w.entry e).size)
          else (w.level l).size
        numEntries := if w.counted (w.checkState l) e then (w.level l).numEntries - 1
          else (w.level l).numEntries
        numEntriesTotal := (w.level l).numEntriesTotal - 1 }
    else w.level l' := by
  unfold eraseEntry
  split
  · split <;> simp
  · simp

end EraseEntry

def removeEntryById (l : LevelRef) (entry : Entry) : World P :=
  match findById w l entry.id with
  | some e => eraseEntry (createEntries w l) l e
  | none => createEntries w l

def removeEntry (l : LevelRef) (e : EntryRef) : World P :=
  if e ∈ (w.level l).entryList then eraseEntry w l e else w

/-- The entries an iteration from `begin ()` to `end ()` sees. `begin` asks the level whether to check
source states; `++` asks the entry, which asks its own level. -/
def visibleEntries (l : LevelRef) : List EntryRef :=
  match (w.level l).entryList.dropWhile fun e => !w.counted (w.checkState l) e with
  | [] => []
  | e :: es => e :: es.filter fun e => w.counted (w.entryCheckState e) e

def positionFrom (w : World P) (check : Bool) (id : String) (pos : Nat) : List EntryRef → Nat
  | [] => 0
  | e :: es =>
    if check && !(w.entry e).isVisible then positionFrom w check id pos es
    else if (w.entry e).id = some id then pos + 1
    else positionFrom w check id (pos + 1) es

/-- `getEntryPositionInPriceLevel`: the position of an id among the entries in view, from 1; 0 if it is
not there. -/
def getEntryPositionInPriceLevel (w : World P) (l : LevelRef) (id : Option String) : Nat :=
  match id with
  | some id => positionFrom w (w.checkState l) id 0 (w.level l).entryList
  | none => 0

end PriceLevel

def Entry.getEntryPositionInPriceLevel (w : World P) (e : EntryRef) : Nat :=
  match (w.entry e).priceLevel with
  | some l => PriceLevel.getEntryPositionInPriceLevel w l (w.entry e).id
  | none => 0

namespace PriceLevel

/-- One pass of the loop of `copy`: a placeholder is copied as the placeholder of the new level, an
entry as a new entry, at its position if it was received with one. -/
def copyEntry (src dst : LevelRef) (w : World P) (e : EntryRef) : World P :=
  if e = .reserved src then addEntry w dst (.reserved dst)
  else
    let w' := w.newEntry (w.entry e).copy
    if (w.entry e).entryPositionReceived then
      addEntryAt w' dst w.freshEntry (Entry.getEntryPositionInPriceLevel w e)
    else addEntry w' dst w.freshEntry

/-- `clearEntries`, which `copy` calls when there is a list. -/
def clearEntries (w : World P) (l : LevelRef) : World P :=
  w.modifyLevel l fun lev => { lev with entries := lev.entries.map fun _ => [] }

def copyEntries (w : World P) (dst src : LevelRef) : World P :=
  match (w.level src).entries with
  | some es =>
    es.foldl (copyEntry src dst) (w.modifyLevel dst fun lev =>
      { lev with entries := some lev.entryList, numEntries := 0, numEntriesTotal := 0 })
  | none => w

/-- The assignments at the end of `copy`. The book is not copied. -/
def copyFields (lev src : PriceLevel P) : PriceLevel P :=
  { lev with
    price := src.price
    size := src.size
    sizeChange := src.sizeChange
    numEntries := src.numEntries
    numEntriesTotal := src.numEntriesTotal
    side := src.side
    action := src.action
    orderType := src.orderType
    time := src.time
    book := none }

def copy (w : World P) (dst src : LevelRef) : World P :=
  let w' := copyEntries (clearEntries w dst) dst src
  w'.modifyLevel dst (copyFields · (w'.level src))

/-- `new MamdaOrderBookPriceLevel (level)`: the copy is the old `nextLevel`. -/
def newCopy (w : World P) (src : LevelRef) : World P :=
  copy (w.newLevel { price := (w.level src).price }) w.nextLevel src

abbrev Recorded (P : Type) [LinearOrder P] := World P × List BasicDelta

def rejects (filter : Option (Entry → Bool)) (entry : Entry) : Bool :=
  match filter with
  | some checkEntry => !checkEntry entry
  | none => false

/-- One pass of the loop of `addEntriesFromLevel`. The delta is recorded whether or not the filter
let the entry pass. -/
def addEntryFromLevel (l : LevelRef) (filter : Option (Entry → Bool)) (s : Recorded P) (e : EntryRef) : Recorded P :=
  let copyEntry := s.1.freshEntry
  let w := s.1.newEntry (s.1.entry e).copy
  let w' := if rejects filter (s.1.entry e).copy then w
    else addEntry (w.modifyEntry copyEntry fun x => { x with action := .add }) l copyEntry
  (w', s.2 ++ [{ priceLevel := some l, entry := some copyEntry, plDeltaSize := (s.1.entry e).size,
                 plAction := .add, entryAction := .add }])

def addEntriesFromLevel (l src : LevelRef) (filter : Option (Entry → Bool)) (s : Recorded P) : Recorded P :=
  match (s.1.level src).entries with
  | some es =>
    let s' := es.foldl (addEntryFromLevel l filter) s
    (s'.1.modifyLevel l fun lev => { lev with time := (s'.1.level src).time }, s'.2)
  | none => s

/-- One pass of the loop of `deleteEntriesFromSource`. An entry without a source derivative has a NULL
source, which is followed. -/
def deleteEntryFromSource (source : Nat) (l : LevelRef) (e : EntryRef) (s : Recorded P) :
    Outcome (Recorded P) (BookException P) :=
  match (s.1.entry e).sourceDeriv with
  | none => .throw s .nullDereference
  | some deriv =>
    if deriv.baseSource.isPartOf source then
      .ok (eraseEntry s.1 l e,
        s.2 ++ [{ priceLevel := some l, entry := some e, plDeltaSize := -(s.1.entry e).size,
                  plAction := .update, entryAction := .delete }])
    else .ok s

def deleteEntriesFromSource (source : Nat) (l : LevelRef) (s : Recorded P) : Outcome (Recorded P) (BookException P) :=
  Outcome.each (deleteEntryFromSource source l) (s.1.level l).entryList s

/-- The loop of `findEntry`. It compares with `strcmp`, so an entry without an id that it meets is a
NULL pointer that is followed: there is no result. -/
def findEntryFrom (w : World P) (id : String) : List EntryRef → Option (Option EntryRef)
  | [] => some none
  | e :: es =>
    match (w.entry e).id with
    | none => none
    | some other => if other = id then some (some e) else findEntryFrom w id es

/-- A copy of an entry is added, and the iterators that are not at the end will come to it if it is in view. -/
def addCopy (l : LevelRef) (action : Option Action) (w : World P) (e : EntryRef) : World P × List EntryRef :=
  let entry := (w.entry e).copy
  let w' := addEntry (w.newEntry { entry with action := action.getD entry.action }) l w.freshEntry
  (w', if w'.counted (w'.entryCheckState w.freshEntry) w.freshEntry then [w.freshEntry] else [])

/-- The loop of `setAsDifference`, for so many passes at most. Both iterators go over the level's own list, which the
loop adds to; given are the entries from each to the end. -/
def differenceLoop (l : LevelRef) : Nat → List EntryRef → List EntryRef → World P → Option (World P)
  | _, [], _, w | _, _, [], w => some w
  | 0, _ :: _, _ :: _, _ => none
  | bound + 1, lhs :: lhsRest, rhs :: rhsRest, w =>
    match (w.entry lhs).id, (w.entry rhs).id with
    | some lhsId, some rhsId =>
      if lhsId = rhsId then
        let (w', added) := if (w.entry lhs).size = (w.entry rhs).size then addCopy l (some .update) w rhs else (w, [])
        differenceLoop l bound (lhsRest ++ added) (rhsRest ++ added) w'
      else
        (findEntryFrom w lhsId (rhs :: rhsRest)).bind fun
          | some found =>
            let (w', added) := ((rhs :: rhsRest).takeWhile (· ≠ found)).foldl
              (fun (w, added) e => ((addCopy l none w e).1, added ++ (addCopy l none w e).2)) (w, [])
            differenceLoop l bound (lhs :: lhsRest ++ added) ((rhs :: rhsRest).dropWhile (· ≠ found) ++ added) w'
          | none =>
            let (w', added) := addCopy l none w lhs
            differenceLoop l bound (lhsRest ++ added) (rhs :: rhsRest ++ added) w'
    | _, _ => differenceLoop l bound (lhs :: lhsRest) (rhs :: rhsRest) w

/-- The assignments at the end of `setAsDifference`. -/
def differenceFields (lev left right : PriceLevel P) : PriceLevel P :=
  let sized := ({ lev with price := right.price }.setSizeChange (right.size - left.size)).setSize right.size
  { sized.setNumEntries right.numEntries with action := .update, time := right.time, side := right.side }

def setAsDifference (w : World P) (l lhs rhs : LevelRef) (bound : Nat) : Option (World P) :=
  let w := createEntries w l
  (differenceLoop l bound (visibleEntries w l) (visibleEntries w l) w).map fun w =>
    w.modifyLevel l (differenceFields · (w.level lhs) (w.level rhs))

variable (w : World P)

/-- The entry that `updateEntryPosition` takes to a position within the list, and the list then: the last entry with the
id in front of the position goes behind it; otherwise the first one behind goes in front. -/
def moveWithin (id : String) (target : Nat) (es : List EntryRef) : Option (EntryRef × List EntryRef) :=
  let has (e : EntryRef) : Bool := (w.entry e).equalId (some id)
  let before := es.take (target - 1)
  let there := (es.drop (target - 1)).take 1
  let after := es.drop target
  if there.any has then none
  else
    match before.reverse.find? has, after.find? has with
    | some e, _ => some (e, before.erase e ++ there ++ e :: after)
    | none, some e => some (e, before ++ e :: there ++ after.erase e)
    | none, none => none

/-- The list after `updateEntryPosition`, and the entry that was moved. The two ends are searched with
`strcmp`, as `findEntry` does. -/
def moveEntry (id : String) (target : Nat) (es : List EntryRef) : Option (Option (EntryRef × List EntryRef)) :=
  if es.length ≤ 1 then some none
  else if target = 1 then
    (findEntryFrom w id es).map fun found => found.map fun e => (e, e :: es.erase e)
  else if es.length ≤ target then
    (findEntryFrom w id es).map fun found => found.map fun e => (e, es.erase e ++ [e])
  else some (moveWithin w id target es)

def updateEntryPosition (l : LevelRef) (id : Option String) (target : Nat) : Outcome (World P) (BookException P) :=
  match id with
  | none => .ok w
  | some id =>
    match moveEntry w id target (w.level l).entryList with
    | none => .throw w .nullDereference
    | some none => .ok w
    | some (some (e, es)) =>
      .ok ((w.modifyLevel l fun lev => { lev with entries := some es }).modifyEntry e
        fun x => { x with entryPositionReceived := true })

end PriceLevel

end OpenMama.OrderBook
