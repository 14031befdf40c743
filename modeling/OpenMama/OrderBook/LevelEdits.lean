import OpenMama.OrderBook.Apply
import Mathlib.Data.List.Perm.Basic
import Mathlib.Order.Nat

/-!
# Edits of one level

Inserting an entry at a position, moving an entry to a position, and applying the difference of two levels: when each of
them does what it is for.
-/

namespace OpenMama.OrderBook

open List Book

variable {P : Type} [LinearOrder P]

theorem equalId_iff (entry : Entry) (id : String) : entry.equalId (some id) ↔ entry.id = some id := by
  cases hid : entry.id <;> simp [Entry.equalId, hid]

namespace PriceLevel

variable {w : World P} {id : String} {es : List EntryRef} {target : Nat}

/-! ### Inserting at a position -/

/-- The counts of the level are those of its list. -/
structure Figures (w : World P) (l : LevelRef) : Prop where
  total : (w.level l).numEntriesTotal = (w.level l).entryList.length
  counted : (w.level l).numEntries = (w.level l).entryList.countP (w.counted (w.checkState l))

theorem addEntryAt_level (w : World P) (l : LevelRef) (e : EntryRef) (p : Nat) :
    let r := insertAt l (w.level l).entryList e p
    let lev := (addEntryAt w l e p).level l
    lev.entryList = r.1 ∧ lev.numEntriesTotal = (w.level l).numEntriesTotal + r.2 ∧
      lev.numEntries = (w.level l).numEntries + if w.counted (w.checkState l) e then r.2 else 0 := by
  by_cases h : w.counted (w.checkState l) e <;> simp [addEntryAt, entryList, h]

theorem counted_addEntryAt (w : World P) (l : LevelRef) (e : EntryRef) (p : Nat) :
    (addEntryAt w l e p).counted ((addEntryAt w l e p).checkState l) = w.counted (w.checkState l) := by
  have hcheck : (addEntryAt w l e p).checkState l = w.checkState l := by simp [World.checkState, addEntryAt]
  funext x
  rw [World.counted, World.counted, hcheck, addEntryAt_entry_isVisible]

theorem figures_addEntryAt_iff {l : LevelRef} (hblank : (w.entry (.reserved l)).isVisible) (h : Figures w l)
    (e : EntryRef) {p : Nat} (hp : 1 ≤ p) :
    Figures (addEntryAt w l e p) l ↔ w.counted (w.checkState l) e ∨
      p ≤ (w.level l).entryList.length + 1 ∧ (w.level l).entryList[p - 1]? ≠ some (.reserved l) := by
  obtain ⟨hlist, htotal, hnum⟩ := addEntryAt_level w l e p
  have hinserted := insertAt_inserted l (w.level l).entryList e p
  have hreserved : w.counted (w.checkState l) (.reserved l) := by simp [World.counted, hblank]
  generalize insertAt l (w.level l).entryList e p = r at hlist htotal hnum hinserted
  have hfigures : Figures (addEntryAt w l e p) l ↔ r.1.length = (w.level l).entryList.length + r.2 ∧
      r.1.countP (w.counted (w.checkState l)) = (w.level l).entryList.countP (w.counted (w.checkState l)) +
        if w.counted (w.checkState l) e then r.2 else 0 := by
    constructor
    · rintro ⟨htotal', hcounted'⟩
      rw [htotal, hlist, h.total] at htotal'
      rw [hnum, hlist, h.counted, counted_addEntryAt] at hcounted'
      exact ⟨htotal'.symm, hcounted'.symm⟩
    · rintro ⟨hlength, hcount⟩
      exact ⟨by rw [htotal, hlist, h.total, hlength], by rw [hnum, hlist, h.counted, counted_addEntryAt, hcount]⟩
  rw [hfigures]
  generalize (w.level l).entryList = es at *
  rcases hinserted with ⟨front, back, rfl, hfront, heq⟩ | ⟨front, back, rfl, hfront, hback, heq⟩ | ⟨hgap, heq⟩
  · have hat : (front ++ .reserved l :: back)[p - 1]? = some (EntryRef.reserved l) := by
      rw [← hfront]
      simp
    rw [heq, hat]
    by_cases he : w.counted (w.checkState l) e <;> simp [countP_append, hreserved, he]
  · have hfront := hfront (by omega)
    have hat : (front ++ back)[p - 1]? ≠ some (.reserved l) := by
      rw [← hfront, Nat.add_sub_cancel, getElem?_append_right (Nat.le_refl _), Nat.sub_self, ← head?_eq_getElem?]
      exact hback
    rw [heq]
    by_cases he : w.counted (w.checkState l) e <;> simp [countP_append, he, hat] <;> omega
  · rw [heq]
    by_cases he : w.counted (w.checkState l) e <;>
      simp [countP_append, countP_replicate, hreserved, he] <;> omega

structure Slots (l : LevelRef) (e : Nat → EntryRef) (done : List Nat) (es : List EntryRef) : Prop where
  slot : ∀ i < es.length, es[i]? = some (if i ∈ done then e i else .reserved l)
  lt : ∀ i ∈ done, i < es.length
  last : es = [] ∨ es.length - 1 ∈ done

theorem Slots.insertAt {l : LevelRef} {e : Nat → EntryRef} {done : List Nat} (h : Slots l e done es) {i : Nat}
    (hi : i ∉ done) : Slots l e (i :: done) (insertAt l es (e i) (i + 1)).1 := by
  -- behind the list the entry stands at its end, with the placeholders before it
  have hbehind : es.length ≤ i → Slots l e (i :: done) (es ++ List.replicate (i - es.length) (.reserved l) ++ [e i]) := by
    intro _
    have hlength : (es ++ List.replicate (i - es.length) (EntryRef.reserved l)).length = i := by simp; omega
    refine ⟨fun j hj => ?_, fun j hj => ?_, .inr (by rw [length_append, hlength]; exact mem_cons_self)⟩
    · rw [length_append, length_singleton] at hj
      by_cases hji : j = i
      · rw [getElem?_append_right (by omega), hlength, hji]
        simp
      · rw [getElem?_append_left (by omega)]
        by_cases hold : j < es.length
        · rw [getElem?_append_left hold, h.slot j hold]
          simp [hji]
        · have hfree : j ∉ done := fun hmem => hold (h.lt j hmem)
          rw [getElem?_append_right (by omega), getElem?_replicate, if_pos (by omega)]
          simp [hji, hfree]
    · rw [length_append, hlength]
      rcases mem_cons.mp hj with rfl | hj
      · exact Nat.lt_succ_self j
      · have hlt := h.lt j hj
        omega
  rcases insertAt_inserted l es (e i) (i + 1) with
    ⟨front, back, rfl, hfront, heq⟩ | ⟨front, back, rfl, hfront, hback, heq⟩ | ⟨hgap, heq⟩
  · have hset : front ++ e i :: back = (front ++ .reserved l :: back).set i (e i) := by
      rw [← Nat.succ.inj hfront]
      simp
    rw [heq, hset]
    refine ⟨fun j hj => ?_, fun j hj => ?_, .inr ?_⟩ <;> rw [length_set] at *
    · rw [getElem?_set]
      by_cases hji : i = j
      · rw [if_pos hji, if_pos (hji.symm ▸ hj), if_pos (hji ▸ mem_cons_self), hji]
      · rw [if_neg hji, h.slot j hj]
        simp [Ne.symm hji]
    · rcases mem_cons.mp hj with rfl | hj
      · simp
        omega
      · exact h.lt j hj
    · exact mem_cons_of_mem _ (h.last.resolve_left (by simp))
  · cases back with
    | nil =>
      have hend := hbehind (by simp; omega)
      rw [heq]
      simpa [show i - front.length = 0 by omega] using hend
    | cons x _ =>
      have hat := h.slot i (by simp; omega)
      rw [if_neg hi, ← Nat.succ.inj (hfront (Nat.succ_ne_zero i))] at hat
      exact absurd (by simpa using hat) hback
  · rw [heq]
    exact hbehind (by omega)

theorem slots_foldl {l : LevelRef} {e : Nat → EntryRef} {order done : List Nat} (hnodup : (order ++ done).Nodup)
    (h : Slots l e done (w.level l).entryList) :
    Slots l e (order.reverse ++ done)
      ((order.foldl (fun w i => addEntryAt w l (e i) (i + 1)) w).level l).entryList := by
  induction order generalizing w done with
  | nil => exact h
  | cons i _ ih =>
    obtain ⟨hi, -⟩ := nodup_cons.mp hnodup
    rw [reverse_cons, append_assoc]
    apply ih (perm_middle.nodup_iff.mpr hnodup)
    rw [(addEntryAt_level w l (e i) (i + 1)).1]
    exact h.insertAt fun hmem => hi (mem_append_right _ hmem)

theorem foldl_addEntryAt {l : LevelRef} (hempty : (w.level l).entryList = []) (e : Nat → EntryRef) {n : Nat}
    {order : List Nat} (horder : order.Perm (List.range n)) :
    ((order.foldl (fun w i => addEntryAt w l (e i) (i + 1)) w).level l).entryList = (List.range n).map e := by
  have hnodup : (order ++ []).Nodup := by
    rw [append_nil]
    exact horder.nodup_iff.mpr nodup_range
  obtain ⟨hslot, hlt, hlast⟩ := slots_foldl hnodup ⟨by simp [hempty], nofun, .inl hempty⟩
  generalize ((order.foldl (fun w i => addEntryAt w l (e i) (i + 1)) w).level l).entryList = es at hslot hlt hlast
  have hdone : ∀ i, i ∈ order.reverse ++ [] ↔ i < n := fun i => by
    rw [append_nil, mem_reverse, horder.mem_iff, mem_range]
  have hlength : es.length = n := by
    rcases hlast with rfl | hlast
    · have hnone : ¬ 0 < n := fun h => absurd (hlt 0 ((hdone 0).mpr h)) (Nat.lt_irrefl 0)
      simp; omega
    · have hle : ∀ i < n, i < es.length := fun i hi => hlt i ((hdone i).mpr hi)
      have := (hdone _).mp hlast
      have := hle (n - 1)
      omega
  refine ext_getElem? fun i => ?_
  by_cases hi : i < n
  · rw [hslot i (hlength ▸ hi), if_pos ((hdone i).mpr hi)]
    simp [hi]
  · rw [getElem?_eq_none (by omega), getElem?_eq_none (by simp; omega)]

def Adds (w : World P) (l : LevelRef) (e : EntryRef) (p : Nat) : Prop :=
  (∃ numNew, Inserted l (w.level l).entryList e p (((addEntryAt w l e p).level l).entryList, numNew)) ∧
    Figures (addEntryAt w l e p) l

/-- The figures of the level are right after an addition exactly if the entry is counted, or takes no placeholder's
place and needs none; and entries added in any order end at their positions. -/
theorem adds_iff_and_in_order (w : World P) (l : LevelRef) (hblank : (w.entry (.reserved l)).isVisible) :
    (∀ e p, 1 ≤ p → Figures w l → (Adds w l e p ↔ w.counted (w.checkState l) e ∨
        p ≤ (w.level l).entryList.length + 1 ∧ (w.level l).entryList[p - 1]? ≠ some (.reserved l))) ∧
      ∀ (e : Nat → EntryRef) (n : Nat) (order : List Nat), (w.level l).entryList = [] → order.Perm (List.range n) →
        ((order.foldl (fun w i => addEntryAt w l (e i) (i + 1)) w).level l).entryList = (List.range n).map e := by
  refine ⟨fun e p hp h => ?_, fun e n order hempty horder => foldl_addEntryAt hempty e horder⟩
  rw [← figures_addEntryAt_iff hblank h e hp, Adds, and_iff_right_iff_imp]
  rintro -
  rw [(addEntryAt_level w l e p).1]
  exact ⟨_, insertAt_inserted l (w.level l).entryList e p⟩

def sampleChecked : World Nat where
  entry e := { sourceDeriv := if e = .obj 0 then some ⟨.root 0 .off, .unknown⟩ else none }
  level _ := { price := 1, book := some 0 }
  book _ := { checkVisibility := true }
  nextEntry := 3
  nextLevel := 1

theorem adds_visible_and_in_order :
    (sampleChecked.entry (.reserved 0)).isVisible ∧ Adds sampleChecked 0 (.obj 1) 3 ∧
      (([1, 0].foldl (fun w i => addEntryAt w 0 (.obj i) (i + 1)) sampleChecked).level 0).entryList = [.obj 0, .obj 1] :=
  have hboth := adds_iff_and_in_order sampleChecked 0 (by decide)
  ⟨by decide, (hboth.1 (.obj 1) 3 (by decide) ⟨by decide, by decide⟩).mpr (.inl (by decide)),
    hboth.2 .obj 2 [1, 0] rfl (List.Perm.swap 0 1 [])⟩

theorem not_adds_invisible : ¬Adds sampleChecked 0 (.obj 0) 2 := fun h => nomatch h.2.counted

/-! ### Moving an entry -/

structure MovedTo (w : World P) (id : String) (position : Nat) (es : List EntryRef) (e : EntryRef)
    (es' : List EntryRef) : Prop where
  id : (w.entry e).id = some id
  perm : es'.Perm es
  place : ∃ front back, es' = front ++ e :: back ∧ (front ++ back).Sublist es ∧ front.length + 1 = position

def Repositions (w : World P) (l : LevelRef) (id : String) (target : Nat) : Prop :=
  let o := updateEntryPosition w l (some id) target
  let es := (w.level l).entryList
  o.error = none ∧
    if ∃ e ∈ es, (w.entry e).id = some id then
      ∃ e, MovedTo w id (min target es.length) es e (o.state.level l).entryList
    else (o.state.level l).entryList = es

def Compares (w : World P) (id : String) (es : List EntryRef) : Prop :=
  ∀ e ∈ es.takeWhile (fun e => (w.entry e).id ≠ some id), (w.entry e).id ≠ none

theorem findEntryFrom_eq (w : World P) (id : String) (es : List EntryRef) :
    (findEntryFrom w id es = none ↔ ¬Compares w id es) ∧
      (Compares w id es → findEntryFrom w id es = some (es.find? fun e => (w.entry e).equalId (some id))) := by
  induction es with
  | nil => simp [findEntryFrom, Compares]
  | cons e _ ih =>
    cases hid : (w.entry e).id with
    | none => simp [findEntryFrom, Compares, hid]
    | some other =>
      by_cases hsame : other = id
      · simp [findEntryFrom, Compares, Entry.equalId, hid, hsame]
      · simpa [findEntryFrom, Compares, Entry.equalId, hid, hsame] using ih

theorem MovedTo.mem {position : Nat} {e : EntryRef} {es' : List EntryRef} (h : MovedTo w id position es e es') :
    e ∈ es := by
  obtain ⟨_, _, rfl, -⟩ := h.place
  exact h.perm.mem_iff.mp (by simp)

section

variable {e : EntryRef} {before there after : List EntryRef} (hid : (w.entry e).id = some id)

include hid

theorem movedTo_back (he : e ∈ es) : MovedTo w id es.length es e (es.erase e ++ [e]) := by
  refine ⟨hid, (perm_append_singleton e _).trans (perm_cons_erase he).symm, es.erase e, [], rfl, ?_, ?_⟩
  · rw [append_nil]
    exact erase_sublist
  · have hpos := length_pos_of_mem he
    rw [length_erase_of_mem he]
    omega

theorem movedTo_self : MovedTo w id (before.length + 1) (before ++ e :: after) e (before ++ e :: after) :=
  ⟨hid, List.Perm.refl _, before, after, rfl, (List.Sublist.refl before).append (sublist_cons_self e after), rfl⟩

theorem movedTo_down (he : e ∈ before) (hthere : there.length = 1) :
    MovedTo w id (before.length + 1) (before ++ (there ++ after)) e (before.erase e ++ there ++ e :: after) := by
  refine ⟨hid, perm_middle.trans ?_, before.erase e ++ there, after, rfl, ?_, ?_⟩
  · rw [append_assoc]
    exact (perm_cons_erase he).symm.append_right (there ++ after)
  · rw [append_assoc]
    exact erase_sublist.append (List.Sublist.refl _)
  · have hpos := length_pos_of_mem he
    rw [length_append, length_erase_of_mem he]
    omega

theorem movedTo_up (he : e ∈ after) :
    MovedTo w id (before.length + 1) (before ++ (there ++ after)) e (before ++ e :: there ++ after.erase e) := by
  refine ⟨hid, ?_, before, there ++ after.erase e, by simp, ?_, rfl⟩
  · have hback := perm_middle.symm.trans ((perm_cons_erase he).symm.append_left there)
    simpa using hback.append_left before
  · exact (List.Sublist.refl before).append ((List.Sublist.refl there).append erase_sublist)

end

/-- What a move comes to: an entry is moved, or it is there already, or there is none. -/
def Moves (w : World P) (id : String) (position : Nat) (es : List EntryRef) :
    Option (EntryRef × List EntryRef) → Prop
  | some (e, es') => MovedTo w id position es e es'
  | none => (∃ e, MovedTo w id position es e es) ∨ ∀ e ∈ es, (w.entry e).id ≠ some id

theorem moveWithin_moves (hlow : 1 < target) (hhigh : target < es.length) :
    Moves w id target es (moveWithin w id target es) := by
  have hsplit : es = es.take (target - 1) ++ ((es.drop (target - 1)).take 1 ++ es.drop target) := by
    have hdrop : es.drop target = (es.drop (target - 1)).drop 1 := by
      rw [drop_drop]
      congr 1
      omega
    rw [hdrop, take_append_drop, take_append_drop]
  have hbefore : (es.take (target - 1)).length + 1 = target := by
    rw [length_take]
    omega
  have hthere : ((es.drop (target - 1)).take 1).length = 1 := by
    rw [length_take, length_drop]
    omega
  unfold moveWithin
  generalize es.take (target - 1) = before at *
  generalize (es.drop (target - 1)).take 1 = there at *
  generalize es.drop target = after at *
  obtain ⟨x, rfl⟩ := List.length_eq_one_iff.mp hthere
  subst hsplit
  simp only [any_cons, any_nil, Bool.or_false, equalId_iff]
  rw [← hbefore]
  split
  next hx => exact .inl ⟨x, movedTo_self hx⟩
  next hx =>
    cases hdown : before.reverse.find? fun e => (w.entry e).equalId (some id) with
    | some e =>
      have hid : (w.entry e).id = some id := by simpa only [equalId_iff] using find?_some hdown
      exact movedTo_down hid (mem_reverse.mp (mem_of_find?_eq_some hdown)) hthere
    | none =>
      cases hup : after.find? fun e => (w.entry e).equalId (some id) with
      | some e =>
        have hid : (w.entry e).id = some id := by simpa only [equalId_iff] using find?_some hup
        exact movedTo_up hid (mem_of_find?_eq_some hup)
      | none =>
        refine .inr fun e he hid => ?_
        simp only [find?_eq_none, mem_reverse, equalId_iff] at hdown hup
        rcases mem_append.mp he with he | he
        · exact hdown e he hid
        · rcases mem_cons.mp he with rfl | he
          · exact hx hid
          · exact hup e he hid

theorem moves_find {position : Nat} {place : EntryRef → List EntryRef}
    (hplace : ∀ e, (w.entry e).id = some id → e ∈ es → MovedTo w id position es e (place e)) :
    Moves w id position es ((es.find? fun e => (w.entry e).equalId (some id)).map fun e => (e, place e)) := by
  cases hfound : es.find? fun e => (w.entry e).equalId (some id) with
  | none => exact .inr (by simpa only [find?_eq_none, equalId_iff] using hfound)
  | some e =>
    have hid : (w.entry e).id = some id := by simpa only [equalId_iff] using find?_some hfound
    exact hplace e hid (mem_of_find?_eq_some hfound)

theorem moveEntry_spec (w : World P) (id : String) (es : List EntryRef) (htarget : 1 ≤ target) :
    (moveEntry w id target es = none ↔
      ¬(1 < es.length → target = 1 ∨ es.length ≤ target → Compares w id es)) ∧
    ∀ moved, moveEntry w id target es = some moved → Moves w id (min target es.length) es moved := by
  obtain ⟨hfails, hfinds⟩ := findEntryFrom_eq w id es
  have hend : ∀ place : EntryRef → List EntryRef,
      (∀ e, (w.entry e).id = some id → e ∈ es → MovedTo w id (min target es.length) es e (place e)) →
      ((findEntryFrom w id es).map (fun found => found.map fun e => (e, place e)) = none ↔ ¬Compares w id es) ∧
        ∀ moved, (findEntryFrom w id es).map (fun found => found.map fun e => (e, place e)) = some moved →
          Moves w id (min target es.length) es moved := by
    intro _ hplace
    refine ⟨Option.map_eq_none_iff.trans hfails, fun moved hmoved => ?_⟩
    have hcompares : Compares w id es := by
      by_contra hnot
      rw [hfails.mpr hnot] at hmoved
      cases hmoved
    rw [hfinds hcompares] at hmoved
    exact Option.some.inj hmoved ▸ moves_find hplace
  unfold moveEntry
  split
  next hshort =>
    refine ⟨iff_of_false nofun (not_not.mpr fun hlong => absurd hshort (by omega)), fun moved hmoved => ?_⟩
    cases hmoved
    cases es with
    | nil => exact .inr (by simp)
    | cons x rest =>
      obtain rfl : rest = [] := length_eq_zero_iff.mp (by simpa using hshort)
      by_cases hx : (w.entry x).id = some id
      · have hself : MovedTo w id (([] : List EntryRef).length + 1) ([] ++ [x]) x ([] ++ [x]) := movedTo_self hx
        rw [length_singleton, Nat.min_eq_right htarget]
        exact .inl ⟨x, hself⟩
      · exact .inr (by simpa using hx)
  next hlong =>
    have hlong : 1 < es.length := by omega
    split
    next hone =>
      refine And.imp_left (fun h => h.trans ?_) (hend _ fun e hid he => ?_)
      · rw [hone, Nat.min_eq_left (Nat.le_of_lt hlong)]
        exact ⟨hid, (perm_cons_erase he).symm, [], es.erase e, rfl, erase_sublist, rfl⟩
      · exact not_congr ⟨fun h _ _ => h, fun h => h hlong (.inl hone)⟩
    · split
      next hlast =>
        refine And.imp_left (fun h => h.trans ?_) (hend _ fun e hid he => ?_)
        · rw [Nat.min_eq_right hlast]
          exact movedTo_back hid he
        · exact not_congr ⟨fun h _ _ => h, fun h => h hlong (.inr hlast)⟩
      next hone hlast =>
        refine ⟨iff_of_false nofun (not_not.mpr fun _ h => absurd h (not_or.mpr ⟨hone, hlast⟩)), fun moved hmoved => ?_⟩
        rw [Nat.min_eq_left (by omega), ← Option.some.inj hmoved]
        exact moveWithin_moves (by omega) (by omega)

/-- The entry comes to its position, unless it is to be the first or the last of several and one without an id is met on
the way to it. -/
theorem repositions_iff (w : World P) (l : LevelRef) (id : String) (target : Nat) (htarget : 1 ≤ target) :
    Repositions w l id target ↔
      (1 < (w.level l).entryList.length → target = 1 ∨ (w.level l).entryList.length ≤ target →
        Compares w id (w.level l).entryList) := by
  obtain ⟨hfails, hmoves⟩ := moveEntry_spec w id (w.level l).entryList htarget
  cases hmove : moveEntry w id target (w.level l).entryList with
  | none =>
    refine iff_of_false (fun h => ?_) (hfails.mp hmove)
    have herror := h.1
    simp [updateEntryPosition, hmove] at herror
  | some moved =>
    have hcompares := not_not.mp (mt hfails.mpr (by rw [hmove]; nofun))
    refine iff_of_true ?_ hcompares
    have hmoved := hmoves moved hmove
    rw [Repositions, updateEntryPosition, hmove]
    cases moved with
    | none =>
      refine ⟨rfl, ?_⟩
      rcases hmoved with ⟨e, he⟩ | hnone
      · rw [if_pos ⟨e, he.mem, he.id⟩]
        exact ⟨e, he⟩
      · rw [if_neg fun ⟨e, he, hid⟩ => hnone e he hid]
        rfl
    | some found =>
      have hmoved : MovedTo w id _ (w.level l).entryList found.1 found.2 := hmoved
      refine ⟨rfl, ?_⟩
      rw [if_pos ⟨found.1, hmoved.mem, hmoved.id⟩]
      exact ⟨found.1, by simpa [entryList] using hmoved⟩

def sampleList (es : List EntryRef) : World Nat :=
  ((World.init (fun _ => false) fun _ => none).newEntry { id := some "A", size := 5 }).modifyLevel 0 fun lev =>
    { lev with entries := some es }

theorem repositions_before_placeholder : Repositions (sampleList [.obj 0, .reserved 0]) 0 "A" 2 :=
  (repositions_iff (sampleList [.obj 0, .reserved 0]) 0 "A" 2 (by decide)).mpr fun _ _ => by unfold Compares; decide

theorem not_repositions_behind_placeholder : ¬Repositions (sampleList [.reserved 0, .obj 0]) 0 "A" 1 :=
  fun h => nomatch h.1

def sizes (w : World P) (l : LevelRef) (id : Option String) : Option Int :=
  (findById w l id).map fun e => (w.entry e).size

/-- `setAsDifference` ends, and the difference `l` of two levels, applied to a level `c` of a side, makes it the
right one. -/
def Differs (w : World P) (b : BookRef) (side : Side) (l lhs rhs c : LevelRef) : Prop :=
  ∃ bound w', setAsDifference w l lhs rhs bound = some w' ∧
    let o := applyLevelSide w' b side l
    o.error = none ∧ (∀ id, sizes o.state c id = sizes w rhs id) ∧
      (w.level lhs).size + (w'.level l).sizeChange = (w.level rhs).size

theorem differenceLoop_nil (l : LevelRef) (bound : Nat) (w : World P) : differenceLoop l bound [] [] w = some w := by
  rw [differenceLoop]

/-- In a level that was just constructed there is nothing to go over. -/
theorem setAsDifference_of_new (w : World P) {l : LevelRef} (lhs rhs : LevelRef) (hnew : (w.level l).entries = none) :
    ∃ w' : World P, (∀ bound, setAsDifference w l lhs rhs bound = some w') ∧ (w'.level l).entries = some [] ∧
      (w'.level l).price = (w.level rhs).price ∧
      (w'.level l).sizeChange = clampQuantity ((w.level rhs).size - (w.level lhs).size) ∧
      w'.entry = w.entry ∧ w'.book = w.book ∧ ∀ l', l' ≠ l → w'.level l' = w.level l' := by
  have hlist : visibleEntries (createEntries w l) l = [] := by
    simp [visibleEntries, createEntries, entryList, hnew]
  have hread (l' : LevelRef) : ((createEntries w l).level l').size = (w.level l').size ∧
      ((createEntries w l).level l').price = (w.level l').price := by
    by_cases hl : l' = l <;> simp [createEntries, hl]
  refine ⟨(createEntries w l).modifyLevel l
    (differenceFields · ((createEntries w l).level lhs) ((createEntries w l).level rhs)), fun bound => ?_, ?_⟩
  · rw [setAsDifference, hlist, differenceLoop_nil, Option.map_some]
  · refine ⟨?_, ?_, ?_, rfl, rfl, fun l' hl => ?_⟩
    · simp [createEntries, entryList, hnew, differenceFields, setNumEntries, setSize, setSizeChange]
    · simp [differenceFields, setNumEntries, setSize, setSizeChange, (hread rhs).2]
    · simp [differenceFields, setNumEntries, setSize, setSizeChange, (hread rhs).1, (hread lhs).1]
    · simp [createEntries, hl]

theorem add_clampQuantity_eq_iff (x y : Int) : x + clampQuantity (y - x) = y ↔ x ≤ y := by
  simp only [clampQuantity, isQuantityNone, decide_eq_true_eq]
  split <;> omega

section

variable (w : World P) {b : BookRef} {side : Side} {l lhs rhs c : LevelRef} (hnew : (w.level l).entries = none)
  (hfound : findLevel w b side (w.level rhs).price = some c) (hc : c ≠ l)
include hnew hfound hc

theorem differs_of_new : Differs w b side l lhs rhs c ↔
    (∀ id, sizes w c id = sizes w rhs id) ∧ (w.level lhs).size ≤ (w.level rhs).size := by
  obtain ⟨w', hset, hentries, hprice, hchange, hentry, hbook, hothers⟩ := setAsDifference_of_new w lhs rhs hnew
  have hlist : visibleEntries w' l = [] := by simp [visibleEntries, entryList, hentries]
  have happly : applyLevelSide w' b side l = .ok (applyToLevel w' l c) := by
    rw [applyLevelSide, updateLevelWith, hprice, findLevel, hbook]
    rw [show ((w.book b).levels side)[(w.level rhs).price]? = some c from hfound]
  have hsame (id : Option String) : sizes (applyToLevel w' l c) c id = sizes w c id := by
    rw [applyToLevel, hlist]
    simp [sizes, findById, createEntries, setDetails, entryList, hc, hentry, hothers c hc]
  rw [← add_clampQuantity_eq_iff, ← hchange]
  constructor
  · rintro ⟨bound, w'', hset', -, hsizes, hsize⟩
    obtain rfl := Option.some.inj ((hset bound).symm.trans hset')
    rw [happly] at hsizes
    exact ⟨fun id => (hsame id).symm.trans (hsizes id), hsize⟩
  · rintro ⟨hsizes, hsize⟩
    refine ⟨0, w', hset 0, ?_⟩
    rw [happly]
    exact ⟨rfl, fun id => (hsame id).trans (hsizes id), hsize⟩

/-- The difference has no entries, and no change of size that is negative. -/
theorem differs_iff (hcopy : ∀ id, sizes w c id = sizes w lhs id) :
    Differs w b side l lhs rhs c ↔
      (∀ id, sizes w lhs id = sizes w rhs id) ∧ (w.level lhs).size ≤ (w.level rhs).size := by
  rw [differs_of_new w hnew hfound hc]
  simp only [hcopy]

end

def sampleLevels (size : Int) : World Nat where
  entry e := { id := some "A", size := if e = .obj 1 then size else 5 }
  level l := { price := 1, size := if l = 1 then 7 else 5, entries := if l = 2 then none else some [.obj l] }
  book _ := { bidLevels := (∅ : Std.TreeMap Nat LevelRef).insert 1 3 }
  nextEntry := 4
  nextLevel := 4

theorem differs_same_entries : Differs (sampleLevels 5) 0 .bid 2 0 1 3 := by
  have hsame : ∀ l id, l ≠ 2 → sizes (sampleLevels 5) l id = sizes (sampleLevels 5) 0 id := fun l id hl => by
    simp only [sizes, findById, sampleLevels, entryList, if_neg hl]
    cases h : ({ id := some "A", size := 5 } : Entry).equalId id <;> simp [h]
  refine (differs_iff (sampleLevels 5) rfl rfl (by decide) fun id => hsame 3 id (by decide)).mpr ⟨fun id => ?_, by decide⟩
  exact (hsame 1 id (by decide)).symm

theorem not_differs_entries : ¬Differs (sampleLevels 7) 0 .bid 2 0 1 3 := by
  rw [differs_of_new (sampleLevels 7) rfl rfl (by decide)]
  rintro ⟨hsizes, -⟩
  cases hsizes (some "A")

end PriceLevel

end OpenMama.OrderBook
