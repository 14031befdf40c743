import OpenMama.OrderBook.BookCopy

/-!
# Applying a delta, as the view sees it

A delta points at the live level and the live entry of the book it was recorded on. Applied to another book, an ADD
stores a copy of that level, an UPDATE changes one entry of the level found there, by id, and takes over the live
level's figures, a DELETE erases the price.
-/

namespace OpenMama.OrderBook

open Book List PriceLevel

variable {P : Type} [LinearOrder P]

def EntryView.hasId (id : Option String) (v : EntryView) : Bool := v.id.isSome && v.id == id

def eraseById (id : Option String) (entries : List EntryView) : List EntryView :=
  entries.eraseP (EntryView.hasId id)

def resizeById (id : Option String) (size : Int) : List EntryView → List EntryView
  | [] => []
  | v :: entries => if v.hasId id then { v with size := size } :: entries else v :: resizeById id size entries

variable {es : List EntryRef} {e : EntryRef} {w : World P} {id : Option String} {l : LevelRef}

theorem hasId_entryView (w : World P) (e : EntryRef) (id : Option String) :
    (entryView w e).hasId id = (w.entry e).equalId id := rfl

private theorem erase_eq_eraseP_of_find? {q : EntryRef → Bool} (h : es.find? q = some e) :
    es.erase e = es.eraseP q := by
  induction es with
  | nil => cases h
  | cons x _ ih =>
    rw [find?_cons] at h
    cases hq : q x with
    | true =>
      rw [hq] at h
      cases h
      rw [erase_cons_head, eraseP_cons_of_pos hq]
    | false =>
      rw [hq] at h
      have hne : x ≠ e := by
        rintro rfl
        have := find?_some h
        rw [hq] at this
        cases this
      rw [erase_cons_tail (by simpa using hne), eraseP_cons_of_neg (by simp [hq]), ih h]

theorem map_entryView_erase (h : es.find? (fun x => (w.entry x).equalId id) = some e) :
    (es.erase e).map (entryView w) = eraseById id (es.map (entryView w)) := by
  rw [erase_eq_eraseP_of_find? h, eraseById, eraseP_map]
  rfl

theorem eraseById_of_find?_none (h : es.find? (fun x => (w.entry x).equalId id) = none) :
    eraseById id (es.map (entryView w)) = es.map (entryView w) := by
  rw [eraseById, eraseP_of_forall_not]
  intro v hv
  obtain ⟨x, hx, rfl⟩ := mem_map.mp hv
  exact find?_eq_none.mp h x hx

theorem map_entryView_resize {w' : World P} {size : Int}
    (h : es.find? (fun x => (w.entry x).equalId id) = some e) (honce : es.count e ≤ 1)
    (hself : entryView w' e = { entryView w e with size := size })
    (hother : ∀ x ∈ es, x ≠ e → entryView w' x = entryView w x) :
    es.map (entryView w') = resizeById id size (es.map (entryView w)) := by
  induction es with
  | nil => cases h
  | cons x es ih =>
    rw [find?_cons] at h
    rw [map_cons, map_cons, resizeById, hasId_entryView]
    cases hq : (w.entry x).equalId id with
    | true =>
      rw [hq] at h
      cases h
      have hnot : e ∉ es := by
        rw [count_cons_self] at honce
        exact count_eq_zero.mp (by omega)
      congr 1
      refine map_congr_left fun y hy => hother y (by simp [hy]) ?_
      rintro rfl
      exact hnot hy
    | false =>
      rw [hq] at h
      have hne : x ≠ e := by
        rintro rfl
        have := find?_some h
        rw [hq] at this
        cases this
      rw [hother x (by simp) hne]
      congr 1
      exact ih h ((sublist_cons_self x es).count_le e |>.trans honce) fun y hy => hother y (by simp [hy])

theorem resizeById_of_find?_none {size : Int} (h : es.find? (fun x => (w.entry x).equalId id) = none) :
    resizeById id size (es.map (entryView w)) = es.map (entryView w) := by
  induction es with
  | nil => rfl
  | cons x es ih =>
    obtain ⟨hx, hes⟩ : (w.entry x).equalId id = false ∧ es.find? (fun x => (w.entry x).equalId id) = none := by
      simpa [find?_eq_none] using h
    rw [map_cons, resizeById, hasId_entryView, hx, if_neg (by simp), ih hes]

/-! ### The level operations of a replay -/

/-- A level after a step on its entries keeps its price, side, book, action and order type. -/
structure SameFields (lev lev' : PriceLevel P) : Prop where
  price : lev'.price = lev.price
  side : lev'.side = lev.side
  book : lev'.book = lev.book
  action : lev'.action = lev.action
  orderType : lev'.orderType = lev.orderType

omit [LinearOrder P] in
theorem SameFields.trans {lev lev' lev'' : PriceLevel P} (h : SameFields lev lev')
    (h' : SameFields lev' lev'') : SameFields lev lev'' :=
  ⟨h'.price.trans h.price, h'.side.trans h.side, h'.book.trans h.book, h'.action.trans h.action,
    h'.orderType.trans h.orderType⟩

/-- A step on the entries of one level: the books stay, and the entries become `entries`. -/
structure EntryStep (l : LevelRef) (w w' : World P) (entries : List EntryView) : Prop where
  wired : Wired w'
  frame : Frame l w w'
  stored : ∀ b s q, stored w' b s q = stored w b s q
  check : ∀ b, (w'.book b).checkVisibility = (w.book b).checkVisibility
  fields : SameFields (w.level l) (w'.level l)
  entries : entryViews w' l = entries

theorem EntryStep.refl (h : Wired w) (l : LevelRef) : EntryStep l w w (entryViews w l) :=
  ⟨h, Frame.refl l w, fun _ _ _ => rfl, fun _ => rfl, ⟨rfl, rfl, rfl, rfl, rfl⟩, rfl⟩

theorem EntryStep.trans {w' w'' : World P} {entries entries' : List EntryView} (h : EntryStep l w w' entries)
    (h' : EntryStep l w' w'' entries') : EntryStep l w w'' entries' :=
  ⟨h'.wired, h.frame.trans h'.frame, fun b s q => (h'.stored b s q).trans (h.stored b s q),
    fun b => (h'.check b).trans (h.check b), h.fields.trans h'.fields, h'.entries⟩

theorem createEntries_entryList (w : World P) (l : LevelRef) :
    ((createEntries w l).level l).entryList = (w.level l).entryList := by
  simp [createEntries, entryList]

theorem entryStep_createEntries (h : Wired w) (l : LevelRef) :
    EntryStep l w (createEntries w l) (entryViews w l) := by
  refine ⟨h.modifyLevel ⟨rfl, rfl, rfl⟩, (Frame.refl l w).modifyLevel fun e he => he,
    fun _ _ _ => rfl, fun _ => rfl, ?_, entryViews_congr rfl (createEntries_entryList w l)⟩
  constructor <;> simp [createEntries]

theorem entryStep_addEntry (h : Wired w) (l : LevelRef) (entry : Entry) :
    EntryStep l w (addEntry (w.newEntry entry) l w.freshEntry)
      (entryViews w l ++ [{ entry.view with positioned := false }]) := by
  have hlistable : Wired.Listable (w.newEntry entry) l w.freshEntry :=
    .inr ⟨w.nextEntry, rfl, Nat.lt_succ_self _, h.freshEntry_not_mem⟩
  refine ⟨(h.newEntry entry).addEntry hlistable,
    ((Frame.refl l w).newEntry entry).addEntry (.inr le_rfl), fun _ _ _ => rfl, fun _ => rfl, ?_, ?_⟩
  · constructor <;> simp [PriceLevel.addEntry]
  · have hold := (h.untouched_newEntry entry l).entryViews
    have hnot : w.freshEntry ∉ ((w.newEntry entry).level l).entryList := h.freshEntry_not_mem l
    unfold PriceLevel.addEntry
    rw [entryViews_append rfl fun hmem => absurd hmem hnot, hold]
    simp [Entry.view]

theorem entryStep_updateEntry (h : Wired w) (l : LevelRef) (entry : Entry) :
    EntryStep l w (updateEntry w l entry)
      (resizeById entry.id entry.size (entryViews w l)) := by
  have hcreate := entryStep_createEntries h l
  have hlist := createEntries_entryList w l
  unfold PriceLevel.updateEntry
  cases hfind : findById w l entry.id with
  | none =>
    rw [entryViews, resizeById_of_find?_none hfind]
    exact hcreate
  | some e =>
    have he : e ∈ (w.level l).entryList := mem_of_find?_eq_some hfind
    -- A placeholder has no id, so the entry found is an object, and listed once.
    obtain ⟨n, rfl⟩ : ∃ n, e = .obj n := by
      cases e with
      | obj n => exact ⟨n, rfl⟩
      | reserved k =>
        have hid := find?_some hfind
        simp [Entry.equalId, (h.blank k).id] at hid
    refine ⟨hcreate.wired.modifyEntry n rfl,
      hcreate.frame.modifyEntry (hcreate.frame.own_of_mem hcreate.wired (hlist ▸ he)) _,
      fun _ _ _ => rfl, fun _ => rfl, hcreate.fields, ?_⟩
    rw [entryViews, World.modifyEntry_level, hlist]
    refine map_entryView_resize hfind (h.once l n) ?_ fun x _ hne => ?_
    · simp [entryView, Entry.view, Entry.setDetails, createEntries]
    · simp [entryView, hne, createEntries]

theorem entryStep_eraseEntry (h : Wired w) (hfind : findById w l id = some e) :
    EntryStep l w (eraseEntry w l e) (eraseById id (entryViews w l)) := by
  refine ⟨h.eraseEntry l e, (Frame.refl l w).eraseEntry e, fun b s q => by simp, fun b => by simp, ?_, ?_⟩
  · constructor <;> simp [eraseEntry_level]
  · rw [entryViews, entryViews, ← map_entryView_erase hfind]
    simp [eraseEntry_level, entryList, entryView]

theorem entryStep_removeEntryById (h : Wired w) (l : LevelRef) (entry : Entry) :
    EntryStep l w (removeEntryById w l entry) (eraseById entry.id (entryViews w l)) := by
  have hcreate := entryStep_createEntries h l
  unfold removeEntryById
  cases hfind : findById w l entry.id with
  | none =>
    rw [entryViews, eraseById_of_find?_none hfind]
    exact hcreate
  | some e =>
    have hfind' : findById (createEntries w l) l entry.id = some e := by
      rw [findById, createEntries_entryList]
      exact hfind
    rw [← hcreate.entries]
    exact hcreate.trans (entryStep_eraseEntry hcreate.wired hfind')

def deltaEffect (w : World P) (delta : BasicDelta) (entries : List EntryView) : List EntryView :=
  match delta.entry with
  | none => entries
  | some e =>
    match delta.entryAction with
    | .add => entries ++ [{ entryView w e with positioned := false }]
    | .update => resizeById (w.entry e).id (w.entry e).size entries
    | .delete => eraseById (w.entry e).id entries
    | .unknown => entries

theorem entryStep_applyDeltaEntry (h : Wired w) (delta : BasicDelta) (l : LevelRef) :
    EntryStep l w (applyDeltaEntry w delta l) (deltaEffect w delta (entryViews w l)) := by
  unfold applyDeltaEntry deltaEffect
  cases delta.entry with
  | none => exact EntryStep.refl h l
  | some e =>
    cases delta.entryAction with
    | add => exact entryStep_addEntry h l (w.entry e).copy
    | update => exact entryStep_updateEntry h l (w.entry e)
    | delete => exact entryStep_removeEntryById h l (w.entry e)
    | unknown => exact EntryStep.refl h l

def LevelView.withEntries (v : LevelView) (entries : List EntryView) : LevelView :=
  { v with entries := entries }

theorem EntryStep.setDetails {w' : World P} {found : LevelRef} {entries : List EntryView}
    (h : EntryStep found w w' entries) {b : BookRef} {s : Side} {q : Option P}
    (hfound : OrderBook.stored w b s q = some found) (hne : l ≠ found) :
    let w'' := w'.modifyLevel found (·.setDetails (w'.level l))
    Stores b s q found w w'' ∧ levelView w'' found = (levelView w l).withEntries entries := by
  have hl := h.frame.level l hne
  constructor
  · exact Stores.of_stored (h.wired.modifyLevel ⟨rfl, rfl, rfl⟩)
      (h.frame.modifyLevel fun e he => he) h.stored h.check hfound
  · have hentries : entryViews (w'.modifyLevel found (·.setDetails (w'.level l))) found = entries := by
      rw [← h.entries]
      refine entryViews_congr rfl ?_
      simp [PriceLevel.setDetails, PriceLevel.entryList]
    rw [levelView, hentries, LevelView.withEntries, levelView]
    simp [PriceLevel.setDetails, hl]

section ApplyDelta

variable {w : World P} {b : BookRef} {delta : BasicDelta} {l : LevelRef} {s : Side}
  (hdelta : delta.priceLevel = some l) (hlimit : (w.level l).orderType ≠ .market) (hlevel : (w.level l).side = s)
  (hs : s ≠ .unknown)

include hdelta hlimit hlevel hs

theorem applyDelta_eq : applyDelta b delta w = applySideDelta w b s delta l := by
  subst hlevel
  cases hside : (w.level l).side with
  | unknown => exact absurd hside hs
  | bid | ask => simp only [applyDelta, hdelta, hlimit, if_false, hside]

theorem applyDelta_add (h : Wired w) (haction : delta.plAction = .add) (hlt : l < w.nextLevel) (hcopy : Copyable w l)
    (hfree : findLevel w b s (w.level l).price = none) :
    let o := applyDelta b delta w
    o.error = none ∧ Stores b s (some (w.level l).price) w.nextLevel w o.state ∧
      IsCopy w o.state l w.nextLevel b := by
  have ho : applyDelta b delta w = .ok (insertCopy w b s l) := by
    rw [applyDelta_eq hdelta hlimit hlevel hs]
    simp only [applySideDelta, byAction, haction, addLevelSideDelta, addLevelWith, hfree, Outcome.rethrow_ok]
  rw [ho]
  exact ⟨rfl, insertCopy_stores h b hs hlt hlevel hcopy⟩

theorem applyDelta_update (h : Wired w) (haction : delta.plAction = .update) {found : LevelRef}
    (hfound : findLevel w b s (w.level l).price = some found) (hne : l ≠ found) :
    let o := applyDelta b delta w
    o.error = none ∧ Stores b s (some (w.level l).price) found w o.state ∧
      levelView o.state found =
        (levelView w l).withEntries (deltaEffect w delta (entryViews w found)) := by
  have ho : applyDelta b delta w = .ok (applyDeltaToLevel w delta l found) := by
    rw [applyDelta_eq hdelta hlimit hlevel hs]
    simp only [applySideDelta, byAction, haction, applyLevelSideDelta, updateLevelWith, hfound, Outcome.rethrow_ok]
  rw [ho]
  exact ⟨rfl, (entryStep_applyDeltaEntry h delta found).setDetails (q := some (w.level l).price) hfound hne⟩

theorem applyDelta_delete (haction : delta.plAction = .delete) {found : LevelRef}
    (hfound : findLevel w b s (w.level l).price = some found) :
    applyDelta b delta w = .ok (eraseLevel w b s (w.level l).price) := by
  rw [applyDelta_eq hdelta hlimit hlevel hs]
  simp only [applySideDelta, byAction, haction, deleteLevelSide, hfound, Outcome.rethrow_ok]

end ApplyDelta

end OpenMama.OrderBook
