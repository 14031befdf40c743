import OpenMama.OrderBook.ListReplay
import OpenMama.OrderBook.Tally

/-!
# One call, one delta

`addEntry`, `updateEntry` and `deleteEntry` each change one place of a book and record one delta (`Records`), which
does to a copy of the book what the call did to the book. The calls keep a book in which every level has its figures
right, lists entries with different ids and positive sizes, and is marked ADD (`EntryBook`).
-/

namespace OpenMama.OrderBook

open Book List PriceLevel

variable {P : Type} [LinearOrder P]

inductive Records (b : BookRef) (s : Side) (p : P) (l : LevelRef) (w w' : World P)
    (delta : BasicDelta) : Prop
  | created (hstores : Stores b s (some p) l w w') (hfree : findLevel w b s p = none)
      (hcopy : Copyable w' l) (haction : delta.plAction = .add)
  | changed (hstores : Stores b s (some p) l w w') (hfound : findLevel w b s p = some l)
      (haction : delta.plAction = .update)
      (hentries : entryViews w' l = deltaEffect w' delta (entryViews w l))
      (hentry : ∀ e, delta.entry = some e →
        ∃ n, e = .obj n ∧ n < w'.nextEntry ∧ (w'.entry e).priceLevel = some l)
  | removed (hvacates : Vacates b s (some p) l w w') (hfound : findLevel w b s p = some l)
      (haction : delta.plAction = .delete)

namespace Records

variable {b c : BookRef} {s : Side} {p : P} {l : LevelRef} {w w' : World P} {delta : BasicDelta}

variable (h : Records b s p l w w' delta)
include h

theorem wired : Wired w' := by
  cases h with
  | created hstores => exact hstores.wired
  | changed hstores => exact hstores.wired
  | removed hvacates => exact hvacates.wired

theorem frame : Frame l w w' := by
  cases h with
  | created hstores => exact hstores.frame
  | changed hstores => exact hstores.frame
  | removed hvacates => exact hvacates.frame

theorem stored_other {b' : BookRef} {s' : Side} {q' : Option P} (hne : ¬ (b' = b ∧ s' = s ∧ q' = some p)) :
    stored w' b' s' q' = stored w b' s' q' := by
  cases h with
  | created hstores | changed hstores => rw [hstores.stored, if_neg hne]
  | removed hvacates => rw [hvacates.stored, if_neg hne]

theorem placeView_other (hw : Wired w) {b' : BookRef} {s' : Side} {q' : Option P}
    (hne : ¬ (b' = b ∧ s' = s ∧ q' = some p)) : placeView w' b' s' q' = placeView w b' s' q' := by
  cases h with
  | created hstores | changed hstores => exact hstores.placeView_other hw hne
  | removed hvacates hfound => exact hvacates.placeView_other hw hfound hne

theorem replayDelta (hdelta : delta.priceLevel = some l) :
    OrderBook.replayDelta w' (placeView w b s (some p)) delta = some (placeView w' b s (some p)) := by
  cases h with
  | created hstores hfree _ haction =>
    have hbefore : placeView w b s (some p) = none := placeView_eq_none.mpr hfree
    rw [hbefore, hstores.placeView_self]
    simp only [OrderBook.replayDelta, hdelta, haction]
  | changed hstores hfound haction hentries =>
    have hbefore : placeView w b s (some p) = some (levelView w l) := bookView_of_findLevel hfound
    rw [hbefore, hstores.placeView_self]
    simp only [OrderBook.replayDelta, hdelta, haction, levelView, ← hentries, LevelView.withEntries]
  | removed hvacates hfound haction =>
    have hbefore : placeView w b s (some p) = some (levelView w l) := bookView_of_findLevel hfound
    rw [hbefore, hvacates.placeView_self]
    simp only [OrderBook.replayDelta, hdelta, haction]

theorem outside (hw : Wired w) (hc : c ≠ b) : ¬ Reaches c w' l := by
  cases h with
  | created hstores | changed hstores => exact not_reaches hstores.wired hstores.stored_self hc.symm
  | removed hvacates hfound =>
    rintro (hnew | ⟨_, _, hl'⟩)
    · exact absurd ((hw.lt_nextLevel hfound).trans_le hvacates.frame.nextLevel) hnew.not_gt
    · rw [hvacates.stored, if_neg fun heq => hc heq.1] at hl'
      have hl : stored w b s (some p) = some l := hfound
      exact hc (hw.owner hl hl').1

theorem replay (hw : Wired w) (hc : c ≠ b) (hs : s ≠ .unknown) (hdelta : delta.priceLevel = some l)
    (hprice : (w'.level l).price = p) (hside : (w'.level l).side = s) (hlimit : (w'.level l).orderType ≠ .market)
    (hsame : ∀ s q, placeView w c s q = placeView w b s q) :
    let o := applyDelta c delta w'
    o.error = none ∧ ∀ s q, placeView o.state c s q = placeView w' b s q := by
  have hcopy : ∀ s q, placeView w' c s q = placeView w c s q := fun s' q' => h.placeView_other hw fun heq => hc heq.1
  have hforeign : Foreign c w' s p l delta := by
    refine ⟨⟨hdelta, hprice, hside, hs, hlimit, h.outside hw hc⟩, fun haction e he => ?_, fun haction => ?_⟩
    · cases h with
      | created _ _ _ hadd => cases hadd.symm.trans haction
      | changed hstores _ _ _ hentry =>
        obtain ⟨n, rfl, hn, hlevel⟩ := hentry e he
        exact ⟨n, l, rfl, hn, hlevel, not_reaches hstores.wired hstores.stored_self hc.symm⟩
      | removed _ _ hdelete => cases hdelete.symm.trans haction
    · cases h with
      | created _ _ hcopyable _ => exact hcopyable
      | changed _ _ hupdate => cases hupdate.symm.trans haction
      | removed _ _ hdelete => cases hdelete.symm.trans haction
  have hview := h.replayDelta hdelta
  rw [← hsame s (some p), ← hcopy] at hview
  obtain ⟨herror, hshows⟩ := (Confined.refl h.wired c).replayDelta h.wired hforeign
  have hstep := hshows _ hview
  refine ⟨herror.mpr (by rw [hview]; rfl), fun s' q' => ?_⟩
  by_cases hplace : s' = s ∧ q' = some p
  · rw [hplace.1, hplace.2, hstep.self]
  · rw [hstep.other c s' q' fun heq => hplace heq.2, hcopy, hsame, h.placeView_other hw fun heq => hplace heq.2]

end Records

/-! ### Books kept by single-entry calls -/

/-- A level as the calls for entries leave it. -/
structure Regular (w : World P) (b : BookRef) (l : LevelRef) : Prop where
  ids : ((entryViews w l).map EntryView.id).Nodup
  entries : ∀ v ∈ entryViews w l, v.id ≠ none ∧ 0 < v.size ∧ v.positioned = false
  objects : ∀ e ∈ (w.level l).entryList, ∃ n, e = .obj n
  action : (w.level l).action = .add
  limit : (w.level l).orderType = .limit
  book : (w.level l).book = some b
  tally : Tally w l

def Unchecked (w : World P) : Prop := ∀ b, (w.book b).checkVisibility = false

variable {w : World P} {b : BookRef}

theorem Unchecked.checkState (h : Unchecked w) (l : LevelRef) : w.checkState l = false := by
  unfold World.checkState
  split
  · exact h _
  · rfl

theorem Unchecked.counted (h : Unchecked w) (l : LevelRef) (e : EntryRef) : w.counted (w.checkState l) e := by
  simp [World.counted, h.checkState l]

/-- A book as the calls for entries leave it. -/
structure EntryBook (w : World P) (b : BookRef) : Prop where
  wired : Wired w
  unchecked : Unchecked w
  regular : ∀ {s p l}, findLevel w b s p = some l → Regular w b l
  market : ∀ s, (w.book b).marketOrders s = none

namespace Regular

variable {w w' : World P} {b : BookRef} {l : LevelRef} {e : EntryRef} (h : Regular w b l)
include h

theorem untouched (hl : Untouched w w' l) (hcheck : ∀ b, (w'.book b).checkVisibility = (w.book b).checkVisibility) :
    Regular w' b l where
  ids := by
    rw [hl.entryViews]
    exact h.ids
  entries := by
    rw [hl.entryViews]
    exact h.entries
  objects := by
    rw [hl.level]
    exact h.objects
  action := by rw [hl.level, h.action]
  limit := by rw [hl.level, h.limit]
  book := by rw [hl.level, h.book]
  tally := by
    refine h.tally.of_level_eq hl.level (checkState_congr (by rw [hl.level]) hcheck) fun e he => ?_
    rw [hl.entry e he]
    exact ⟨rfl, rfl⟩

theorem copyable : Copyable w l := Copyable.of_unpositioned fun v hv => (h.entries v hv).2.2

theorem entry (he : e ∈ (w.level l).entryList) : (w.entry e).id ≠ none ∧ 0 < (w.entry e).size := by
  obtain ⟨hid, hsize, -⟩ := h.entries _ (mem_map_of_mem (f := entryView w) he)
  exact ⟨hid, hsize⟩

theorem findById_of_mem (he : e ∈ (w.level l).entryList) : findById w l (w.entry e).id = some e := by
  have hid := (h.entry he).1
  cases hfind : findById w l (w.entry e).id with
  | none =>
    have hnone := find?_eq_none.mp hfind e he
    simp [Entry.equalId, Option.isSome_iff_ne_none, hid] at hnone
  | some x =>
    have hx : x ∈ (w.level l).entryList := mem_of_find?_eq_some hfind
    have heq := find?_some hfind
    simp only [Entry.equalId, Bool.and_eq_true, beq_iff_eq] at heq
    have hids := h.ids
    rw [entryViews, map_map] at hids
    rw [inj_on_of_nodup_map hids hx he heq.2]

theorem nodup : (w.level l).entryList.Nodup := by
  have hids := h.ids
  rw [entryViews, map_map] at hids
  exact List.Nodup.of_map _ hids

theorem size_pos (hcheck : Unchecked w) (hne : (w.level l).entryList ≠ []) : 0 < (w.level l).size := by
  have hcounted : countedEntries w l = (w.level l).entryList := filter_eq_self.mpr fun e _ => hcheck.counted l e
  rw [h.tally.size, hcounted]
  refine sum_pos _ (fun q hq => ?_) (by simpa using hne)
  obtain ⟨e, he, rfl⟩ := mem_map.mp hq
  exact (h.entry he).2

theorem size_zero (hempty : (w.level l).entryList = []) : (w.level l).size = 0 := by
  rw [h.tally.size, countedEntries, hempty]
  rfl

theorem modifyLevel {g : PriceLevel P → PriceLevel P} (hg : SameLevel (w.level l) (g (w.level l)))
    (haction : (g (w.level l)).action = .add) (hlimit : (g (w.level l)).orderType = .limit) :
    Regular (w.modifyLevel l g) b l := by
  have hself : (w.modifyLevel l g).level l = g (w.level l) := by simp
  have hviews : entryViews (w.modifyLevel l g) l = entryViews w l := entryViews_congr rfl (by rw [hself, hg.entryList])
  constructor
  · rw [hviews]
    exact h.ids
  · rw [hviews]
    exact h.entries
  · rw [hself, hg.entryList]
    exact h.objects
  · rw [hself, haction]
  · rw [hself, hlimit]
  · rw [hself, hg.book, h.book]
  · refine h.tally.congr ?_ ?_ ?_ ?_ (checkState_congr ?_ fun _ => rfl) fun _ _ => ⟨rfl, rfl⟩
    · rw [hself, hg.size]
    · rw [hself, hg.numEntries]
    · rw [hself, hg.numEntriesTotal]
    · rw [hself, hg.entryList]
    · rw [hself, hg.book]

theorem addEntry (hw : Wired w) {entry : Entry} (hid : entry.id ≠ none) (hsize : 0 < entry.size)
    (hnew : ∀ v ∈ entryViews w l, v.id ≠ entry.id) :
    Regular (addEntry (w.newEntry entry) l w.freshEntry) b l := by
  have hstep := entryStep_addEntry hw l entry
  have hlist : ((PriceLevel.addEntry (w.newEntry entry) l w.freshEntry).level l).entryList =
      (w.level l).entryList ++ [w.freshEntry] := by
    rw [addEntry_entryList, if_pos rfl]
    rfl
  constructor
  · rw [hstep.entries, map_append, nodup_append]
    refine ⟨h.ids, by simp, fun x hx y hy => ?_⟩
    obtain ⟨v, hv, rfl⟩ := mem_map.mp hx
    rw [map_singleton, mem_singleton] at hy
    rw [hy]
    exact hnew v hv
  · intro v hv
    rw [hstep.entries, mem_append, mem_singleton] at hv
    rcases hv with hold | rfl
    · exact h.entries v hold
    · exact ⟨hid, hsize, rfl⟩
  · intro e he
    rw [hlist, mem_append, mem_singleton] at he
    rcases he with hold | rfl
    · exact h.objects e hold
    · exact ⟨w.nextEntry, rfl⟩
  · rw [hstep.fields.action, h.action]
  · rw [hstep.fields.orderType, h.limit]
  · rw [hstep.fields.book, h.book]
  · refine Tally.addEntry ?_ _
    have hl := hw.untouched_newEntry entry l
    refine h.tally.of_level_eq hl.level (checkState_congr rfl fun _ => rfl) fun e he => ?_
    rw [hl.entry e he]
    exact ⟨rfl, rfl⟩

theorem eraseEntry (hw : Wired w) (he : e ∈ (w.level l).entryList) : Regular (PriceLevel.eraseEntry w l e) b l := by
  have hstep := entryStep_eraseEntry hw (h.findById_of_mem he)
  have hsub : (entryViews (PriceLevel.eraseEntry w l e) l).Sublist (entryViews w l) := by
    rw [hstep.entries]
    exact eraseP_sublist
  constructor
  · exact (hsub.map _).nodup h.ids
  · exact fun v hv => h.entries v (hsub.subset hv)
  · intro x hx
    rw [eraseEntry_level, if_pos rfl] at hx
    exact h.objects x (mem_of_mem_erase hx)
  · rw [hstep.fields.action, h.action]
  · rw [hstep.fields.orderType, h.limit]
  · rw [hstep.fields.book, h.book]
  · exact h.tally.eraseEntry (fun x hx => (h.entry hx).2.le) he

theorem resizeEntry (he : e ∈ (w.level l).entryList) {size : Int}
    (hsize : 0 < size) (time : DateTime) {g : PriceLevel P → PriceLevel P}
    (hg : SameLevel
      { w.level l with
        size := (w.level l).size +
          (if w.counted (w.checkState l) e then size - (w.entry e).size else 0) }
      (g (w.level l)))
    (haction : (g (w.level l)).action = .add) (hlimit : (g (w.level l)).orderType = .limit) :
    Regular ((w.modifyLevel l g).modifyEntry e fun x => { x with size := size, time := time }) b l := by
  set w' := (w.modifyLevel l g).modifyEntry e fun x => { x with size := size, time := time } with hw'
  have hself : w'.level l = g (w.level l) := by simp [hw']
  have hlist : (w'.level l).entryList = (w.level l).entryList := by
    rw [hself, hg.entryList]
    rfl
  have hview : ∀ x, entryView w' x = if x = e then { entryView w x with size := size } else entryView w x := by
    intro x
    by_cases hx : x = e <;> simp [hw', entryView, hx, Entry.view]
  refine { ids := ?_, entries := ?_, objects := ?_, action := ?_, limit := ?_, book := ?_,
           tally := h.tally.resizeEntry h.nodup he time hg }
  · have hids : (entryViews w' l).map EntryView.id = (entryViews w l).map EntryView.id := by
      rw [entryViews, entryViews, hlist, map_map, map_map]
      refine map_congr_left fun x _ => ?_
      simp only [Function.comp_apply, hview]
      split <;> rfl
    rw [hids]
    exact h.ids
  · intro v hv
    rw [entryViews, hlist] at hv
    obtain ⟨x, hx, rfl⟩ := mem_map.mp hv
    obtain ⟨hid, hpos, hplaced⟩ := h.entries _ (mem_map_of_mem (f := entryView w) hx)
    rw [hview]
    split
    · exact ⟨hid, hsize, hplaced⟩
    · exact ⟨hid, hpos, hplaced⟩
  · rw [hlist]
    exact h.objects
  · rw [hself, haction]
  · rw [hself, hlimit]
  · rw [hself, hg.book]
    exact h.book

end Regular

theorem EntryBook.duplicable (h : EntryBook w b) : Duplicable w b := by
  intro s q l hl
  cases q with
  | none =>
    rw [stored, h.market s] at hl
    cases hl
  | some p =>
    have hreg := h.regular hl
    refine ⟨hreg.action, hreg.copyable, fun b' hb' => ?_⟩
    rw [hreg.book] at hb'
    exact (Option.some.inj hb').symm

/-! ### The calls -/

/-- What a call does to a level, and the delta that it records. -/
structure Called (b : BookRef) (s : Side) (p : P) (l : LevelRef) (w w' : World P) (delta : BasicDelta) : Prop where
  records : Records b s p l w w' delta
  side : s ≠ .unknown
  level : delta.priceLevel = some l
  slot : (w'.level l).price = p ∧ (w'.level l).side = s
  regular : Regular w' b l
  check : ∀ b', (w'.book b').checkVisibility = (w.book b').checkVisibility

theorem EntryBook.called {w' : World P} {s : Side} {p : P} {l : LevelRef} {delta : BasicDelta} (h : EntryBook w b)
    (hcall : Called b s p l w w' delta) : EntryBook w' b where
  wired := hcall.records.wired
  unchecked b' := (hcall.check b').trans (h.unchecked b')
  regular {s' p' l'} hl' := by
    by_cases hl : l' = l
    · subst hl
      exact hcall.regular
    · have hold : findLevel w b s' p' = some l' := by
        by_cases hplace : s' = s ∧ p' = p
        · obtain ⟨rfl, rfl⟩ := hplace
          cases hcall.records with
          | created hstores | changed hstores => exact absurd (Option.some.inj (hl'.symm.trans hstores.stored_self)) hl
          | removed hvacates =>
            have hnone := hvacates.stored b s' (some p')
            exact absurd (hl'.symm.trans hnone) (by simp)
        · have hother : stored w' b s' (some p') = stored w b s' (some p') :=
            hcall.records.stored_other fun heq => hplace ⟨heq.2.1, Option.some.inj heq.2.2⟩
          exact hother.symm.trans hl'
      exact (h.regular hold).untouched (hcall.records.frame.untouched h.wired hl) hcall.check
  market s' := by
    have hother : stored w' b s' none = stored w b s' none := hcall.records.stored_other (by simp)
    exact hother.trans (h.market s')

theorem Called.replay {w' : World P} {c : BookRef} {s : Side} {p : P} {l : LevelRef} {delta : BasicDelta}
    (h : Called b s p l w w' delta) (hw : Wired w) (hc : c ≠ b) (hsame : ∀ s q, placeView w c s q = placeView w b s q) :
    let o := applyDelta c delta w'
    o.error = none ∧ ∀ s q, placeView o.state c s q = placeView w' b s q :=
  h.records.replay hw hc h.side h.level h.slot.1 h.slot.2 (by rw [h.regular.limit]; decide) hsame

section Calls

variable {w : World P} {b : BookRef} {l : LevelRef} {s : Side} {p : P}

private theorem listed {timed : World P} {side : Side} {price : P} {entry : Entry}
    (hready : Stores b side (some price) l w timed) (hreg : Regular timed b l) (hid : entry.id ≠ none)
    (hsize : 0 < entry.size) (hnew : ∀ v ∈ entryViews timed l, v.id ≠ entry.id) :
    let w' := PriceLevel.addEntry (timed.newEntry entry) l timed.freshEntry
    Stores b side (some price) l w w' ∧ Regular w' b l ∧
      entryViews w' l = entryViews timed l ++
        [{ entryView w' timed.freshEntry with positioned := false }] := by
  have hstep := entryStep_addEntry hready.wired l entry
  refine ⟨⟨hstep.wired, hready.frame.trans hstep.frame, ?_, ?_⟩, hreg.addEntry hready.wired hid hsize hnew, ?_⟩
  · intro _ _ _
    rw [hstep.stored, hready.stored]
  · exact fun b' => (hstep.check b').trans (hready.check b')
  · rw [hstep.entries]
    simp [entryView, Entry.view]

theorem EntryBook.addEntrySide (h : EntryBook w b) {side : Side} (hside : side ≠ .unknown) {price : P}
    {entry : Entry} (eventTime : DateTime) (hid : entry.id ≠ none) (hsize : 0 < entry.size)
    (hnew : ∀ l, findLevel w b side price = some l → ∀ v ∈ entryViews w l, v.id ≠ entry.id) :
    let r := Book.addEntrySide (w.newEntry entry) b side w.freshEntry price side eventTime
    ∃ l, Called b side price l w r.1 r.2 ∧ r.2.entry = some w.freshEntry ∧ r.2.entryAction = .add := by
  have hcounted : (w.newEntry entry).counted ((w.newEntry entry).book b).checkVisibility w.freshEntry := by
    simp [World.counted, h.unchecked b]
  cases hl : findLevel w b side price with
  | some l =>
    have hl' : findLevel (w.newEntry entry) b side price = some l := hl
    have hreg := h.regular hl
    -- The level's time and book are set, then the entry is listed.
    set timed := w.modifyLevel l fun lev => { lev with time := eventTime, book := some b } with htimed
    have hready : Stores b side (some price) l w timed :=
      Stores.of_stored (h.wired.modifyLevel ⟨rfl, rfl, rfl⟩)
        ((Frame.refl l w).modifyLevel fun e he => he) (fun _ _ _ => rfl) (fun _ => rfl) hl
    have hregular : Regular timed b l :=
      hreg.modifyLevel ⟨rfl, rfl, hreg.book.symm, rfl, rfl, rfl, rfl⟩ hreg.action hreg.limit
    have hviews : entryViews timed l = entryViews w l := entryViews_congr rfl (by simp [htimed, entryList])
    obtain ⟨hstores, hadded, hentries⟩ := listed hready hregular hid hsize (by rw [hviews]; exact hnew l hl)
    simp only [Book.addEntrySide, findOrCreateLevel, hl', hcounted, if_true]
    refine ⟨l, ⟨.changed hstores hl rfl ?_ ?_, hside, rfl, hstores.wired.slot hstores.stored_self,
      hadded, hstores.check⟩, trivial, trivial⟩
    · exact hentries.trans (by rw [hviews]; rfl)
    · rintro e ⟨⟩
      exact ⟨w.nextEntry, rfl, Nat.lt_succ_self _, by simp [World.freshEntry]⟩
  | none =>
    have hl' : findLevel (w.newEntry entry) b side price = none := hl
    set made := insertLevel (w.newLevel { price := price, side := side, book := some b }) b side price
      w.nextLevel with hmade
    set timed := made.modifyLevel w.nextLevel fun lev => { lev with time := eventTime, book := some b } with htimed
    have hself : timed.level w.nextLevel = { price := price, side := side, time := eventTime, book := some b } := by
      simp [htimed, hmade, insertLevel]
    have hmadeWired : Wired made := by
      apply (h.wired.newLevel rfl).insertLevel b hside (Nat.lt_succ_self _) (by simp)
      exact fun b' s q hq => Nat.lt_irrefl _ (h.wired.allocated hq)
    have hready : Stores b side (some price) w.nextLevel w timed := by
      refine ⟨hmadeWired.modifyLevel ⟨rfl, rfl, rfl⟩, ?_, fun b' s' q' => stored_insertLevel hside, ?_⟩
      · exact ((Frame.newLevel w rfl).modifyBook b _).modifyLevel fun e he => he
      · intro b'
        by_cases hb : b' = b <;> simp [htimed, hmade, insertLevel, hb]
    have hviews : entryViews timed w.nextLevel = [] := by
      rw [entryViews, hself]
      rfl
    have hregular : Regular timed b w.nextLevel := by
      constructor
      · simp [hviews]
      · simp [hviews]
      · simp [hself, entryList]
      · rw [hself]
      · rw [hself]
      · rw [hself]
      · constructor <;> simp [hself, countedEntries, entryList]
    obtain ⟨hstores, hadded, -⟩ := listed hready hregular hid hsize (by simp [hviews])
    simp only [Book.addEntrySide, findOrCreateLevel, hl', hcounted, if_true]
    refine ⟨w.nextLevel, ⟨.created hstores hl hadded.copyable rfl, hside, rfl,
      hstores.wired.slot hstores.stored_self, hadded, hstores.check⟩, trivial, trivial⟩

theorem EntryBook.updateEntry (h : EntryBook w b) {e : EntryRef} (hl : findLevel w b s p = some l)
    (he : e ∈ (w.level l).entryList) {size : Int} (hsize : 0 < size) (eventTime : DateTime) (delta : BasicDelta) :
    let o := Book.updateEntry w b e size eventTime delta
    o.error = none ∧ Called b s p l w o.state.1 o.state.2 := by
  have hreg := h.regular hl
  obtain ⟨n, rfl⟩ := hreg.objects e he
  have hlevel : (w.entry (.obj n)).priceLevel = some l := (h.wired.listed he).2
  have hfind := hreg.findById_of_mem he
  by_cases hchanged : size = (w.entry (.obj n)).size
  · simp only [Book.updateEntry, hlevel, hchanged, sub_self, ne_eq, not_true, Outcome.ok_error, Outcome.ok_state,
      true_and]
    refine ⟨.changed ?_ hl rfl ?_ ?_, side_ne_unknown hl, rfl, h.wired.slot hl, hreg, fun _ => rfl⟩
    · exact Stores.of_stored h.wired (Frame.refl l w) (fun _ _ _ => rfl) (fun _ => rfl) hl
    · exact map_entryView_resize hfind (h.wired.once l n) rfl fun _ _ _ => rfl
    · rintro e ⟨⟩
      exact ⟨n, rfl, h.wired.listed he⟩
  · set timed := w.modifyLevel l fun lev =>
      { lev.setSize (lev.size + (size - (w.entry (.obj n)).size)) with time := eventTime } with htimed
    set w' := timed.modifyEntry (.obj n) fun x => { x with size := size, time := eventTime } with hw'
    have hcounted := h.unchecked.counted l (.obj n)
    have hnonneg := hreg.tally.resize_nonneg hreg.nodup (fun x hx => (hreg.entry hx).2.le) he hsize.le hcounted
    have hregular : Regular w' b l := by
      refine hreg.resizeEntry he hsize eventTime ⟨rfl, rfl, rfl, rfl, ?_, rfl, rfl⟩ hreg.action hreg.limit
      simp [setSize, hcounted, hnonneg]
    have hframe : Frame l w timed := (Frame.refl l w).modifyLevel fun e he => he
    have hstores : Stores b s (some p) l w w' := by
      refine Stores.of_stored ((h.wired.modifyLevel ⟨rfl, rfl, rfl⟩).modifyEntry n rfl)
        (hframe.modifyEntry (e := .obj n) (Or.inl he) _) (fun _ _ _ => rfl) (fun _ => rfl) hl
    simp only [Book.updateEntry, hlevel, ne_eq, hchanged, not_false_eq_true, World.counted, h.unchecked b,
      Bool.not_false, Bool.true_or, decide_true, Bool.and_true, if_true, ← htimed, ← hw', Outcome.ok_error,
      Outcome.ok_state, true_and]
    refine ⟨.changed hstores hl rfl ?_ ?_, side_ne_unknown hl, rfl,
      hstores.wired.slot hstores.stored_self, hregular, hstores.check⟩
    swap
    · rintro e ⟨⟩
      exact ⟨n, rfl, (h.wired.listed he).1, by simp [hw', htimed, hlevel]⟩
    have hlist : (w'.level l).entryList = (w.level l).entryList := by simp [hw', htimed, setSize, entryList]
    have hself : (w'.entry (.obj n)).id = (w.entry (.obj n)).id ∧ (w'.entry (.obj n)).size = size := by
      simp [hw', htimed]
    simp only [deltaEffect, hself, entryViews, hlist]
    refine map_entryView_resize hfind (h.wired.once l n) ?_ fun x _ hne => ?_
    · simp [hw', htimed, entryView, Entry.view]
    · simp [hw', htimed, entryView, hne]

private theorem detach_vacates (h : Wired w) (hl : findLevel w b s p = some l)
    (hlimit : (w.level l).orderType = .limit) :
    Vacates b s (some p) l w (detach w b l) ∧ (detach w b l).level = w.level ∧
      (detach w b l).entry = w.entry := by
  obtain ⟨hprice, hside⟩ := h.slot hl
  have hdetach : detach w b l = (eraseLevel w b s p).modifyBook b fun bk =>
      { bk with detachedLevels := bk.detachedLevels ++ [l] } := by
    simp [detach, hlimit, hprice, hside, hl]
  rw [hdetach]
  have hsame : ∀ book : Book P, Book.SamePlaces book
      { book with detachedLevels := book.detachedLevels ++ [l] } := fun _ => ⟨rfl, rfl, rfl, rfl⟩
  refine ⟨⟨(h.eraseLevel b s p).modifyBook (fun hl => hl) (fun hl => hl), ?_, ?_, ?_⟩, rfl, rfl⟩
  · exact ((Frame.refl l w).modifyBook b _).modifyBook b _
  · intro _ _ _
    rw [stored_modifyBook (hsame _), stored_eraseLevel]
  · intro b'
    by_cases hb : b' = b <;> simp [eraseLevel, hb]

theorem EntryBook.deleteEntry (h : EntryBook w b) {e : EntryRef} (hl : findLevel w b s p = some l)
    (he : e ∈ (w.level l).entryList) (eventTime : DateTime) (delta : BasicDelta) :
    let o := Book.deleteEntry w b e eventTime delta
    o.error = none ∧ Called b s p l w o.state.1 o.state.2 := by
  have hreg := h.regular hl
  obtain ⟨n, rfl⟩ := hreg.objects e he
  have hlevel : (w.entry (.obj n)).priceLevel = some l := (h.wired.listed he).2
  set timed := w.modifyLevel l fun lev => { lev with time := eventTime } with htimed
  set removed := eraseEntry timed l (.obj n) with hremoved
  set final := if (removed.level l).empty then detach removed b l else removed with hfinal
  have hlist : (timed.level l).entryList = (w.level l).entryList := by simp [htimed, entryList]
  have hviews : entryViews timed l = entryViews w l := entryViews_congr rfl hlist
  have hregTimed : Regular timed b l := hreg.modifyLevel ⟨rfl, rfl, rfl, rfl, rfl, rfl, rfl⟩ hreg.action hreg.limit
  have htimedWired : Wired timed := h.wired.modifyLevel ⟨rfl, rfl, rfl⟩
  have hregular : Regular removed b l := hregTimed.eraseEntry htimedWired (hlist ▸ he)
  have hstep := entryStep_eraseEntry htimedWired (hregTimed.findById_of_mem (hlist ▸ he))
  have hframe : Frame l w removed := ((Frame.refl l w).modifyLevel fun e he => he).trans hstep.frame
  have hstores : Stores b s (some p) l w removed := Stores.of_stored hstep.wired hframe hstep.stored hstep.check hl
  have hslot := hstores.wired.slot hstores.stored_self
  have hunchecked : Unchecked removed := fun b' => (hstores.check b').trans (h.unchecked b')
  simp only [Book.deleteEntry, hlevel, World.counted, h.unchecked b, Bool.not_false, Bool.true_or, if_true,
    removeEntry, ← htimed, hlist, he, ← hremoved, ← hfinal, Outcome.ok_error, Outcome.ok_state, true_and]
  cases hempty : (removed.level l).empty with
  | true =>
    obtain ⟨hvacates, hlevels, hentries⟩ := detach_vacates hstores.wired hstores.stored_self hregular.limit
    have hfin : final = detach removed b l := by rw [hfinal, hempty, if_pos rfl]
    have hzero := hregular.size_zero (by simpa [empty] using hempty)
    rw [hfin, hlevels, hzero]
    have hgone := Vacates.of_stores hstores hvacates
    refine ⟨.removed hgone hl rfl, side_ne_unknown hl, rfl, ?_, ?_, hgone.check⟩
    · rw [hlevels]
      exact hslot
    · exact hregular.untouched ⟨by rw [hlevels], fun e _ => by rw [hentries]⟩ hvacates.check
  | false =>
    have hfin : final = removed := by rw [hfinal, hempty, if_neg (by simp)]
    have hpos := hregular.size_pos hunchecked (by simpa [empty] using hempty)
    have haction : isQuantityNone (removed.level l).size = false := by simp [isQuantityNone, hpos]
    rw [hfin, haction]
    refine ⟨.changed hstores hl rfl ?_ ?_, side_ne_unknown hl, rfl, hslot, hregular, hstores.check⟩
    · rw [hstep.entries, hviews]
      simp [deltaEffect, hremoved]
    · rintro e ⟨⟩
      refine ⟨n, rfl, (h.wired.listed he).1.trans_le hframe.nextEntry, ?_⟩
      simp [hremoved, htimed, hlevel]

end Calls

end OpenMama.OrderBook
