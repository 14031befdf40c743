import OpenMama.OrderBook.BulkOps
import OpenMama.OrderBook.SingleDeltas

/-!
# The deltas of the bulk operations

The deltas that a bulk operation recorded are applied to a copy of the book. For `addPriceLevelsFromBookAsEntries` and
`deleteEntriesFromSource` the copy then is the book. `addEntriesFromBook` records an ADD of the level for each entry,
so the list can only be applied if no level of the other book has two entries and none of the prices was in the book.
-/

namespace OpenMama.OrderBook

open Book List EntryCall

variable {P : Type} [LinearOrder P]

def ReallyChanged (w w' : World P) (d : BasicDelta) : Prop :=
  ∃ e l, d.entry = some e ∧ d.priceLevel = some l ∧
    ((d.entryAction = .add ∧ e ∉ (w.level l).entryList ∧ e ∈ (w'.level l).entryList) ∨
      (d.entryAction = .delete ∧ e ∈ (w.level l).entryList ∧ e ∉ (w'.level l).entryList))

def filledView (w : World P) (b : BookRef) (s : Side) (p : P) : Option LevelView :=
  (bookView w b s p).filter fun v => !v.entries.isEmpty

namespace Visited

variable {b c : BookRef} {w : World P} {F : Block P → LevelRef → World P → Prop}
  {s : PriceLevel.Recorded P} {ks : List (Block P)}

variable (h : Visited b w F s ks) (hw : Wired w) (hc : c ≠ b)
    (hsame : ∀ side p, placeView w c side (some p) = placeView w b side (some p))
include h hw hc hsame

private theorem copy_eq (side : Side) (p : P) : placeView s.1 c side (some p) = placeView w b side (some p) :=
  (Untouched.placeView (h.confined.stored _ _ _ hc) fun _ hl => h.confined.untouched hw hl hc).trans (hsame side p)

theorem replay_error (hblocks : ∀ k ∈ ks, k.Foreign c s.1 ∨ k.Blocked c s.1) :
    (applyDeltas c s.2 s.1).error = none ↔
      ∀ k ∈ ks, (k.replay s.1 (placeView w b k.side (some k.price))).isSome := by
  rw [h.deltas, applyDeltas_blocks_error h.confined.wired h.nodup hblocks]
  simp only [h.copy_eq hw hc hsame]

theorem replay (hforeign : ∀ k ∈ ks, k.Foreign c s.1) (target : Block P → Option LevelView)
    (hreplay : ∀ k ∈ ks, k.replay s.1 (placeView w b k.side (some k.price)) = some (target k)) :
    let o := applyDeltas c s.2 s.1
    o.error = none ∧ (∀ k ∈ ks, placeView o.state c k.side (some k.price) = target k) ∧
      ∀ side p, (side, p) ∉ ks.map Block.place →
        placeView o.state c side (some p) = placeView s.1 b side (some p) := by
  rw [h.deltas]
  obtain ⟨hok, -, hself, hother⟩ := applyDeltas_blocks h.confined.wired h.nodup hforeign target
    fun k hk => by rw [h.copy_eq hw hc hsame, hreplay k hk]
  refine ⟨hok, hself, fun side p hp => ?_⟩
  rw [hother side p hp, h.copy_eq hw hc hsame, h.placeView_eq hp]

/-- Deltas that replay every place that was visited, and name what changed there, make the copy look like the book. -/
theorem replays (hblock : ∀ k ∈ ks, ∃ l, findLevel s.1 b k.side k.price = some l ∧ k.Foreign c s.1 ∧
      k.replay s.1 (placeView w b k.side (some k.price)) = some (some (levelView s.1 l)) ∧
      ∀ d ∈ k.deltas, ReallyChanged w s.1 d) :
    let o := applyDeltas c s.2 s.1
    o.error = none ∧ (∀ side p, placeView o.state c side (some p) = placeView s.1 b side (some p)) ∧
      ∀ d ∈ s.2, ReallyChanged w s.1 d := by
  have hforeign (k : Block P) (hk : k ∈ ks) : k.Foreign c s.1 := by
    obtain ⟨_, -, hforeign, -, -⟩ := hblock k hk
    exact hforeign
  obtain ⟨hok, hself, hother⟩ := h.replay hw hc hsame hforeign (fun k => placeView s.1 b k.side (some k.price))
    fun k hk => by
      obtain ⟨_, hl, -, hreplay, -⟩ := hblock k hk
      rw [hreplay, placeView_some, bookView_of_findLevel hl]
  refine ⟨hok, fun side p => ?_, fun d hd => ?_⟩
  · by_cases hp : (side, p) ∈ ks.map Block.place
    · obtain ⟨k, hk, ⟨⟩⟩ := mem_map.mp hp
      exact hself k hk
    · exact hother side p hp
  · rw [h.deltas, mem_flatMap] at hd
    obtain ⟨k, hk, hd⟩ := hd
    obtain ⟨_, -, -, -, hchanged⟩ := hblock k hk
    exact hchanged d hd

end Visited

theorem foldlM_replayDelta_update {w : World P} {l : LevelRef} {ds : List BasicDelta} (hne : ds ≠ [])
    (hds : ∀ d ∈ ds, d.priceLevel = some l ∧ d.plAction = .update) (v : LevelView) :
    ds.foldlM (replayDelta w) (some v) = some (some ((levelView w l).withEntries
      (ds.foldl (fun entries d => deltaEffect w d entries) v.entries))) := by
  induction ds generalizing v with
  | nil => exact absurd rfl hne
  | cons d ds ih =>
    obtain ⟨hlevel, haction⟩ := hds d (by simp)
    have hstep : replayDelta w (some v) d = some (some ((levelView w l).withEntries (deltaEffect w d v.entries))) := by
      simp only [replayDelta, hlevel, haction]
    rw [foldlM_cons, hstep, Option.bind_eq_bind]
    cases ds with
    | nil => rfl
    | cons _ _ => exact ih (by simp) (fun x hx => hds x (by simp [hx])) _

theorem foldlM_replayDelta_update_eq {w : World P} {l : LevelRef} {ds : List BasicDelta} (hne : ds ≠ [])
    (hds : ∀ d ∈ ds, d.priceLevel = some l ∧ d.plAction = .update) {v : LevelView}
    (hentries : entryViews w l = ds.foldl (fun entries d => deltaEffect w d entries) v.entries) :
    ds.foldlM (replayDelta w) (some v) = some (some (levelView w l)) := by
  rw [foldlM_replayDelta_update hne hds, ← hentries]
  rfl

section Ops

variable {w w' : World P} {b c : BookRef} {k : Block P} {l : LevelRef}

theorem LevelEntry.foreign {delta : BasicDelta} {n : Nat} (h : LevelEntry b w k l w' delta n)
    (hw' : Wired w') (hl : findLevel w' b k.side k.price = some l) (hc : c ≠ b) : k.Foreign c w' := by
  intro d hd
  rw [h.deltas, mem_singleton] at hd
  subst hd
  refine ⟨l, Aimed.of_stored hw' hl hc h.level h.limit, fun _ e he => ?_, fun haction => ?_⟩
  · obtain rfl : .obj n = e := Option.some.inj (h.entry.symm.trans he)
    obtain ⟨hn, hlevel⟩ := hw'.listed h.mem
    exact ⟨n, l, rfl, hn, hlevel, not_reaches (q := some k.price) hw' hl hc.symm⟩
  · -- The level was created for the entry.
    have hfree : findLevel w b k.side k.price = none := by
      cases hfind : findLevel w b k.side k.price with
      | none => rfl
      | some _ =>
        have hupdate := h.plAction
        rw [haction, hfind] at hupdate
        cases hupdate
    refine Copyable.of_unpositioned fun v hv => ?_
    rw [h.entries, heldEntries, placeView_some, bookView_eq_none.mpr hfree] at hv
    rw [mem_singleton.mp hv]

theorem LevelEntry.replay {delta : BasicDelta} {n : Nat} (h : LevelEntry b w k l w' delta n) :
    k.replay w' (placeView w b k.side (some k.price)) = some (some (levelView w' l)) := by
  have hentries := h.entries
  have haction := h.plAction
  cases hfind : findLevel w b k.side k.price with
  | none =>
    have hview : placeView w b k.side (some k.price) = none := placeView_eq_none.mpr hfind
    rw [hfind] at haction
    simp [Block.replay, h.deltas, hview, replayDelta, h.level, haction]
  | some l₀ =>
    have hview : placeView w b k.side (some k.price) = some (levelView w l₀) := bookView_of_findLevel hfind
    rw [hfind] at haction
    rw [heldEntries, hview] at hentries
    rw [Block.replay, h.deltas, hview, foldlM_replayDelta_update_eq (l := l) (by simp) (by simp [h.level, haction])]
    rw [hentries, foldl_cons, deltaEffect, h.entry, h.entryAction]
    rfl

theorem addPriceLevelsFromBookAsEntries_replays (hw : Wired w) (hlimit : LimitLevels w b) (hc : c ≠ b)
    (hsame : ∀ side p, placeView w c side (some p) = placeView w b side (some p)) (source : BookRef)
    (sourceId : Option String) :
    let s := addPriceLevelsFromBookAsEntries w b source sourceId
    let o := applyDeltas c s.2 s.1
    o.error = none ∧ (∀ side p, placeView o.state c side (some p) = placeView s.1 b side (some p)) ∧
      ∀ d ∈ s.2, ReallyChanged w s.1 d := by
  obtain ⟨_, -, hvisited⟩ := addPriceLevelsFromBookAsEntries_visited source hw hlimit sourceId
  refine hvisited.replays hw hc hsame fun k hk => ?_
  obtain ⟨l, hl, _, n, hentry⟩ := hvisited.block k hk
  refine ⟨l, hl, hentry.foreign hvisited.confined.wired hl hc, hentry.replay, fun d hd => ?_⟩
  rw [hentry.deltas, mem_singleton] at hd
  subst hd
  refine ⟨.obj n, l, hentry.entry, hentry.level, .inl ⟨hentry.entryAction, fun hmem => ?_, hentry.mem⟩⟩
  exact absurd (hw.listed hmem).1 hentry.fresh.not_gt

/-! ### Entries from a source -/

theorem foldl_eraseById (q : EntryRef → Bool) (kept es : List EntryRef)
    (hids : ((kept ++ es).map fun e => (w.entry e).id).Nodup)
    (hsome : ∀ e ∈ es, (w.entry e).id ≠ none) :
    (es.filter q).foldl (fun views e => eraseById (w.entry e).id views)
        ((kept ++ es).map (entryView w)) =
      (kept ++ es.filter fun e => !q e).map (entryView w) := by
  induction es generalizing kept with
  | nil => simp
  | cons e es ih =>
    cases hq : q e with
    | true =>
      have hnodup := hids.sublist (((sublist_cons_self e es).append_left kept).map _)
      have herase : eraseById (w.entry e).id ((kept ++ e :: es).map (entryView w)) =
          (kept ++ es).map (entryView w) := by
        have hself : (entryView w e).hasId (w.entry e).id := by
          simp [EntryView.hasId, entryView, Entry.view, Option.isSome_iff_ne_none, hsome e (by simp)]
        rw [eraseById, map_append, map_cons, eraseP_append_right, eraseP_cons_of_pos hself, map_append]
        intro v hv
        obtain ⟨x, hx, rfl⟩ := mem_map.mp hv
        rw [map_append, nodup_append] at hids
        have hne : (w.entry x).id ≠ (w.entry e).id :=
          hids.2.2 _ (mem_map_of_mem (f := fun x => (w.entry x).id) hx) _ (by simp)
        simp [EntryView.hasId, entryView, Entry.view, hne]
      rw [filter_cons_of_pos hq, filter_cons_of_neg (by simp [hq]), foldl_cons, herase]
      exact ih kept hnodup fun x hx => hsome x (by simp [hx])
    | false =>
      rw [filter_cons_of_neg (by simp [hq]), filter_cons_of_pos (by simp [hq])]
      have hrest := ih (kept ++ [e]) (by simpa using hids) fun x hx => hsome x (by simp [hx])
      simpa using hrest

def Identified (w : World P) (b : BookRef) : Prop :=
  ∀ s p l, findLevel w b s p = some l → ((entryViews w l).map EntryView.id).Nodup ∧
    ∀ v ∈ entryViews w l, v.id ≠ none

theorem Identified.listsOnce (h : Identified w b) : ListsOnce w b := by
  intro s p l hl
  have hids := (h s p l hl).1
  rw [entryViews, map_map] at hids
  exact List.Nodup.of_map _ hids

theorem Identified.object (h : Identified w b) (hw : Wired w) {s : Side} {p : P}
    (hl : findLevel w b s p = some l) {e : EntryRef} (he : e ∈ (w.level l).entryList) :
    ∃ n, e = .obj n := by
  cases e with
  | obj n => exact ⟨n, rfl⟩
  | reserved l' =>
    refine absurd ?_ ((h s p l hl).2 _ (mem_map_of_mem (f := entryView w) he))
    exact (hw.blank l').id

theorem SourceRemoved.foreign {source : Nat} (h : SourceRemoved b w source k l w') (hw : Wired w)
    (hw' : Wired w') (hl : findLevel w' b k.side k.price = some l) (hc : c ≠ b)
    (hid : Identified w b) : k.Foreign c w' := by
  intro d hd
  rw [h.deltas] at hd
  obtain ⟨e, he, rfl⟩ := mem_map.mp hd
  have hmem := mem_of_mem_filter he
  obtain ⟨n, rfl⟩ := hid.object hw h.found hmem
  refine ⟨l, Aimed.of_stored hw' hl hc rfl h.limit, ?_, nofun⟩
  rintro - x ⟨⟩
  refine ⟨n, l, rfl, (hw.listed hmem).1.trans_le h.nextEntry, ?_, not_reaches (q := some k.price) hw' hl hc.symm⟩
  rw [h.entry _ hmem]
  exact (hw.listed hmem).2

theorem SourceRemoved.replay {source : Nat} (h : SourceRemoved b w source k l w') (hid : Identified w b) :
    k.replay w' (placeView w b k.side (some k.price)) = some (some (levelView w' l)) := by
  have hview : placeView w b k.side (some k.price) = some (levelView w l) := bookView_of_findLevel h.found
  rw [hview]
  have hentries : entryViews w' l = ((w.level l).entryList.filter fun e => !fromSource w source e).map
      (entryView w) := by
    rw [entryViews, h.list]
    refine map_congr_left fun e he => ?_
    rw [entryView, h.entry e (mem_of_mem_filter he), entryView]
  by_cases hnil : k.deltas = []
  · have hnone : (w.level l).entryList.filter (fromSource w source) = [] := by
      rw [h.deltas] at hnil
      exact map_eq_nil_iff.mp hnil
    have hall : ((w.level l).entryList.filter fun e => !fromSource w source e) = (w.level l).entryList :=
      filter_eq_self.mpr fun e he => by simpa using filter_eq_nil_iff.mp hnone e he
    rw [hall] at hentries
    have hlevel : levelView w' l = levelView w l := by
      rw [levelView, hentries, h.quiet hnil]
      rfl
    rw [Block.replay, hnil, hlevel]
    rfl
  · refine foldlM_replayDelta_update_eq hnil (fun d hd => ?_) ?_
    · rw [h.deltas] at hd
      obtain ⟨e, -, rfl⟩ := mem_map.mp hd
      exact ⟨rfl, rfl⟩
    · obtain ⟨hids, hsome⟩ := hid _ _ _ h.found
      have herase := foldl_eraseById (w := w) (fromSource w source) [] (w.level l).entryList
        (by rwa [entryViews, map_map] at hids)
        (fun e he => hsome _ (mem_map_of_mem (f := entryView w) he))
      rw [nil_append, nil_append] at herase
      rw [hentries, ← herase, h.deltas, foldl_map]
      refine (foldl_ext _ _ _ fun views e he => ?_).symm
      simp only [deltaEffect, removalDelta, h.entry e (mem_of_mem_filter he)]

theorem deleteEntriesFromSource_replays (hw : Wired w) (hlimit : LimitLevels w b)
    (hid : Identified w b) (hsourced : Sourced w b) (hc : c ≠ b)
    (hsame : ∀ side p, placeView w c side (some p) = placeView w b side (some p)) (source : Nat) :
    let s := (deleteEntriesFromSource w b source).state
    let o := applyDeltas c s.2 s.1
    o.error = none ∧ (∀ side p, placeView o.state c side (some p) = placeView s.1 b side (some p)) ∧
      ∀ d ∈ s.2, ReallyChanged w s.1 d := by
  obtain ⟨-, _, -, hvisited⟩ := deleteEntriesFromSource_visited hw hlimit hid.listsOnce hsourced source
  refine hvisited.replays hw hc hsame fun k hk => ?_
  obtain ⟨l, hl, hremoved⟩ := hvisited.block k hk
  refine ⟨l, hl, hremoved.foreign hw hvisited.confined.wired hl hc hid, hremoved.replay hid, fun d hd => ?_⟩
  rw [hremoved.deltas] at hd
  obtain ⟨e, he, rfl⟩ := mem_map.mp hd
  refine ⟨e, l, rfl, rfl, .inr ⟨rfl, mem_of_mem_filter he, fun hmem => ?_⟩⟩
  rw [hremoved.list, mem_filter, (mem_filter.mp he).2] at hmem
  cases hmem.2

/-! ### Entries of another book -/

/-- No level of the other book that lists an entry is at a price of the book, each lists one, and the
filter lets it pass. -/
def CopiesCleanly (w : World P) (b source : BookRef) (filter : Option (Entry → Bool)) : Prop :=
  ∀ s p src, findLevel w source s p = some src → (w.level src).entryList ≠ [] →
    findLevel w b s p = none ∧
      ∃ e, (w.level src).entryList = [e] ∧ PriceLevel.rejects filter (w.entry e).copy = false

def Block.Single (w : World P) (b : BookRef) (k : Block P) : Prop :=
  k.deltas = [] ∨ (findLevel w b k.side k.price = none ∧ ∃ d, k.deltas = [d])

section Copies

variable {source : BookRef} {filter : Option (Entry → Bool)} {src : LevelRef} {refs : List EntryRef}

section

variable (h : EntriesCopied b source w filter k l w' src refs)
include h

theorem EntriesCopied.delta {d : BasicDelta} (hd : d ∈ k.deltas) : ∃ e ∈ (w.level src).entryList,
      CopyDelta l filter (w.entry e) w.nextEntry refs d := by
  obtain ⟨i, hi, rfl⟩ := mem_iff_getElem.mp hd
  have hlen := h.copies.length_eq
  exact ⟨(w.level src).entryList[i], getElem_mem _, h.copies.get (hlen ▸ hi) hi⟩

theorem EntriesCopied.blocks (hw' : Wired w') (hl : findLevel w' b k.side k.price = some l) (hc : c ≠ b)
    (hsame : placeView w' c k.side (some k.price) = placeView w b k.side (some k.price)) :
    k.Foreign c w' ∨ k.Blocked c w' := by
  have haimed : ∀ d ∈ k.deltas, Aimed c w' k.side k.price l d ∧ d.plAction = .add := by
    intro d hd
    obtain ⟨e, -, hcopy⟩ := h.delta hd
    exact ⟨Aimed.of_stored hw' hl hc hcopy.level h.limit, hcopy.plAction⟩
  cases hfind : findLevel w b k.side k.price with
  | none =>
    refine .inl fun d hd => ⟨l, (haimed d hd).1, fun haction => ?_, fun _ => ?_⟩
    · rw [(haimed d hd).2] at haction
      cases haction
    · obtain ⟨_, hentries, hpos, -⟩ := h.entries
      refine Copyable.of_unpositioned fun v hv => hpos v ?_
      rwa [hentries, heldEntries, placeView_some, bookView_eq_none.mpr hfind] at hv
  | some l₀ =>
    cases hds : k.deltas with
    | nil => exact .inl fun d hd => by simp [hds] at hd
    | cons d ds =>
      obtain ⟨haim, haction⟩ := haimed d (by simp [hds])
      exact .inr ⟨d, ds, l, levelView w l₀, hds, haim, haction, hsame.trans (bookView_of_findLevel hfind)⟩

theorem EntriesCopied.replay_isSome :
    (k.replay w' (placeView w b k.side (some k.price))).isSome ↔ k.Single w b := by
  have hadd : ∀ d ∈ k.deltas, d.priceLevel = some l ∧ d.plAction = .add := fun d hd => by
    obtain ⟨e, -, hcopy⟩ := h.delta hd
    exact ⟨hcopy.level, hcopy.plAction⟩
  have hfree : findLevel w b k.side k.price = none ↔ placeView w b k.side (some k.price) = none := by
    rw [placeView_some, bookView_eq_none]
  rw [Block.Single, hfree, Block.replay]
  generalize placeView w b k.side (some k.price) = v
  cases hds : k.deltas with
  | nil => simp
  | cons d ds =>
    obtain ⟨hlevel, haction⟩ := hadd d (by simp [hds])
    cases v with
    | some v => simp [replayDelta, hlevel, haction]
    | none =>
      cases ds with
      | nil => simp [replayDelta, hlevel, haction]
      | cons d' _ =>
        obtain ⟨hlevel', haction'⟩ := hadd d' (by simp [hds])
        simp [replayDelta, hlevel, haction, hlevel', haction']

theorem EntriesCopied.replay (hl : findLevel w' b k.side k.price = some l) (hsingle : k.Single w b) :
    k.replay w' (placeView w b k.side (some k.price)) =
      some (if k.deltas = [] then placeView w b k.side (some k.price)
        else placeView w' b k.side (some k.price)) := by
  rcases hsingle with hnil | ⟨hfree, d, hd⟩
  · simp [Block.replay, hnil]
  · obtain ⟨e, -, hcopy⟩ := h.delta (d := d) (by simp [hd])
    have hview : placeView w b k.side (some k.price) = none := placeView_eq_none.mpr hfree
    have hview' : placeView w' b k.side (some k.price) = some (levelView w' l) := bookView_of_findLevel hl
    simp [Block.replay, hd, hview, hview', replayDelta, hcopy.level, hcopy.plAction]

theorem EntriesCopied.filledView_quiet (hl : findLevel w' b k.side k.price = some l) (hnil : k.deltas = []) :
    filledView w b k.side k.price = filledView w' b k.side k.price := by
  rw [filledView, filledView, bookView_of_findLevel hl]
  cases hfind : findLevel w b k.side k.price with
  | some l' => rw [h.quiet hnil l' hfind, bookView_of_findLevel hfind]
  | none =>
    obtain ⟨_, hentries, -, hviews⟩ := h.entries
    rw [heldEntries, placeView_some, bookView_eq_none.mpr hfind, hviews hnil] at hentries
    have hempty : (levelView w' l).entries = [] := hentries
    rw [bookView_eq_none.mpr hfind, Option.filter_some, hempty]
    rfl

end

theorem addEntriesFromBook_replays_iff (hw : Wired w) (hlimit : LimitLevels w b) (hc : c ≠ b)
    (hsame : ∀ side p, placeView w c side (some p) = placeView w b side (some p))
    (hsource : source ≠ b) (filter : Option (Entry → Bool)) :
    let s := addEntriesFromBook w b source filter
    let o := applyDeltas c s.2 s.1
    (o.error = none ∧ (∀ side p, filledView o.state c side p = filledView s.1 b side p) ∧
      ∀ d ∈ s.2, ReallyChanged w s.1 d) ↔ CopiesCleanly w b source filter := by
  obtain ⟨ks, hks, hvisited⟩ := addEntriesFromBook_visited hw hsource hlimit filter
  set s := addEntriesFromBook w b source filter
  have hwired := hvisited.confined.wired
  have hblocks : ∀ k ∈ ks, k.Foreign c s.1 ∨ k.Blocked c s.1 := fun k hk => by
    obtain ⟨l, hl, src, refs, hcopied⟩ := hvisited.block k hk
    exact hcopied.blocks hwired hl hc (hvisited.copy_eq hw hc hsame _ _)
  have herror : (applyDeltas c s.2 s.1).error = none ↔ ∀ k ∈ ks, k.Single w b := by
    rw [hvisited.replay_error hw hc hsame hblocks]
    refine forall₂_congr fun k hk => ?_
    obtain ⟨l, -, src, refs, hcopied⟩ := hvisited.block k hk
    exact hcopied.replay_isSome
  constructor
  · rintro ⟨hok, -, hnames⟩ side p src hsrc hne
    -- The pass over this level recorded a delta for each of its entries.
    have hplace : (side, p) ∈ ks.map Block.place := by
      rw [hks, mem_map]
      exact ⟨(side, src), mem_slots.mpr ⟨p, hsrc⟩, by rw [slotPlace, (hw.slot hsrc).1]⟩
    obtain ⟨k, hk, ⟨⟩⟩ := mem_map.mp hplace
    obtain ⟨l, hl, src', refs, hcopied⟩ := hvisited.block k hk
    obtain rfl : src' = src := Option.some.inj (hcopied.found.symm.trans hsrc)
    have hlen := hcopied.copies.length_eq
    rcases herror.mp hok k hk with hnil | ⟨hfree, d, hd⟩
    · rw [hnil] at hlen
      exact absurd (length_eq_zero_iff.mp hlen) hne
    · rw [hd] at hlen
      obtain ⟨e, he⟩ := List.length_eq_one_iff.mp hlen
      refine ⟨hfree, e, he, ?_⟩
      have hcopies := hcopied.copies
      rw [he, hd, forall₂_cons] at hcopies
      obtain ⟨n, hn, hle, hmem⟩ := hcopies.1.entry
      have hd' : d ∈ s.2 := by
        rw [hvisited.deltas, mem_flatMap]
        exact ⟨k, hk, by simp [hd]⟩
      obtain ⟨e', l', he', hl', hchanged⟩ := hnames d hd'
      obtain rfl : .obj n = e' := Option.some.inj (hn.symm.trans he')
      obtain rfl : l = l' := Option.some.inj (hcopies.1.level.symm.trans hl')
      rcases hchanged with ⟨-, -, hlisted⟩ | ⟨hdelete, -⟩
      · exact hmem.mp ((hcopied.listed n hle).mp hlisted)
      · rw [hcopies.1.entryAction] at hdelete
        cases hdelete
  · intro hclean
    have hsingle : ∀ k ∈ ks, k.Single w b := by
      intro k hk
      obtain ⟨l, -, src, refs, hcopied⟩ := hvisited.block k hk
      have hlen := hcopied.copies.length_eq
      by_cases hnil : (w.level src).entryList = []
      · rw [hnil] at hlen
        exact .inl (length_eq_zero_iff.mp hlen.symm)
      · obtain ⟨hfree, e, he, -⟩ := hclean _ _ _ hcopied.found hnil
        rw [he] at hlen
        exact .inr ⟨hfree, List.length_eq_one_iff.mp hlen.symm⟩
    have hforeign : ∀ k ∈ ks, k.Foreign c s.1 := by
      intro k hk
      rcases hblocks k hk with hforeign | ⟨d, _, l, v, hds, -, -, hv⟩
      · exact hforeign
      · rw [hvisited.copy_eq hw hc hsame] at hv
        rcases hsingle k hk with hnil | ⟨hfree, -⟩
        · rw [hds] at hnil
          cases hnil
        · rw [placeView_some, bookView_eq_none.mpr hfree] at hv
          cases hv
    obtain ⟨hok, hself, hother⟩ := hvisited.replay hw hc hsame hforeign
      (fun k => if k.deltas = [] then placeView w b k.side (some k.price)
        else placeView s.1 b k.side (some k.price)) fun k hk => by
      obtain ⟨l, hl, src, refs, hcopied⟩ := hvisited.block k hk
      exact hcopied.replay hl (hsingle k hk)
    refine ⟨hok, fun side p => ?_, fun d hd => ?_⟩
    · by_cases hp : (side, p) ∈ ks.map Block.place
      · obtain ⟨k, hk, ⟨⟩⟩ := mem_map.mp hp
        obtain ⟨l, hl, src, refs, hcopied⟩ := hvisited.block k hk
        have hk' := hself k hk
        split at hk'
        next hnil =>
          rw [← hcopied.filledView_quiet hl hnil, filledView, filledView, ← placeView_some, hk', placeView_some]
        · rw [filledView, filledView, ← placeView_some, hk', placeView_some]
      · rw [filledView, filledView, ← placeView_some, hother side p hp, placeView_some]
    · rw [hvisited.deltas, mem_flatMap] at hd
      obtain ⟨k, hk, hd⟩ := hd
      obtain ⟨l, -, _, _, hcopied⟩ := hvisited.block k hk
      obtain ⟨e, he, hcopy⟩ := hcopied.delta hd
      obtain ⟨n, hn, hle, hmem⟩ := hcopy.entry
      obtain ⟨-, x, hx, haccepted⟩ := hclean _ _ _ hcopied.found (ne_nil_of_mem he)
      rw [hx, mem_singleton] at he
      subst he
      refine ⟨.obj n, l, hn, hcopy.level, .inl ⟨hcopy.entryAction, fun hold => ?_,
        (hcopied.listed n hle).mpr (hmem.mpr haccepted)⟩⟩
      exact absurd (hw.listed hold).1 hle.not_gt

end Copies

end Ops

/-! ### Copy, call, apply -/

inductive BulkOp where
  | addEntriesFromBook (source : BookRef) (filter : Option (Entry → Bool))
  | addPriceLevelsFromBookAsEntries (source : BookRef) (sourceId : Option String)
  | deleteEntriesFromSource (source : Nat)

namespace BulkOp

def run (b : BookRef) (w : World P) :
    BulkOp → Outcome (PriceLevel.Recorded P) (BookException P)
  | addEntriesFromBook source filter => .ok (Book.addEntriesFromBook w b source filter)
  | addPriceLevelsFromBookAsEntries source sourceId => .ok (Book.addPriceLevelsFromBookAsEntries w b source sourceId)
  | deleteEntriesFromSource source => Book.deleteEntriesFromSource w b source

def Admissible (b c : BookRef) : BulkOp → Prop
  | addEntriesFromBook source _ => source ≠ b ∧ source ≠ c
  | addPriceLevelsFromBookAsEntries source _ => source ≠ c
  | deleteEntriesFromSource _ => True

def Clean (w : World P) (b : BookRef) : BulkOp → Prop
  | addEntriesFromBook source filter => CopiesCleanly w b source filter
  | addPriceLevelsFromBookAsEntries _ _ => True
  | deleteEntriesFromSource _ => Sourced w b

end BulkOp

/-- `op` is called on `b`, and its deltas are applied to a copy of `b` from before: nothing throws, the levels of the
copy that list an entry are those of `b`, and the deltas name entries that were added or removed. -/
def BulkReplays (w : World P) (b c : BookRef) (op : BulkOp) : Prop :=
  let copied := copy w c b
  let called := op.run b copied.state
  let replayed := applyDeltas c called.state.2 called.state.1
  copied.error = none ∧ called.error = none ∧ replayed.error = none ∧
    (∀ s p, filledView replayed.state c s p = filledView called.state.1 b s p) ∧
    ∀ d ∈ called.state.2, ReallyChanged copied.state called.state.1 d

/-- A book in a consistent heap that can be copied, and whose entries have different ids at each price. -/
structure BulkBook (w : World P) (b : BookRef) : Prop where
  wired : Wired w
  duplicable : Duplicable w b
  limit : LimitLevels w b
  ids : Identified w b

section Copy

variable {w w' : World P} {b c : BookRef}

theorem BookCopied.level (hcopy : BookCopied c b w w') (hw : Wired w) {b' : BookRef} (hne : b' ≠ c)
    {s : Side} {p : P} {l : LevelRef} (hl : findLevel w' b' s p = some l) :
    findLevel w b' s p = some l ∧ Untouched w w' l := by
  have hold : findLevel w b' s p = some l := (hcopy.stored b' s (some p) hne).symm.trans hl
  exact ⟨hold, hcopy.untouched l (hw.lt_nextLevel hold)⟩

theorem BookCopied.clean_iff (hcopy : BookCopied c b w w') (hw : Wired w) (hne : b ≠ c) {op : BulkOp}
    (hop : op.Admissible b c) : op.Clean w' b ↔ op.Clean w b := by
  have hfind : ∀ b', b' ≠ c → ∀ s p, findLevel w' b' s p = findLevel w b' s p :=
    fun b' hb' s p => hcopy.stored b' s (some p) hb'
  cases op with
  | addEntriesFromBook source _ =>
    refine forall₃_congr fun s p src => ?_
    rw [hfind source hop.2, hfind b hne]
    refine imp_congr_right fun hsrc => ?_
    have huntouched := hcopy.untouched src (hw.lt_nextLevel hsrc)
    rw [huntouched.level]
    refine imp_congr_right fun _ => and_congr_right fun _ => exists_congr fun e => and_congr_right fun he => ?_
    rw [huntouched.entry e (by simp [he])]
  | addPriceLevelsFromBookAsEntries => exact Iff.rfl
  | deleteEntriesFromSource =>
    refine forall₃_congr fun s p l => ?_
    rw [hfind b hne]
    refine imp_congr_right fun hl => ?_
    have huntouched := hcopy.untouched l (hw.lt_nextLevel hl)
    rw [huntouched.level]
    refine forall₂_congr fun e he => ?_
    rw [huntouched.entry e he]

end Copy

/-- On a copy of the book the deltas of a bulk call do what it did exactly if the call is clean. -/
theorem bulkReplays_iff_clean {w : World P} {b c : BookRef} (h : BulkBook w b) (hne : b ≠ c)
    (op : BulkOp) (hop : op.Admissible b c) : BulkReplays w b c op ↔ op.Clean w b := by
  obtain ⟨hok, hcopy⟩ := copied h.wired hne h.duplicable
  set w' := (copy w c b).state with hw'
  have hwired := hcopy.wired
  have hlimit : LimitLevels w' b := by
    intro s p l hl
    obtain ⟨hold, huntouched⟩ := hcopy.level h.wired hne hl
    rw [huntouched.level]
    exact h.limit s p l hold
  have hids : Identified w' b := by
    intro s p l hl
    obtain ⟨hold, huntouched⟩ := hcopy.level h.wired hne hl
    rw [huntouched.entryViews]
    exact h.ids s p l hold
  have hsame : ∀ s p, placeView w' c s (some p) = placeView w' b s (some p) := by
    intro s p
    rw [hcopy.view]
    refine (Untouched.placeView (hcopy.stored b s (some p) hne) fun l hl => ?_).symm
    exact hcopy.untouched l (h.wired.allocated hl)
  rw [← hcopy.clean_iff h.wired hne hop, BulkReplays]
  simp only [hok, ← hw', true_and]
  cases op with
  | addEntriesFromBook _ filter =>
    simp only [BulkOp.run, Outcome.ok_error, Outcome.ok_state, true_and]
    exact addEntriesFromBook_replays_iff hwired hlimit hne.symm hsame hop.1 filter
  | addPriceLevelsFromBookAsEntries source sourceId =>
    obtain ⟨hok', hview, hnames⟩ := addPriceLevelsFromBookAsEntries_replays hwired hlimit hne.symm hsame source sourceId
    refine iff_of_true ⟨rfl, hok', fun s p => ?_, hnames⟩ trivial
    exact congrArg (Option.filter fun v => !v.entries.isEmpty) (hview s p)
  | deleteEntriesFromSource source =>
    rw [show BulkOp.Clean w' b (.deleteEntriesFromSource source) = Sourced w' b from rfl,
      ← deleteEntriesFromSource_error hwired hids.listsOnce source]
    refine ⟨And.left, fun hreturned => ⟨hreturned, ?_⟩⟩
    obtain ⟨hok', hview, hnames⟩ := deleteEntriesFromSource_replays hwired hlimit hids
      ((deleteEntriesFromSource_error hwired hids.listsOnce source).mp hreturned) hne.symm hsame source
    refine ⟨hok', fun s p => ?_, hnames⟩
    exact congrArg (Option.filter fun v => !v.entries.isEmpty) (hview s p)

theorem EntryBook.bulkBook {w : World P} {b : BookRef} (h : EntryBook w b) : BulkBook w b where
  wired := h.wired
  duplicable := h.duplicable
  limit s p l hl := by
    rw [(h.regular hl).limit]
    decide
  ids s p l hl := ⟨(h.regular hl).ids, fun v hv => ((h.regular hl).entries v hv).1⟩

def entriesFromSources : List (EntryCall Int) :=
  [.addEntry { id := some "a", size := 5, sourceDeriv := some ⟨.root 3 .ok, .unknown⟩ } 10 .bid {},
    .addEntry { id := some "b", size := 3, sourceDeriv := some ⟨.root 4 .ok, .unknown⟩ } 10 .bid {},
    .addEntry { id := some "c", size := 2, sourceDeriv := some ⟨.root 3 .ok, .unknown⟩ } 10 .bid {}]

theorem bulkReplays_entriesFromSources :
    BulkReplays (build (fun _ => none) 0 entriesFromSources) 0 1
      (.deleteEntriesFromSource 3) := by
  have hbook : EntryBook (build (fun _ => none) 0 entriesFromSources) 0 :=
    entryBook_build ⟨⟨by decide, .inl (by rintro e ⟨⟩)⟩, ⟨by decide, .inl (by rintro e ⟨⟩)⟩,
      ⟨by decide, .inl (by rintro e ⟨⟩)⟩, trivial⟩
  apply (bulkReplays_iff_clean hbook.bulkBook (by decide) (.deleteEntriesFromSource 3) trivial).mpr
  intro s p l hl
  have hslot := mem_slots.mpr ⟨p, hl⟩
  have hslots : slots (build (fun _ => none) 0 entriesFromSources) 0 = [(.bid, 0)] := by decide
  rw [hslots, mem_singleton] at hslot
  cases hslot
  decide

theorem not_bulkReplays_twoEntries :
    let w := build (fun _ => none) 2 twoEntries
    let op := BulkOp.addEntriesFromBook 2 none
    let called := op.run 0 (copy w 1 0).state
    BulkBook w 0 ∧ op.Admissible 0 1 ∧
      (applyDeltas 1 called.state.2 called.state.1).error = some (.atPrice (.levelExists "" 10 10) 10) ∧
      ¬ BulkReplays w 0 1 op := by
  have hsource : EntryBook (build (fun _ => none) 2 twoEntries) 2 := by
    refine entryBook_build ⟨⟨by decide, .inl (by rintro e ⟨⟩)⟩, ⟨by decide, .inl (by rintro e ⟨⟩)⟩,
      ⟨by decide, .inl ?_⟩, trivial⟩
    rintro e ⟨⟩
    exact ⟨.bid, 10, 0, by decide, by decide⟩
  have hempty : ∀ s p l, findLevel (build (fun _ => none) 2 twoEntries) 0 s p ≠ some l := by
    intro s p l hl
    have hslot := mem_slots.mpr ⟨p, hl⟩
    cases hslot
  refine ⟨⟨hsource.wired, ?_, ?_, ?_⟩, ⟨by decide, by decide⟩, by decide, ?_⟩
  · intro s q l hl
    cases q with
    | some p => exact absurd hl (hempty s p l)
    | none => cases s <;> cases hl
  · exact fun s p l hl => absurd hl (hempty s p l)
  · exact fun s p l hl => absurd hl (hempty s p l)
  · exact fun h => nomatch h.2.2.1

end OpenMama.OrderBook
