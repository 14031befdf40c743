import OpenMama.OrderBook.Visits

/-!
# The bulk operations, place by place

What the three bulk operations leave at each place they visit, and the deltas they record there. `addEntriesFromBook`
records an ADD of the level for every entry of the other book's level, whether or not the filter let the entry pass.
-/

namespace OpenMama.OrderBook

open Book List PriceLevel Outcome World

variable {P : Type} [LinearOrder P]

def heldEntries (w : World P) (b : BookRef) (s : Side) (p : P) : List EntryView :=
  (placeView w b s (some p)).elim [] LevelView.entries

/-- Book `b` has the level `l` at the place `(s, p)`, with `entries` behind those it showed there. -/
structure Added (b : BookRef) (s : Side) (p : P) (l : LevelRef) (w w' : World P) (entries : List EntryView) : Prop where
  stores : Stores b s (some p) l w w'
  origin : findLevel w b s p = some l ∨ (findLevel w b s p = none ∧ w.nextLevel ≤ l)
  entries : entryViews w' l = heldEntries w b s p ++ entries
  limit : (∀ l', findLevel w b s p = some l' → (w.level l').orderType ≠ .market) →
    (w'.level l).orderType ≠ .market

namespace Added

variable {b : BookRef} {s : Side} {p : P} {l : LevelRef} {w w' w'' : World P}
  {entries : List EntryView}

variable (h : Added b s p l w w' entries)
include h

theorem of_step (entries' : List EntryView) (hwired : Wired w'') (hframe : Frame l w' w'')
    (hstored : ∀ b s q, stored w'' b s q = stored w' b s q)
    (hcheck : ∀ b, (w''.book b).checkVisibility = (w'.book b).checkVisibility)
    (horder : (w''.level l).orderType = (w'.level l).orderType)
    (hentries : entryViews w'' l = entryViews w' l ++ entries') :
    Added b s p l w w'' (entries ++ entries') where
  stores := by
    refine ⟨hwired, h.stores.frame.trans hframe, fun b' s' q' => ?_, fun b' => ?_⟩
    · rw [hstored, h.stores.stored]
    · exact (hcheck b').trans (h.stores.check b')
  origin := h.origin
  entries := by rw [hentries, h.entries, append_assoc]
  limit hlimit := by
    rw [horder]
    exact h.limit hlimit

theorem newEntry (entry : Entry) : Added b s p l w (w'.newEntry entry) entries := by
  have hwired := h.stores.wired
  have hstep := h.of_step [] (hwired.newEntry entry) ((Frame.refl l w').newEntry entry)
    (fun _ _ _ => rfl) (fun _ => rfl) rfl
    (by rw [(hwired.untouched_newEntry entry l).entryViews, append_nil])
  rwa [append_nil] at hstep

theorem modifyLevel {g : PriceLevel P → PriceLevel P} (hprice : (g (w'.level l)).price = (w'.level l).price)
    (hside : (g (w'.level l)).side = (w'.level l).side) (hlist : (g (w'.level l)).entryList = (w'.level l).entryList)
    (horder : (g (w'.level l)).orderType = (w'.level l).orderType) :
    Added b s p l w (w'.modifyLevel l g) entries := by
  have hstep := h.of_step [] (h.stores.wired.modifyLevel ⟨hprice, hside, hlist⟩)
    ((Frame.refl l w').modifyLevel fun e he => hlist ▸ he) (fun _ _ _ => rfl) (fun _ => rfl)
    (by simpa using horder)
    (by rw [append_nil]; exact entryViews_congr rfl (by simpa using hlist))
  rwa [append_nil] at hstep

theorem addEntry (entry : Entry) :
    Added b s p l w (addEntry (w'.newEntry entry) l w'.freshEntry)
      (entries ++ [{ entry.view with positioned := false }]) := by
  have hstep := entryStep_addEntry h.stores.wired l entry
  exact h.of_step _ hstep.wired hstep.frame hstep.stored hstep.check hstep.fields.orderType hstep.entries

end Added

/-! ### Finding or creating a level -/

section FindOrCreate

variable {w : World P} {b : BookRef} {side : Side} {price : P}

theorem findOrCreateLevel_added (h : Wired w) (b : BookRef) (hside : side ≠ .unknown) (price : P) :
    let r := findOrCreateLevel w b side price side
    Added b side price r.2.1 w r.1 [] ∧
      r.2.2 = (if (findLevel w b side price).isSome then .update else .add) ∧
      ∀ l, findLevel w b side price = some l → r.1 = w ∧ r.2.1 = l := by
  cases hl : findLevel w b side price with
  | some l =>
    simp only [findOrCreateLevel, hl]
    refine ⟨⟨?_, .inl hl, ?_, fun hlimit => hlimit l hl⟩, by simp, ?_⟩
    · exact Stores.of_stored h (Frame.refl l w) (fun _ _ _ => rfl) (fun _ => rfl) hl
    · rw [heldEntries, placeView_some, bookView_of_findLevel hl, append_nil]
      rfl
    · intro _ hl'
      simpa using hl'
  | none =>
    simp only [findOrCreateLevel, hl]
    have hwired : Wired (insertLevel
        (w.newLevel { price := price, side := side, book := some b }) b side price w.nextLevel) := by
      apply (h.newLevel rfl).insertLevel b hside (Nat.lt_succ_self _) (by simp)
      exact fun b' s q hq => Nat.lt_irrefl _ (h.allocated hq)
    refine ⟨⟨⟨hwired, (Frame.newLevel w rfl).modifyBook b _, fun b' s' q' => stored_insertLevel hside,
      fun b' => ?_⟩, .inr ⟨hl, le_rfl⟩, ?_, fun _ => ?_⟩, by simp, by simp⟩
    · by_cases hb : b' = b <;> simp [insertLevel, hb]
    · rw [heldEntries, placeView_some, bookView_eq_none.mpr hl]
      simp [entryViews, insertLevel, entryList]
    · simp [insertLevel]

theorem findOrCreateLevel_newEntry (w : World P) (b : BookRef) (side : Side) (price : P) (entry : Entry) :
    findOrCreateLevel (w.newEntry entry) b side price side =
      ((findOrCreateLevel w b side price side).1.newEntry entry,
        (findOrCreateLevel w b side price side).2) := by
  have hfind : findLevel (w.newEntry entry) b side price = findLevel w b side price := rfl
  cases hl : findLevel w b side price with
  | some l => simp only [findOrCreateLevel, hfind, hl]
  | none =>
    simp only [findOrCreateLevel, hfind, hl]
    rfl

theorem findOrCreateLevel_nextEntry (w : World P) (b : BookRef) (side : Side) (price : P) :
    (findOrCreateLevel w b side price side).1.nextEntry = w.nextEntry ∧
      (findOrCreateLevel w b side price side).1.entry = w.entry := by
  unfold findOrCreateLevel
  split
  · exact ⟨rfl, rfl⟩
  · exact ⟨rfl, rfl⟩

theorem addEntrySide_added (h : Wired w) (b : BookRef) (hside : side ≠ .unknown) (price : P)
    (entry : Entry) (eventTime : DateTime) :
    let r := addEntrySide (w.newEntry entry) b side w.freshEntry price side eventTime
    ∃ l, Added b side price l w r.1 [{ entryView r.1 w.freshEntry with positioned := false }] ∧
      w.freshEntry ∈ (r.1.level l).entryList ∧ r.2.priceLevel = some l ∧
      r.2.entry = some w.freshEntry ∧ r.2.entryAction = .add ∧
      r.2.plAction = (if (findLevel w b side price).isSome then .update else .add) := by
  obtain ⟨hopened, haction, -⟩ := findOrCreateLevel_added h b hside price
  obtain ⟨hnext, -⟩ := findOrCreateLevel_nextEntry w b side price
  set r := findOrCreateLevel w b side price side with hr
  set counted := (w.newEntry entry).counted ((w.newEntry entry).book b).checkVisibility w.freshEntry
  set timed := r.1.modifyLevel r.2.1 fun lev =>
    { lev with time := if counted then eventTime else lev.time, book := some b } with htimed
  have hfresh : timed.freshEntry = w.freshEntry := by
    rw [freshEntry, modifyLevel_nextEntry, hnext, freshEntry]
  have hadded := (hopened.modifyLevel (g := fun lev =>
    { lev with time := if counted then eventTime else lev.time, book := some b })
    rfl rfl rfl rfl).addEntry entry
  rw [hfresh] at hadded
  have hworld : (addEntrySide (w.newEntry entry) b side w.freshEntry price side eventTime).1 =
      PriceLevel.addEntry (timed.newEntry entry) r.2.1 w.freshEntry := by
    simp only [addEntrySide, findOrCreateLevel_newEntry]
    rfl
  have hdelta : (addEntrySide (w.newEntry entry) b side w.freshEntry price side eventTime).2 =
      { priceLevel := some r.2.1, entry := some w.freshEntry,
        plDeltaSize := if counted then ((w.newEntry entry).entry w.freshEntry).size else 0,
        plAction := r.2.2, entryAction := .add } := by
    simp only [addEntrySide, findOrCreateLevel_newEntry]
    rfl
  have hview : ({ entryView (addEntry (timed.newEntry entry) r.2.1 w.freshEntry)
      w.freshEntry with positioned := false } : EntryView) = { entry.view with positioned := false } := by
    simp [entryView, Entry.view, hfresh]
  dsimp only
  rw [hworld, hdelta, hview]
  refine ⟨r.2.1, hadded, ?_, rfl, rfl, rfl, haction⟩
  rw [addEntry_entryList, if_pos rfl]
  exact mem_append_right _ (mem_singleton_self _)

end FindOrCreate

def LimitLevels (w : World P) (b : BookRef) : Prop :=
  ∀ s p l, findLevel w b s p = some l → (w.level l).orderType ≠ .market

variable {b : BookRef} {w w' w'' : World P} {k : Block P} {l : LevelRef} {source : BookRef} {s : PriceLevel.Recorded P}
  {ks : List (Block P)} {side : Side} {p : P} {src : LevelRef}

theorem stable_of_untouched {F : Block P → LevelRef → World P → Prop}
    (hF : ∀ k l w w', F k l w → Untouched w w' l → F k l w') : Stable F :=
  fun _ _ _ _ _ hk hne hw hframe => hF _ _ _ _ hk (hframe.untouched hw hne.symm)

namespace Visited

variable {b source : BookRef} {w : World P} {F : Block P → LevelRef → World P → Prop}
  {s : PriceLevel.Recorded P} {ks : List (Block P)} {side : Side} {p : P}

variable (h : Visited b w F s ks)
include h

theorem placeView_eq (hnew : (side, p) ∉ ks.map Block.place) :
    placeView s.1 b side (some p) = placeView w b side (some p) := by
  obtain ⟨hfind, huntouched⟩ := h.other side p hnew
  exact Untouched.placeView hfind huntouched

theorem heldEntries_eq (hnew : (side, p) ∉ ks.map Block.place) : heldEntries s.1 b side p = heldEntries w b side p := by
  rw [heldEntries, h.placeView_eq hnew, heldEntries]

theorem limit (hlimit : LimitLevels w b) (hnew : (side, p) ∉ ks.map Block.place) :
    ∀ l, findLevel s.1 b side p = some l → (s.1.level l).orderType ≠ .market := by
  intro l hl
  obtain ⟨hfind, huntouched⟩ := h.other side p hnew
  rw [hfind] at hl
  rw [(huntouched l hl).level]
  exact hlimit side p l hl

theorem findSource (hsrc : findLevel w source side p = some src)
    (hnew : source = b → (side, p) ∉ ks.map Block.place) : findLevel s.1 source side p = some src := by
  by_cases hb : source = b
  · subst hb
    rw [(h.other side p (hnew rfl)).1, hsrc]
  · exact (h.confined.stored source side (some p) hb).trans hsrc

end Visited

/-- What `addPriceLevelsFromBookAsEntries` leaves at a place: one entry more, and the delta of `addEntry`.
-/
structure LevelEntry (b : BookRef) (w : World P) (k : Block P) (l : LevelRef) (w' : World P)
    (delta : BasicDelta) (n : Nat) : Prop where
  deltas : k.deltas = [delta]
  level : delta.priceLevel = some l
  entry : delta.entry = some (.obj n)
  fresh : w.nextEntry ≤ n
  mem : .obj n ∈ (w'.level l).entryList
  entryAction : delta.entryAction = .add
  plAction : delta.plAction = (if (findLevel w b k.side k.price).isSome then .update else .add)
  entries : entryViews w' l =
    heldEntries w b k.side k.price ++ [{ entryView w' (.obj n) with positioned := false }]
  limit : (w'.level l).orderType ≠ .market

theorem LevelEntry.untouched {delta : BasicDelta} {n : Nat} (h : LevelEntry b w k l w' delta n)
    (hl : Untouched w' w'' l) :
    LevelEntry b w k l w'' delta n := by
  refine { h with mem := ?_, entries := ?_, limit := ?_ }
  · rw [hl.level]
    exact h.mem
  · rw [hl.entryViews, h.entries, entryView, entryView, hl.entry _ h.mem]
  · rw [hl.level]
    exact h.limit

theorem addPriceLevelAsEntry_visits (hlimit : LimitLevels w b)
    (h : Visited b w (fun k l w' => ∃ delta n, LevelEntry b w k l w' delta n) s ks) (sourceId : Option String)
    (hsrc : findLevel w source side p = some src) (hnew : (side, p) ∉ ks.map Block.place) :
    ∃ k : Block P, k.place = (side, p) ∧
      Visited b w (fun k l w' => ∃ delta n, LevelEntry b w k l w' delta n)
        (addPriceLevelAsEntry b source side sourceId s src) (ks ++ [k]) := by
  have hwired := h.confined.wired
  obtain ⟨hprice, hside⟩ := hwired.slot (h.findSource hsrc fun _ => hnew)
  set entry : Entry :=
    { id := sourceId, size := (s.1.level src).size, action := .add, time := (s.1.level src).time,
      sourceDeriv := (s.1.book source).sourceDeriv, reason := .modify } with hentry
  obtain ⟨l, hadded, hmem, hlevel, hdelta, haction, hpl⟩ := addEntrySide_added hwired b
    (side_ne_unknown hsrc) p entry (s.1.level src).time
  set r := addEntrySide (s.1.newEntry entry) b side s.1.freshEntry p side (s.1.level src).time
  have hpass : addPriceLevelAsEntry b source side sourceId s src = (r.1, s.2 ++ [r.2]) := by
    simp only [addPriceLevelAsEntry, hprice, hside]
    rfl
  rw [hpass]
  refine ⟨⟨side, p, [r.2]⟩, rfl, h.pass (k := ⟨side, p, [r.2]⟩) ?_ hnew hadded.stores ?_ ⟨r.2, s.1.nextEntry, ?_⟩⟩
  · apply stable_of_untouched
    rintro k l _ _ ⟨delta, n, hk⟩ hl
    exact ⟨delta, n, hk.untouched hl⟩
  · exact hadded.origin.imp id And.right
  · refine ⟨rfl, hlevel, hdelta, h.confined.within.nextEntry, hmem, haction, ?_, ?_, ?_⟩
    · rw [hpl, (h.other side p hnew).1]
    · rw [hadded.entries, h.heldEntries_eq hnew]
      rfl
    · exact hadded.limit (h.limit hlimit hnew)

/-! ### Entries of another book -/

theorem World.newEntry_modifyEntry (w : World P) (entry : Entry) (f : Entry → Entry) :
    (w.newEntry entry).modifyEntry w.freshEntry f = w.newEntry (f entry) := by
  simp [modifyEntry, newEntry]

/-- The delta recorded for an entry of the other book. The entry it names is listed if the filter let it
pass. -/
structure CopyDelta (l : LevelRef) (filter : Option (Entry → Bool)) (entry : Entry) (next : Nat)
    (refs : List EntryRef) (delta : BasicDelta) : Prop where
  level : delta.priceLevel = some l
  plAction : delta.plAction = .add
  entryAction : delta.entryAction = .add
  entry : ∃ n, delta.entry = some (.obj n) ∧ next ≤ n ∧
    (.obj n ∈ refs ↔ rejects filter entry.copy = false)

theorem CopyDelta.mono {filter : Option (Entry → Bool)} {entry : Entry} {next next' : Nat} {refs refs' : List EntryRef}
    {delta : BasicDelta} (h : CopyDelta l filter entry next refs delta) (hnext : next' ≤ next)
    (hrefs : ∀ n, next ≤ n → (.obj n ∈ refs' ↔ .obj n ∈ refs)) :
    CopyDelta l filter entry next' refs' delta := by
  obtain ⟨n, hn, hle, hmem⟩ := h.entry
  exact ⟨h.level, h.plAction, h.entryAction, n, hn, hnext.trans hle, (hrefs n hle).trans hmem⟩

section AddEntries

variable {b : BookRef} {side : Side} {p : P} {l : LevelRef} {w : World P} {s : PriceLevel.Recorded P}
  {views : List EntryView}

theorem addEntryFromLevel_added (h : Added b side p l w s.1 views) (filter : Option (Entry → Bool)) (e : EntryRef) :
    let s' := addEntryFromLevel l filter s e
    ∃ views' refs d, Added b side p l w s'.1 (views ++ views') ∧
      (∀ v ∈ views', v.positioned = false) ∧
      (s'.1.level l).entryList = (s.1.level l).entryList ++ refs ∧
      (∀ x ∈ refs, x = s.1.freshEntry) ∧ s'.2 = s.2 ++ [d] ∧
      CopyDelta l filter (s.1.entry e) s.1.nextEntry refs d ∧ d.entry = some s.1.freshEntry ∧
      s'.1.nextEntry = s.1.nextEntry + 1 ∧ ∀ x, x ≠ s.1.freshEntry → s'.1.entry x = s.1.entry x := by
  set entry := (s.1.entry e).copy with hentry
  set d : BasicDelta :=
    { priceLevel := some l, entry := some s.1.freshEntry, plDeltaSize := (s.1.entry e).size,
      plAction := .add, entryAction := .add } with hd
  cases hrejects : rejects filter entry with
  | true =>
    have hpass : addEntryFromLevel l filter s e = (s.1.newEntry entry, s.2 ++ [d]) := by
      simp only [addEntryFromLevel, ← hentry, hrejects, if_true, ← hd]
    rw [hpass]
    refine ⟨[], [], d, ?_, by simp, by simp, by simp, rfl, ⟨rfl, rfl, rfl, s.1.nextEntry, rfl, le_rfl, ?_⟩,
      rfl, rfl, fun x hx => by simp [hx]⟩
    · rw [append_nil]
      exact h.newEntry entry
    · simp [← hentry, hrejects]
  | false =>
    have hpass : addEntryFromLevel l filter s e =
        (PriceLevel.addEntry (s.1.newEntry { entry with action := .add }) l s.1.freshEntry,
          s.2 ++ [d]) := by
      simp only [addEntryFromLevel, ← hentry, hrejects, Bool.false_eq_true, if_false, ← hd, newEntry_modifyEntry]
    rw [hpass]
    refine ⟨_, [s.1.freshEntry], d, h.addEntry { entry with action := .add }, by simp, ?_, by simp, rfl,
      ⟨rfl, rfl, rfl, s.1.nextEntry, rfl, le_rfl, ?_⟩, rfl, rfl, fun x hx => ?_⟩
    · rw [addEntry_entryList, if_pos rfl]
      rfl
    · simp [← hentry, hrejects, freshEntry]
    · rw [addEntry_entry_of_ne _ _ hx]
      simp [hx]

theorem addEntryFromLevel_foldl (filter : Option (Entry → Bool)) (es : List EntryRef)
    (h : Added b side p l w s.1 views) (hold : ∀ n, .obj n ∈ es → n < s.1.nextEntry) :
    let s' := es.foldl (addEntryFromLevel l filter) s
    ∃ views' refs ds, Added b side p l w s'.1 (views ++ views') ∧
      (∀ v ∈ views', v.positioned = false) ∧
      (s'.1.level l).entryList = (s.1.level l).entryList ++ refs ∧
      (∀ n, .obj n ∈ refs → s.1.nextEntry ≤ n) ∧ s'.2 = s.2 ++ ds ∧
      List.Forall₂ (fun e d => CopyDelta l filter (s.1.entry e) s.1.nextEntry refs d) es ds := by
  induction es generalizing s views with
  | nil =>
    refine ⟨[], [], [], ?_, by simp, by simp, by simp, by simp, .nil⟩
    rwa [append_nil]
  | cons e es ih =>
    obtain ⟨views₁, refs₁, d, hadded₁, hpos₁, hlist₁, hrefs₁, hdelta, hcopy, hentry, hnext,
      hentries⟩ :=
      addEntryFromLevel_added h filter e
    rw [foldl_cons]
    set s₁ := addEntryFromLevel l filter s e
    -- The entries still to come are not the one just allocated.
    have hkept : ∀ x ∈ es, s₁.1.entry x = s.1.entry x := by
      intro x hx
      apply hentries x
      rintro rfl
      exact Nat.lt_irrefl _ (hold s.1.nextEntry (mem_cons_of_mem e hx))
    obtain ⟨views₂, refs₂, ds, hadded₂, hpos₂, hlist₂, hrefs₂, hds, hcopies⟩ := ih hadded₁ fun n hn => by
      rw [hnext]
      exact Nat.lt_succ_of_lt (hold n (mem_cons_of_mem e hn))
    rw [hnext] at hrefs₂
    refine ⟨views₁ ++ views₂, refs₁ ++ refs₂, d :: ds, ?_, ?_, ?_, ?_, ?_, .cons ?_ ?_⟩
    · rwa [← append_assoc]
    · intro v hv
      rcases mem_append.mp hv with hv | hv
      · exact hpos₁ v hv
      · exact hpos₂ v hv
    · rw [hlist₂, hlist₁, append_assoc]
    · intro n hn
      rcases mem_append.mp hn with hn | hn
      · exact le_of_eq (EntryRef.obj.inj (hrefs₁ _ hn)).symm
      · exact (Nat.le_succ _).trans (hrefs₂ n hn)
    · rw [hds, hdelta, append_assoc, singleton_append]
    · obtain ⟨n, hn, hle, hmem⟩ := hcopy.entry
      refine ⟨hcopy.level, hcopy.plAction, hcopy.entryAction, n, hn, hle, ?_⟩
      obtain rfl : s.1.nextEntry = n := EntryRef.obj.inj (Option.some.inj (hentry.symm.trans hn))
      rw [mem_append, ← hmem]
      exact or_iff_left fun hlater => Nat.not_succ_le_self _ (hrefs₂ _ hlater)
    · refine ((forall₂_and_left es ds).mpr ⟨hkept, hcopies⟩).imp fun x d' hx => ?_
      obtain ⟨hsame, hcopy'⟩ := hx
      rw [hsame, hnext] at hcopy'
      refine hcopy'.mono (Nat.le_succ _) fun n hn => ?_
      rw [mem_append]
      refine or_iff_right fun hfirst => ?_
      exact Nat.not_succ_le_self _ ((EntryRef.obj.inj (hrefs₁ _ hfirst)) ▸ hn)

theorem addEntriesFromLevel_eq (l src : LevelRef) (filter : Option (Entry → Bool)) (s : PriceLevel.Recorded P) :
    ∃ time : Option DateTime, addEntriesFromLevel l src filter s =
      let s' := (s.1.level src).entryList.foldl (addEntryFromLevel l filter) s
      (s'.1.modifyLevel l fun lev => { lev with time := time.getD lev.time }, s'.2) := by
  unfold addEntriesFromLevel
  cases hes : (s.1.level src).entries with
  | none =>
    refine ⟨none, ?_⟩
    simp [entryList, hes, modifyLevel]
  | some es =>
    refine ⟨some ((es.foldl (addEntryFromLevel l filter) s).1.level src).time, ?_⟩
    simp [entryList, hes]

end AddEntries

/-- What `addEntriesFromBook` leaves at a place: copies of the entries of `src` that the filter let pass, and a delta
for each entry of `src`. -/
structure EntriesCopied (b source : BookRef) (w : World P) (filter : Option (Entry → Bool)) (k : Block P)
    (l : LevelRef) (w' : World P) (src : LevelRef) (refs : List EntryRef) : Prop where
  found : findLevel w source k.side k.price = some src
  copies : List.Forall₂ (fun e d => CopyDelta l filter (w.entry e) w.nextEntry refs d)
    (w.level src).entryList k.deltas
  listed : ∀ n, w.nextEntry ≤ n → (.obj n ∈ (w'.level l).entryList ↔ .obj n ∈ refs)
  entries : ∃ views, entryViews w' l = heldEntries w b k.side k.price ++ views ∧
    (∀ v ∈ views, v.positioned = false) ∧ (k.deltas = [] → views = [])
  quiet : k.deltas = [] → ∀ l', findLevel w b k.side k.price = some l' → levelView w' l = levelView w l'
  limit : (w'.level l).orderType ≠ .market

theorem EntriesCopied.untouched {filter : Option (Entry → Bool)} {refs : List EntryRef}
    (h : EntriesCopied b source w filter k l w' src refs) (hl : Untouched w' w'' l) :
    EntriesCopied b source w filter k l w'' src refs := by
  refine { h with listed := ?_, entries := ?_, quiet := ?_, limit := ?_ }
  · rw [hl.level]
    exact h.listed
  · rw [hl.entryViews]
    exact h.entries
  · rw [hl.levelView]
    exact h.quiet
  · rw [hl.level]
    exact h.limit

theorem addEntriesFromBookLevel_visits (hw : Wired w) (hsource : source ≠ b) (hlimit : LimitLevels w b)
    (filter : Option (Entry → Bool))
    (h : Visited b w (fun k l w' => ∃ src refs, EntriesCopied b source w filter k l w' src refs) s ks)
    (hsrc : findLevel w source side p = some src) (hnew : (side, p) ∉ ks.map Block.place) :
    ∃ k : Block P, k.place = (side, p) ∧
      Visited b w (fun k l w' => ∃ src refs, EntriesCopied b source w filter k l w' src refs)
        (addEntriesFromBookLevel b side filter s src) (ks ++ [k]) := by
  have hwired := h.confined.wired
  have hsrc' := h.findSource hsrc fun heq => absurd heq hsource
  obtain ⟨hprice, hside⟩ := hwired.slot hsrc'
  obtain ⟨hopened, -, hfound⟩ := findOrCreateLevel_added hwired b (side_ne_unknown hsrc) p
  obtain ⟨hnext, -⟩ := findOrCreateLevel_nextEntry s.1 b side p
  set r := findOrCreateLevel s.1 b side p side with hr
  -- The other book's level and its entries are as they were when the operation started.
  have hne : src ≠ r.2.1 := by
    intro heq
    have hstored : stored r.1 source side (some p) = some r.2.1 := by
      rw [hopened.stores.stored, if_neg fun h => hsource h.1, ← heq]
      exact hsrc'
    exact hsource (hopened.stores.wired.owner hopened.stores.stored_self hstored).1
  have huntouched : Untouched w r.1 src :=
    (h.confined.untouched (q := some p) hw hsrc hsource).trans
      (hopened.stores.frame.untouched hwired hne)
  obtain ⟨time, hrun⟩ := addEntriesFromLevel_eq r.2.1 src filter (r.1, s.2)
  have hpass : addEntriesFromBookLevel b side filter s src = addEntriesFromLevel r.2.1 src filter (r.1, s.2) := by
    simp only [addEntriesFromBookLevel, hprice, hside, ← hr]
  rw [hpass, hrun, huntouched.level]
  obtain ⟨views, refs, ds, hadded, hpos, hlist, hrefs, hds, hcopies⟩ :=
    addEntryFromLevel_foldl filter (w.level src).entryList (s := (r.1, s.2)) hopened fun n hn => by
      rw [hnext]
      exact (hw.listed hn).1.trans_le h.confined.within.nextEntry
  dsimp only at hlist hrefs hds hcopies ⊢
  rw [nil_append] at hadded
  have hfinal := hadded.modifyLevel (g := fun lev => { lev with time := time.getD lev.time }) rfl rfl rfl rfl
  set s' := (w.level src).entryList.foldl (addEntryFromLevel r.2.1 filter) (r.1, s.2) with hs'
  set final := s'.1.modifyLevel r.2.1 fun lev => { lev with time := time.getD lev.time } with hfin
  obtain ⟨hplace, hkept⟩ := h.other side p hnew
  -- What the level listed before was allocated before the operation started.
  have hold : ∀ n, .obj n ∈ (r.1.level r.2.1).entryList → n < w.nextEntry := by
    intro n hn
    rcases hopened.origin with hl | ⟨hl, -⟩
    · rw [(hfound _ hl).1] at hn
      rw [hplace] at hl
      rw [(hkept _ hl).level] at hn
      exact (hw.listed hn).1
    · have hempty := hopened.entries
      rw [heldEntries, placeView_some, bookView_eq_none.mpr hl] at hempty
      rw [map_eq_nil_iff.mp hempty] at hn
      cases hn
  have hquiet : ds = [] → s' = (r.1, s.2) := by
    rintro rfl
    rw [hs', forall₂_nil_right_iff.mp hcopies, foldl_nil]
  refine ⟨⟨side, p, ds⟩, rfl, ?_⟩
  rw [hds]
  refine h.pass (k := ⟨side, p, ds⟩) ?_ hnew hfinal.stores ?_ ⟨src, refs, ?_⟩
  · apply stable_of_untouched
    rintro k l _ _ ⟨src, refs, hk⟩ hl
    exact ⟨src, refs, hk.untouched hl⟩
  · exact hopened.origin.imp id And.right
  refine ⟨hsrc, ?_, ?_, ⟨views, ?_, hpos, ?_⟩, ?_, ?_⟩
  · refine ((forall₂_and_left _ ds).mpr ⟨huntouched.entry, hcopies⟩).imp fun e d hd => ?_
    obtain ⟨hsame, hcopy⟩ := hd
    rw [hsame, hnext] at hcopy
    exact hcopy.mono h.confined.within.nextEntry fun _ _ => Iff.rfl
  · intro n hn
    have hself : (final.level r.2.1).entryList = (s'.1.level r.2.1).entryList := by simp [hfin, entryList]
    rw [hself, hlist, mem_append]
    exact or_iff_right fun hmem => absurd (hold n hmem) hn.not_gt
  · rw [hfinal.entries, h.heldEntries_eq hnew]
  · intro hnil
    have hsame := hadded.entries
    rw [hquiet hnil, hopened.entries, append_nil] at hsame
    exact (self_eq_append_right.mp hsame)
  · intro hnil l' hl'
    obtain ⟨hr₁, hr₂⟩ := hfound l' (hplace.trans hl')
    have hviews : entryViews final l' = entryViews s.1 l' := by
      refine entryViews_congr ?_ ?_
      · rw [hfin, hquiet hnil, hr₁]
        rfl
      · rw [hfin, hquiet hnil, hr₁, hr₂]
        simp [entryList]
    rw [hr₂, ← (hkept l' hl').levelView, levelView, hviews, levelView]
    simp [hfin, hquiet hnil, hr₁, hr₂]
  · exact hfinal.limit (h.limit hlimit hnew)

/-! ### Entries from a source -/

def fromSource (w : World P) (source : Nat) (e : EntryRef) : Bool :=
  ((w.entry e).sourceDeriv.map fun deriv => deriv.baseSource.isPartOf source).getD false

def removalDelta (w : World P) (l : LevelRef) (e : EntryRef) : BasicDelta :=
  { priceLevel := some l, entry := some e, plDeltaSize := -(w.entry e).size, plAction := .update,
    entryAction := .delete }

structure Erased (l : LevelRef) (w w' : World P) : Prop where
  wired : Wired w'
  frame : Frame l w w'
  stored : ∀ b s q, stored w' b s q = stored w b s q
  check : ∀ b, (w'.book b).checkVisibility = (w.book b).checkVisibility
  entry : w'.entry = w.entry
  orderType : (w'.level l).orderType = (w.level l).orderType

theorem Erased.of_eraseEntry {e : EntryRef} (h : Erased l (eraseEntry w l e) w') : Erased l w w' where
  wired := h.wired
  frame := ((Frame.refl l w).eraseEntry e).trans h.frame
  stored b s q := by rw [h.stored, stored_eraseEntry]
  check b := by rw [h.check, eraseEntry_checkVisibility]
  entry := by rw [h.entry, eraseEntry_entry]
  orderType := by rw [h.orderType, eraseEntry_level, if_pos rfl]

theorem deleteEntryFromSource_each (source : Nat) (l : LevelRef) (kept es : List EntryRef) (hw : Wired s.1)
    (hlist : (s.1.level l).entryList = kept ++ es) (hnodup : (kept ++ es).Nodup) :
    let o := each (deleteEntryFromSource source l) es s
    (o.error = none ↔ ∀ e ∈ es, (s.1.entry e).sourceDeriv ≠ none) ∧
    ((∀ e ∈ es, (s.1.entry e).sourceDeriv ≠ none) → Erased l s.1 o.state.1 ∧
      (o.state.1.level l).entryList = kept ++ es.filter (fun e => !fromSource s.1 source e) ∧
      o.state.2 = s.2 ++ (es.filter (fromSource s.1 source)).map (removalDelta s.1 l) ∧
      (es.filter (fromSource s.1 source) = [] → o.state = s)) := by
  induction es generalizing s kept with
  | nil =>
    refine ⟨by simp [each], fun _ => ⟨⟨hw, Frame.refl l s.1, fun _ _ _ => rfl, fun _ => rfl, rfl,
      rfl⟩, ?_, by simp [each], fun _ => rfl⟩⟩
    simpa [each] using hlist
  | cons e es ih =>
    cases hderiv : (s.1.entry e).sourceDeriv with
    | none =>
      rw [show each (deleteEntryFromSource source l) (e :: es) s = .throw s .nullDereference by
        simp [each, deleteEntryFromSource, hderiv]]
      refine ⟨⟨fun h => ?_, fun h => absurd hderiv (h e (by simp))⟩, fun h => absurd hderiv (h e (by simp))⟩
      cases h
    | some deriv =>
      cases hpart : deriv.baseSource.isPartOf source with
      | true =>
        have hfrom : fromSource s.1 source e := by simp [fromSource, hderiv, hpart]
        have hnot : e ∉ kept := fun hmem => (nodup_append.mp hnodup).2.2 e hmem e (by simp) rfl
        have hlist' : ((eraseEntry s.1 l e).level l).entryList = kept ++ es := by
          rw [eraseEntry_level, if_pos rfl]
          change (s.1.level l).entryList.erase e = _
          rw [hlist, erase_append_right _ hnot, erase_cons_head]
        have hnodup' : (kept ++ es).Nodup := hnodup.sublist ((sublist_cons_self e es).append_left kept)
        let s' := (eraseEntry s.1 l e, s.2 ++ [removalDelta s.1 l e])
        have ho : deleteEntryFromSource source l e s = .ok s' := by
          simp [deleteEntryFromSource, hderiv, hpart, removalDelta, s']
        obtain ⟨herror, hstate⟩ := ih kept (s := s') (hw.eraseEntry l e) hlist' hnodup'
        have hsame : fromSource (eraseEntry s.1 l e) source = fromSource s.1 source ∧
            removalDelta (eraseEntry s.1 l e) l = removalDelta s.1 l := by
          constructor <;> funext x <;> simp [fromSource, removalDelta]
        simp only [s', eraseEntry_entry, hsame.1, hsame.2] at herror hstate
        rw [each, ho, ok_andThen, forall_mem_cons, filter_cons_of_neg (by simp [hfrom]), filter_cons_of_pos hfrom]
        refine ⟨herror.trans (and_iff_right (by simp [hderiv])).symm, fun h => ?_⟩
        obtain ⟨herased, hrest, hdeltas, -⟩ := hstate h.2
        refine ⟨herased.of_eraseEntry, hrest, ?_, by simp⟩
        rw [hdeltas, append_assoc, singleton_append, map_cons]
      | false =>
        have hfrom : fromSource s.1 source e = false := by simp [fromSource, hderiv, hpart]
        have ho : deleteEntryFromSource source l e s = .ok s := by simp [deleteEntryFromSource, hderiv, hpart]
        have hlist' : (s.1.level l).entryList = (kept ++ [e]) ++ es := by rw [hlist, append_assoc, singleton_append]
        obtain ⟨herror, hstate⟩ := ih (kept ++ [e]) hw hlist' (hlist' ▸ hlist ▸ hnodup)
        rw [each, ho, ok_andThen, forall_mem_cons, filter_cons_of_pos (by simp [hfrom]), filter_cons_of_neg (by simp [hfrom])]
        refine ⟨herror.trans (and_iff_right (by simp [hderiv])).symm, fun h => ?_⟩
        obtain ⟨herased, hrest, hdeltas, hquiet⟩ := hstate h.2
        refine ⟨herased, ?_, hdeltas, hquiet⟩
        rw [hrest, append_assoc, singleton_append]

structure SourceRemoved (b : BookRef) (w : World P) (source : Nat) (k : Block P) (l : LevelRef)
    (w' : World P) : Prop where
  found : findLevel w b k.side k.price = some l
  deltas : k.deltas = ((w.level l).entryList.filter (fromSource w source)).map (removalDelta w l)
  list : (w'.level l).entryList = (w.level l).entryList.filter fun e => !fromSource w source e
  entry : ∀ e ∈ (w.level l).entryList, w'.entry e = w.entry e
  nextEntry : w.nextEntry ≤ w'.nextEntry
  quiet : k.deltas = [] → w'.level l = w.level l
  limit : (w'.level l).orderType ≠ .market

theorem SourceRemoved.frame {source : Nat} {l' : LevelRef} (hw : Wired w) (h : SourceRemoved b w source k l w')
    (hne : l' ≠ l) (hw' : Wired w') (hframe : Frame l' w' w'') : SourceRemoved b w source k l w'' := by
  have hl := hframe.level l hne.symm
  refine { h with list := ?_, entry := ?_, nextEntry := ?_, quiet := ?_, limit := ?_ }
  · rw [hl, h.list]
  · intro e he
    refine Eq.trans ?_ (h.entry e he)
    cases e with
    | obj n =>
      refine hframe.entry n ((hw.listed he).1.trans_le h.nextEntry) fun hmem => hne ?_
      have hlevel := (hw'.listed hmem).2
      rw [h.entry _ he, (hw.listed he).2] at hlevel
      exact (Option.some.inj hlevel).symm
    | reserved _ =>
      obtain rfl := hw.placeholder he
      exact hframe.reserved _ hne.symm
  · exact h.nextEntry.trans hframe.nextEntry
  · rw [hl]
    exact h.quiet
  · rw [hl]
    exact h.limit

def ListsOnce (w : World P) (b : BookRef) : Prop :=
  ∀ s p l, findLevel w b s p = some l → (w.level l).entryList.Nodup

theorem deleteEntriesFromSource_visit (hw : Wired w) (hlimit : LimitLevels w b) (honce : ListsOnce w b) {source : Nat}
    (h : Visited b w (SourceRemoved b w source) s ks) (hl : findLevel w b side p = some l)
    (hnew : (side, p) ∉ ks.map Block.place) (hderiv : ∀ e ∈ (w.level l).entryList, (w.entry e).sourceDeriv ≠ none) :
    (deleteEntriesFromSource source l s).error = none ∧
      ∃ k : Block P, k.place = (side, p) ∧
        Visited b w (SourceRemoved b w source) (deleteEntriesFromSource source l s).state
          (ks ++ [k]) := by
  obtain ⟨hplace, hkept⟩ := h.other side p hnew
  have huntouched := hkept l hl
  have hsame : ∀ e ∈ (w.level l).entryList, (fromSource s.1 source e = fromSource w source e) ∧
      removalDelta s.1 l e = removalDelta w l e := by
    intro e he
    simp only [fromSource, removalDelta, huntouched.entry e he, and_self]
  obtain ⟨herror, hstate⟩ := deleteEntryFromSource_each source l [] (w.level l).entryList
    h.confined.wired (by rw [huntouched.level]; rfl) (honce side p l hl)
  have hderiv' : ∀ e ∈ (w.level l).entryList, (s.1.entry e).sourceDeriv ≠ none := fun e he => by
    rw [huntouched.entry e he]
    exact hderiv e he
  obtain ⟨herased, hlist, hdeltas, hquiet⟩ := hstate hderiv'
  have hfilter := filter_congr fun e he => (hsame e he).1
  have hdeltas' : ((w.level l).entryList.filter (fromSource w source)).map (removalDelta s.1 l) =
      ((w.level l).entryList.filter (fromSource w source)).map (removalDelta w l) :=
    map_congr_left fun e he => (hsame e (mem_of_mem_filter he)).2
  rw [hfilter] at hquiet
  rw [hfilter, hdeltas'] at hdeltas
  unfold PriceLevel.deleteEntriesFromSource
  rw [huntouched.level]
  set o := each (deleteEntryFromSource source l) (w.level l).entryList s
  set ds := ((w.level l).entryList.filter (fromSource w source)).map (removalDelta w l)
  refine ⟨herror.mpr hderiv', ⟨side, p, ds⟩, rfl, ?_⟩
  have hpair : o.state = (o.state.1, s.2 ++ ds) := Prod.ext rfl hdeltas
  rw [hpair]
  refine h.pass (k := ⟨side, p, ds⟩) (fun k l l' w₁ w₂ hk hne hw₁ hframe => hk.frame hw hne hw₁ hframe)
    hnew ?_ (.inl (hplace.trans hl)) ⟨hl, rfl, ?_, ?_, ?_, ?_, ?_⟩
  · exact Stores.of_stored herased.wired herased.frame herased.stored herased.check (hplace.trans hl)
  · rw [hlist]
    exact filter_congr fun e he => by rw [(hsame e he).1]
  · intro e he
    rw [herased.entry, huntouched.entry e he]
  · exact h.confined.within.nextEntry.trans herased.frame.nextEntry
  · intro hnil
    rw [hquiet (map_eq_nil_iff.mp hnil), huntouched.level]
  · rw [herased.orderType, huntouched.level]
    exact hlimit side p l hl

section Whole

variable {b : BookRef} {w : World P}

theorem visited_foldl (hw : Wired w) {F : Block P → LevelRef → World P → Prop}
    {visit : Side → PriceLevel.Recorded P → LevelRef → PriceLevel.Recorded P}
    (hvisit : ∀ {side p src s ks}, Visited b w F s ks → findLevel w source side p = some src →
      (side, p) ∉ ks.map Block.place →
      ∃ k : Block P, k.place = (side, p) ∧ Visited b w F (visit side s src) (ks ++ [k])) :
    ∃ ks, ks.map Block.place = (slots w source).map (slotPlace w) ∧
      Visited b w F ((OrderedMap.iterate (w.book source).askLevels).foldl (visit .ask)
        ((OrderedMap.iterate (w.book source).bidLevels).foldl (visit .bid) (w, []))) ks := by
  obtain ⟨-, ks, hks, hvisited⟩ := (Visited.start hw).loop (slotPlace w) (fun x s => .ok (visit x.1 s x.2))
    (nodup_slots hw source) (fun x hx s ks h hnew => ⟨rfl, hvisit h (mem_slots_place hw hx) hnew⟩) (by simp)
  rw [each_ok_foldl, slots, foldl_append, foldl_map, foldl_map] at hvisited
  exact ⟨ks, hks, hvisited⟩

theorem addEntriesFromBook_visited (hw : Wired w) (hsource : source ≠ b)
    (hlimit : LimitLevels w b) (filter : Option (Entry → Bool)) :
    ∃ ks, ks.map Block.place = (slots w source).map (slotPlace w) ∧
      Visited b w (fun k l w' => ∃ src refs, EntriesCopied b source w filter k l w' src refs)
        (addEntriesFromBook w b source filter) ks :=
  visited_foldl hw fun h => addEntriesFromBookLevel_visits hw hsource hlimit filter h

theorem addPriceLevelsFromBookAsEntries_visited (source : BookRef) (hw : Wired w)
    (hlimit : LimitLevels w b) (sourceId : Option String) :
    ∃ ks, ks.map Block.place = (slots w source).map (slotPlace w) ∧
      Visited b w (fun k l w' => ∃ delta n, LevelEntry b w k l w' delta n)
        (addPriceLevelsFromBookAsEntries w b source sourceId) ks :=
  visited_foldl hw fun h => addPriceLevelAsEntry_visits hlimit h sourceId

def Sourced (w : World P) (b : BookRef) : Prop :=
  ∀ s p l, findLevel w b s p = some l → ∀ e ∈ (w.level l).entryList, (w.entry e).sourceDeriv ≠ none

theorem deleteEntriesFromSource_eq (w : World P) (b : BookRef) (source : Nat) :
    Book.deleteEntriesFromSource w b source =
      each (fun x => deleteEntriesFromSource source x.2) (slots w b) (w, []) := by
  rw [slots, each_append, each_map, Book.deleteEntriesFromSource]
  congr 1
  exact funext fun s => by rw [each_map]

theorem deleteEntriesFromSource_visited (hw : Wired w) (hlimit : LimitLevels w b)
    (honce : ListsOnce w b) (hsourced : Sourced w b) (source : Nat) :
    (deleteEntriesFromSource w b source).error = none ∧
      ∃ ks, ks.map Block.place = (slots w b).map (slotPlace w) ∧
        Visited b w (SourceRemoved b w source) (deleteEntriesFromSource w b source).state ks := by
  rw [deleteEntriesFromSource_eq]
  obtain ⟨hok, ks, hks, hvisited⟩ := (Visited.start hw).loop (slotPlace w)
    (fun x s => deleteEntriesFromSource source x.2 s) (nodup_slots hw b)
    (fun x hx s ks h hnew => deleteEntriesFromSource_visit hw hlimit honce h (mem_slots_place hw hx) hnew
      (hsourced _ _ _ (mem_slots_place hw hx))) (by simp)
  exact ⟨hok, ks, hks, hvisited⟩

theorem deleteEntriesFromSource_error (hw : Wired w) (honce : ListsOnce w b) (source : Nat) :
    (deleteEntriesFromSource w b source).error = none ↔ Sourced w b := by
  have hnodup : ((slots w b).map Prod.snd).Nodup := by
    apply (List.Nodup.of_map _ (nodup_slots hw b)).map_on
    rintro ⟨s, l⟩ hx ⟨_, _⟩ hy rfl
    obtain ⟨p, hp⟩ := mem_slots.mp hx
    obtain ⟨_, hp'⟩ := mem_slots.mp hy
    rw [(hw.slot_inj hp hp').2.1]
  have hall : (∀ x ∈ slots w b, ∀ e ∈ (w.level x.2).entryList, (w.entry e).sourceDeriv ≠ none) ↔ Sourced w b := by
    refine ⟨fun h s p l hl => h (s, l) (mem_slots.mpr ⟨p, hl⟩), fun h x hx => ?_⟩
    obtain ⟨p, hp⟩ := mem_slots.mp hx
    exact h x.1 p x.2 hp
  rw [deleteEntriesFromSource_eq, ← hall]
  refine each_pointwise_error (fun (s : PriceLevel.Recorded P) l => (s.1.level l).entryList) _ _
    hnodup (I := fun s => Wired s.1 ∧ s.1.entry = w.entry) ⟨hw, rfl⟩ fun x hx s hs hview => ?_
  obtain ⟨p, hp⟩ := mem_slots.mp hx
  obtain ⟨herror, hstate⟩ := deleteEntryFromSource_each source x.2 [] (w.level x.2).entryList hs.1
    hview (honce _ _ _ hp)
  simp only [hs.2] at herror hstate
  rw [PriceLevel.deleteEntriesFromSource, hview]
  refine ⟨herror, fun hgood => ?_⟩
  obtain ⟨herased, -⟩ := hstate hgood
  refine ⟨⟨herased.wired, herased.entry.trans hs.2⟩, fun l hl => ?_⟩
  rw [herased.frame.level l hl]

end Whole

end OpenMama.OrderBook
