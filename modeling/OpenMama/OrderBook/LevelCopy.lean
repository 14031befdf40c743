import OpenMama.OrderBook.View

/-!
# Copying a level

`copy` adds a copy of each entry of a level to the other level: at the end, or, if the entry was received with a
position, at the position the level computes for its id now, by counting the entries in view. So the copy lists the
same entries in the same order if `InPlace` and `InView` hold.
-/

namespace OpenMama.OrderBook

open Book List PriceLevel World

variable {P : Type} [LinearOrder P]

def InPlace (w : World P) (l : LevelRef) : Prop :=
  (entryViews w l).Pairwise fun x y => y.positioned = true → x.id ≠ y.id

def InView (w : World P) (l : LevelRef) : Prop :=
  ∀ v ∈ entryViews w l, v.positioned = true →
    ∀ e ∈ (w.level l).entryList, w.counted (w.checkState l) e = true

variable {w : World P} {l : LevelRef} {before after : List EntryRef} {src dst : LevelRef}

theorem InView.untouched {w' : World P} (h : InView w l) (hl : Untouched w w' l)
    (hcheck : w'.checkState l = w.checkState l) : InView w' l := by
  intro v hv hpos e he
  rw [hl.entryViews] at hv
  rw [hl.level] at he
  have hin := h v hv hpos e he
  rwa [counted, hcheck, hl.entry e he]

private theorem positionFrom_append {check : Bool} {id : String} {pos : Nat} {e : EntryRef}
    (hview : ∀ x ∈ before ++ e :: after, w.counted check x) (hbefore : ∀ x ∈ before, (w.entry x).id ≠ some id)
    (he : (w.entry e).id = some id) :
    positionFrom w check id pos (before ++ e :: after) = pos + before.length + 1 := by
  have hin : ∀ {x}, w.counted check x → (check && !(w.entry x).isVisible) = false := by
    intro x hx
    revert hx
    cases check <;> simp [counted]
  induction before generalizing pos with
  | nil => simp [positionFrom, hin (hview e (by simp)), he]
  | cons x _ ih =>
    have hx := hview x (by simp)
    simp only [cons_append, positionFrom, hin hx, Bool.false_eq_true, if_false, hbefore x (by simp)]
    rw [ih (fun y hy => hview y (by simp only [cons_append, mem_cons, hy, or_true]))
      fun y hy => hbefore y (by simp [hy])]
    simp only [length_cons]
    omega

theorem getEntryPosition_eq (h : Wired w) (hplace : InPlace w l) (hview : InView w l) {n : Nat}
    (hes : (w.level l).entryList = before ++ .obj n :: after)
    (hreceived : (w.entry (.obj n)).entryPositionReceived) :
    Entry.getEntryPositionInPriceLevel w (.obj n) =
      if (w.entry (.obj n)).view.positioned then before.length + 1 else 0 := by
  have hback : (w.entry (.obj n)).priceLevel = some l := (h.listed (by simp [hes])).2
  rw [Entry.getEntryPositionInPriceLevel, hback]
  cases hid : (w.entry (.obj n)).id with
  | none => simp [getEntryPositionInPriceLevel, Entry.view, hid]
  | some _ =>
    have hpos : (w.entry (.obj n)).view.positioned := by simp [Entry.view, hreceived, hid]
    rw [if_pos hpos]
    simp only [getEntryPositionInPriceLevel, hes]
    have hmem : (w.entry (.obj n)).view ∈ entryViews w l := mem_map_of_mem (f := entryView w) (by simp [hes])
    rw [positionFrom_append (fun x hx => hview _ hmem hpos x (hes ▸ hx)) ?_ hid, Nat.zero_add]
    intro x hx heq
    rw [InPlace, entryViews, hes, map_append, pairwise_append] at hplace
    exact hplace.2.2 _ (mem_map_of_mem hx) _ (mem_map_of_mem mem_cons_self) hpos (heq.trans hid.symm)

theorem entryViews_append {e : EntryRef} {f : Entry → Entry} {g : PriceLevel P → PriceLevel P}
    (hlist : (g (w.level l)).entryList = (w.level l).entryList ++ [e])
    (hview' : e ∈ (w.level l).entryList → (f (w.entry e)).view = (w.entry e).view) :
    entryViews ((w.modifyEntry e f).modifyLevel l g) l = entryViews w l ++ [(f (w.entry e)).view] := by
  have hold : (w.level l).entryList.map (entryView ((w.modifyEntry e f).modifyLevel l g)) = entryViews w l := by
    refine map_congr_left fun x hx => ?_
    by_cases hxe : x = e
    · subst hxe
      simpa [entryView] using hview' hx
    · simp [entryView, hxe]
  rw [entryViews, modifyLevel_level, if_pos rfl, modifyEntry_level, hlist, map_append, hold]
  simp [entryView]

/-- What one pass of the copying loop does: the other level gets one more entry, with the view of the
entry copied. -/
structure CopyStep (dst : LevelRef) (w w' : World P) (views : List EntryView) : Prop where
  wired : Wired w'
  frame : Frame dst w w'
  book : w'.book = w.book
  nextLevel : w'.nextLevel = w.nextLevel
  views : entryViews w' dst = entryViews w dst ++ views

theorem copyEntry_placeholder (h : Wired w) (src dst : LevelRef) :
    CopyStep dst w (copyEntry src dst w (.reserved src)) [(w.entry (.reserved src)).view] := by
  have hblank : ∀ k, (w.entry (.reserved k)).view = Entry.view {} := fun k => by
    simp [Entry.view, (h.blank k).id, (h.blank k).size, (h.blank k).sourceDeriv]
  rw [copyEntry, if_pos rfl]
  refine ⟨h.addEntry (.inl rfl), (Frame.refl dst w).addEntry rfl, rfl, rfl, ?_⟩
  have hflag : ∀ entry : Entry, entry.id = none →
      ({ entry with entryPositionReceived := false, priceLevel := some dst } : Entry).view =
        entry.view := fun entry hid => by
    simp [Entry.view, hid]
  unfold PriceLevel.addEntry
  rw [entryViews_append rfl fun _ => hflag _ (h.blank dst).id, hflag _ (h.blank dst).id, hblank, hblank]

theorem copyEntry_object (h : Wired w) (hplace : InPlace w src) (hview : InView w src) {n : Nat}
    (hes : (w.level src).entryList = before ++ .obj n :: after)
    (hlen : (w.level dst).entryList.length = before.length) :
    CopyStep dst w (copyEntry src dst w (.obj n)) [(w.entry (.obj n)).view] := by
  set entry := w.entry (.obj n) with hentry
  set w' := w.newEntry entry.copy with hw'
  have hwired : Wired w' := h.newEntry entry.copy
  have hframe : Frame dst w w' := (Frame.refl dst w).newEntry entry.copy
  have hviews : entryViews w' dst = entryViews w dst := (h.untouched_newEntry entry.copy dst).entryViews
  have hown : Frame.Own dst w w.freshEntry := .inr le_rfl
  have hlistable : Wired.Listable w' dst w.freshEntry :=
    .inr ⟨w.nextEntry, rfl, Nat.lt_succ_self _, h.freshEntry_not_mem⟩
  have hfresh : w'.entry w.freshEntry = entry.copy := by simp [hw']
  have hnot : w.freshEntry ∉ (w'.level dst).entryList := h.freshEntry_not_mem dst
  rw [copyEntry, if_neg (by simp), ← hentry]
  split
  next hreceived =>
    rw [getEntryPosition_eq h hplace hview hes hreceived, ← hentry]
    refine ⟨hwired.addEntryAt hlistable _, hframe.addEntryAt hown _, rfl, rfl, ?_⟩
    unfold PriceLevel.addEntryAt
    rw [entryViews_append ?_ fun hmem => absurd hmem hnot, hfresh]
    · congr 2
      cases hid : entry.id <;> simp [Entry.view, Entry.copy, hid, hreceived]
    · change (insertAt dst (w.level dst).entryList w.freshEntry _).1 = _
      split
      · rw [← hlen, insertAt_length_succ]
        rfl
      · rfl
  next hreceived =>
    refine ⟨hwired.addEntry hlistable, hframe.addEntry hown, rfl, rfl, ?_⟩
    unfold PriceLevel.addEntry
    rw [entryViews_append rfl fun hmem => absurd hmem hnot, hviews, hfresh]
    simp [Entry.view, Entry.copy, hreceived]

/-! ### The whole loop -/

theorem copyEntry_foldl (hne : src ≠ dst) (before rest : List EntryRef) (h : Wired w) (hplace : InPlace w src)
    (hview : InView w src) (hes : (w.level src).entryList = before ++ rest)
    (hlen : (w.level dst).entryList.length = before.length) :
    CopyStep dst w (rest.foldl (copyEntry src dst) w)
      (rest.map (entryView w)) := by
  induction rest generalizing before w with
  | nil => exact ⟨h, Frame.refl dst w, rfl, rfl, (append_nil _).symm⟩
  | cons e rest ih =>
    have hstep : CopyStep dst w (copyEntry src dst w e) [(w.entry e).view] := by
      cases e with
      | obj n => exact copyEntry_object h hplace hview hes hlen
      | reserved k =>
        obtain rfl : k = src := h.placeholder (by simp [hes])
        exact copyEntry_placeholder h k dst
    -- The level copied is not touched by the pass, so the rest of the loop meets it as it was.
    have hsrc := hstep.frame.untouched h hne
    have hcheck : (copyEntry src dst w e).checkState src = w.checkState src := by
      rw [checkState, hsrc.level, hstep.book, checkState]
    have hlen' : ((copyEntry src dst w e).level dst).entryList.length = (before ++ [e]).length := by
      have := congrArg List.length hstep.views
      simpa [entryViews, hlen] using this
    have hrest := ih (before ++ [e]) hstep.wired (by rwa [InPlace, hsrc.entryViews])
      (hview.untouched hsrc hcheck) (by rw [hsrc.level, hes]; simp) hlen'
    refine ⟨hrest.wired, hstep.frame.trans hrest.frame, hrest.book.trans hstep.book,
      hrest.nextLevel.trans hstep.nextLevel, ?_⟩
    rw [foldl_cons, hrest.views, hstep.views, append_assoc, singleton_append]
    congr 2
    refine map_congr_left fun x hx => ?_
    rw [entryView, hsrc.entry x (by simp [hes, hx]), entryView]

/-- What `copy` does: the level becomes one with the values and the entries of the other, and belongs
to no book. -/
structure Copied (dst src : LevelRef) (w w' : World P) : Prop where
  wired : Wired w'
  frame : Frame dst w w'
  book : w'.book = w.book
  nextLevel : w'.nextLevel = w.nextLevel
  level : ∃ es, w'.level dst = { w.level src with entries := es, book := none }
  views : entryViews w' dst = entryViews w src

private theorem copyEntries_spec (h : Wired w) (hne : src ≠ dst) (hplace : InPlace w src) (hview : InView w src)
    (hempty : (w.level dst).entryList = []) :
    CopyStep dst w (copyEntries w dst src) (entryViews w src) := by
  unfold copyEntries
  split
  next es hes =>
    have hlist : (w.level src).entryList = es := by simp [entryList, hes]
    set w' := w.modifyLevel dst fun lev =>
      { lev with entries := some lev.entryList, numEntries := 0, numEntriesTotal := 0 } with hw'
    have hframe : Frame dst w w' := (Frame.refl dst w).modifyLevel fun e he => he
    have hsrc : Untouched w w' src := hframe.untouched h hne
    have hcheck : w'.checkState src = w.checkState src := by
      rw [checkState, hsrc.level]
      rfl
    have hdst : (w'.level dst).entryList = [] := by
      rw [modifyLevel_level, if_pos rfl]
      exact hempty
    have hloop := copyEntry_foldl hne [] es
      (h.modifyLevel (g := fun lev =>
        { lev with entries := some lev.entryList, numEntries := 0, numEntriesTotal := 0 })
        ⟨rfl, rfl, rfl⟩) (by rwa [InPlace, hsrc.entryViews]) (hview.untouched hsrc hcheck)
      (by rw [hsrc.level, hlist]; rfl) (by rw [hdst])
    refine ⟨hloop.wired, hframe.trans hloop.frame, hloop.book, hloop.nextLevel, ?_⟩
    rw [hloop.views, ← hsrc.entryViews, entryViews, entryViews, hdst, hempty, entryViews, hsrc.level, hlist]
    rfl
  next hes =>
    have hlist : (w.level src).entryList = [] := by simp [entryList, hes]
    refine ⟨h, Frame.refl dst w, rfl, rfl, ?_⟩
    simp [entryViews, hlist]

theorem PriceLevel.copied (h : Wired w) (hne : src ≠ dst) (hplace : InPlace w src) (hview : InView w src)
    (hslot : ∀ {b s p}, findLevel w b s p = some dst → (w.level src).price = p ∧ (w.level src).side = s) :
    Copied dst src w (copy w dst src) := by
  set cleared := clearEntries w dst with hcleared
  have hempty : (cleared.level dst).entryList = [] := by
    cases hes : (w.level dst).entries <;>
      simp [hcleared, clearEntries, entryList, hes]
  have hframe : Frame dst w cleared := by
    refine (Frame.refl dst w).modifyLevel fun e he => ?_
    have hself : cleared.level dst = { w.level dst with entries := (w.level dst).entries.map fun _ => [] } := by
      simp [hcleared, clearEntries]
    rw [← hself, hempty] at he
    simp at he
  have hsrc := hframe.untouched h hne
  have hcheck : cleared.checkState src = w.checkState src := by
    rw [checkState, hsrc.level]
    rfl
  have hwired : Wired cleared := by
    apply h.rewriteLevel (h.slot)
    cases hes : (w.level dst).entries <;> simp [entryList, hes]
  have hloop := copyEntries_spec hwired hne (by rwa [InPlace, hsrc.entryViews]) (hview.untouched hsrc hcheck) hempty
  set copied := copyEntries cleared dst src with hcopied
  have hsrc' : copied.level src = w.level src := ((hframe.trans hloop.frame).untouched h hne).level
  have hcopy : copy w dst src = copied.modifyLevel dst (copyFields · (copied.level src)) := rfl
  rw [hcopy]
  refine ⟨hloop.wired.rewriteLevel (fun {b s p} hl => ?_) (List.Sublist.refl _),
    (hframe.trans hloop.frame).modifyLevel fun e he => he, hloop.book, hloop.nextLevel,
    ⟨(copied.level dst).entries, ?_⟩, ?_⟩
  · rw [findLevel, hloop.book] at hl
    simpa only [copyFields, hsrc'] using hslot (b := b) (s := s) (p := p) hl
  · simp only [modifyLevel_level, if_true, copyFields, hsrc']
  · have hsame : entryViews (copied.modifyLevel dst (copyFields · (copied.level src))) dst = entryViews copied dst :=
      entryViews_congr rfl (by simp [copyFields, entryList])
    rw [hsame, hloop.views, hsrc.entryViews, entryViews, hempty, map_nil, nil_append]

theorem PriceLevel.newCopied (h : Wired w) (hlt : src < w.nextLevel) (hplace : InPlace w src) (hview : InView w src) :
    let w' := newCopy w src
    Wired w' ∧ Frame w.nextLevel w w' ∧ w'.book = w.book ∧ w'.nextLevel = w.nextLevel + 1 ∧
      (∃ es, w'.level w.nextLevel = { w.level src with entries := es, book := none }) ∧
      entryViews w' w.nextLevel = entryViews w src := by
  have hne : src ≠ w.nextLevel := Nat.ne_of_lt hlt
  have hframe : Frame w.nextLevel w (w.newLevel { price := (w.level src).price }) := Frame.newLevel w rfl
  have hsrc := hframe.untouched h hne
  have hcheck : (w.newLevel { price := (w.level src).price }).checkState src = w.checkState src := by
    rw [checkState, hsrc.level]
    rfl
  have hcopied : Copied w.nextLevel src _ (newCopy w src) :=
    copied (h.newLevel rfl) hne (by rwa [InPlace, hsrc.entryViews])
      (hview.untouched hsrc hcheck) (fun hl => absurd (h.lt_nextLevel hl) (Nat.lt_irrefl _))
  obtain ⟨es, hes⟩ := hcopied.level
  refine ⟨hcopied.wired, hframe.trans hcopied.frame, hcopied.book, hcopied.nextLevel, ⟨es, ?_⟩, ?_⟩
  · rw [hes, hsrc.level]
  · rw [hcopied.views, hsrc.entryViews]

end OpenMama.OrderBook
