import OpenMama.DepthFilter.Tracking

/-!
# The recap

`onBookRecap` empties the truncated book and fills it again from the full one, in the order of the iterator until the
side or the room is used up. If a side has no level, the iterator is stepped back out of its map.
-/

namespace OpenMama.DepthFilter

open OrderBook OrderedMap List Outcome Book Cursor

variable {P : Type} [LinearOrder P] {s : State P} {side : Side} {book : BookRef}

/-- The loop of a recap, with the levels that it has added and the rest. -/
structure Filling (s : State P) (side : Side) (iter : Cursor LevelRef) (added rest : List (P × LevelRef)) : Prop where
  settled : iter.Settled (isShown s.world)
  ahead : iter.ahead.filter (isShown s.world) = rest.map Prod.snd
  passed : iter.passed.filter (isShown s.world) = (added.map Prod.snd).reverse
  view : ∀ p l, (s.view side)[p]? = some l ↔ (p, l) ∈ added
  depth : (s.window side).depth = added.length
  sorted : (added ++ rest).Pairwise fun a b => Ahead side.descending a.1 b.1
  filed : ∀ a ∈ rest, Filed s.world side a.1 a.2

theorem Filling.pass {iter : Cursor LevelRef} {added rest : List (P × LevelRef)} {x : P × LevelRef}
    (h : Filling s side iter added (x :: rest)) (hside : side ≠ .unknown) :
    ∃ s', s.onTruncatedBook addLevel x.2 = .ok s' ∧
      Moved s (s'.setDepth side ((s'.window side).depth + 1)) side
        ((s.view side).insert x.1 x.2) { s.window side with depth := added.length + 1 } ∧
      Filling (s'.setDepth side ((s'.window side).depth + 1)) side
        (iter.next (isShown s'.world)) (added ++ [x]) rest := by
  have hx := h.filed x (by simp)
  have hnew : x.1 ∉ s.view side := by
    intro hin
    obtain ⟨l, hl⟩ := mem_iff_getElem?.mp hin
    exact ((pairwise_append.mp h.sorted).2.2 _ ((h.view _ _).mp hl) x (by simp)).ne rfl
  have hinsert := moved_setView s hside ((s.view side).insert x.1 x.2)
  have hdepth : ((s.setView side ((s.view side).insert x.1 x.2)).window side).depth + 1 = added.length + 1 := by
    rw [hinsert.window, h.depth]
  have hmoved := hinsert.setDepth hside (added.length + 1)
  refine ⟨_, addLevel_eq hside hx.side hx.price hnew, hdepth ▸ hmoved, ?_⟩
  rw [hdepth, hinsert.kept.isShown]
  have hahead : iter.get? = some x.2 := by
    rw [h.settled.get?_eq, h.ahead]
    rfl
  obtain ⟨ahead, hcons⟩ : ∃ ahead, iter.ahead = x.2 :: ahead := head?_eq_some_iff.mp hahead
  obtain ⟨hsettled, hfilter, hpassed⟩ := h.settled.next hcons
  have hshown := hmoved.kept.isShown
  constructor
  · rwa [hshown]
  · rw [hshown]
    rw [h.ahead, map_cons, List.cons.injEq] at hfilter
    exact hfilter.2.symm
  · rw [hshown, hpassed, h.passed]
    simp
  · intro p l
    rw [hmoved.view, OrderedMap.getElem?_insert, mem_append, ← h.view]
    split_ifs with hp
    · subst hp
      rw [Std.TreeMap.getElem?_eq_none hnew]
      simp [Prod.ext_iff, eq_comm]
    · simp [Prod.ext_iff, hp]
  · rw [hmoved.window]
    simp
  · simpa using h.sorted
  · exact fun a ha => (h.filed a (by simp [ha])).kept hmoved.kept

theorem fillSide_moved (hside : side ≠ .unknown) (room : Nat) {iter : Cursor LevelRef}
    {added rest : List (P × LevelRef)} (h : Filling s side iter added rest) :
    ∃ s' iter' levels, fillSide side room iter s = (.ok s', iter') ∧
      Moved s s' side levels { s.window side with depth := (added ++ rest.take room).length } ∧
      Filling s' side iter' (added ++ rest.take room) (rest.drop room) := by
  induction room generalizing s iter added rest with
  | zero =>
    refine ⟨s, iter, s.view side, rfl, ?_, by simpa using h⟩
    rw [take_zero, append_nil, ← h.depth]
    exact still_refl s side
  | succ _ ih =>
    cases rest with
    | nil =>
      have hget : iter.get? = none := by
        rw [h.settled.get?_eq, h.ahead]
        rfl
      refine ⟨s, iter, s.view side, by simp [fillSide, hget], ?_, by simpa using h⟩
      rw [take_nil, append_nil, ← h.depth]
      exact still_refl s side
    | cons x _ =>
      have hget : iter.get? = some x.2 := by
        rw [h.settled.get?_eq, h.ahead]
        rfl
      obtain ⟨_, hadd, hmoved, hfilling⟩ := h.pass hside
      obtain ⟨s'', iter', levels, hloop, hmoved', hfilling'⟩ := ih hfilling
      refine ⟨s'', iter', levels, ?_, ?_, by simpa using hfilling'⟩
      · simp only [fillSide, hget, hadd, ok_error, ok_state]
        exact hloop
      · have htrans := hmoved.trans hmoved'
        rw [hmoved.window] at htrans
        simpa using htrans

theorem filling_start (hside : side ≠ .unknown) (hempty : s.view side = ∅)
    (hfiled : ∀ p l, findLevel s.world book side p = some l → Filed s.world side p l) :
    Filling (s.setDepth side 0) side (sideBegin s.world book side) []
      (bestFirst s.world book side) := by
  have hmoved := (still_refl s side).setDepth hside 0
  have hshown := hmoved.kept.isShown
  have hall : ((bestFirst s.world book side).map Prod.snd).filter (isShown s.world)
      = (bestFirst s.world book side).map Prod.snd := by
    refine filter_eq_self.mpr fun l hl => ?_
    obtain ⟨⟨p, _⟩, hmem, rfl⟩ := mem_map.mp hl
    exact (hfiled p _ (mem_bestFirst.mp hmem)).shown
  constructor
  · rw [hshown]
    exact skip_settled _ _
  · rw [hshown, sideBegin, first, skip_ahead, hall]
  · rw [hshown, sideBegin, first, skip_passed]
    rfl
  · rw [hmoved.view, hempty]
    simp
  · rw [hmoved.window]
    rfl
  · exact pairwise_ranked _
  · rintro ⟨p, l⟩ ha
    exact (hfiled p l (mem_bestFirst.mp ha)).kept hmoved.kept

theorem recapSide_moved (hside : side ≠ .unknown) (hmax : 0 < s.maxDepth) (hempty : s.view side = ∅)
    (hfiled : ∀ p l, findLevel s.world book side p = some l → Filed s.world side p l)
    (hlevels : bestFirst s.world book side ≠ []) :
    ∃ s' levels win, recapSide book side s = .ok s' ∧ Moved s s' side levels win ∧
      Tracks side.descending s.maxDepth ((s.world.book book).levels side) levels win.depth
        win.lastPrice := by
  obtain ⟨s', iter, levels, hloop, hmoved, hfilling⟩ :=
    fillSide_moved hside s.maxDepth (filling_start hside hempty hfiled)
  have hreset := ((still_refl s side).setDepth hside 0).trans hmoved
  rw [nil_append] at hreset hfilling
  obtain ⟨shown, x, hadded⟩ : ∃ shown x, (bestFirst s.world book side).take s.maxDepth = shown ++ [x] := by
    rcases eq_nil_or_concat ((bestFirst s.world book side).take s.maxDepth) with hnil | h
    · rcases take_eq_nil_iff.mp hnil with _ | hnil
      · omega
      · exact absurd hnil hlevels
    · simpa only [concat_eq_append] using h
  have hx : Filed s'.world side x.1 x.2 := by
    refine (hfiled x.1 x.2 (mem_bestFirst.mp ?_)).kept hreset.kept
    exact mem_of_mem_take (i := s.maxDepth) (by rw [hadded]; simp)
  have hlast : (iter.prev? (isShown s'.world)).bind get? = some x.2 := by
    rw [prev?_get?, hfilling.passed, hadded]
    simp
  have hfinal := hreset.setLastPrice hside x.1
  refine ⟨_, _, _, ?_, hfinal, ?_⟩
  · simp only [recapSide, hloop, ok_andThen, hlast, hx.price]
  · have hranked : ranked side.descending ((s.world.book book).levels side)
        = shown ++ [x] ++ (bestFirst s.world book side).drop s.maxDepth := by
      rw [← hadded]
      exact (take_append_drop _ _).symm
    have hcount := congrArg List.length hadded
    rw [length_take, bestFirst, length_ranked, length_append] at hcount
    have hview : ∀ p l, levels[p]? = some l ↔ (p, l) ∈ shown ++ [x] := fun p l => by
      rw [← hreset.view, hfilling.view, hadded]
    simpa [hadded] using Tracks.of_append hranked hview hcount.symm

variable (s)

theorem recapSide_empty (book : BookRef) (side : Side) (hside : side ≠ .unknown)
    (hempty : s.view side = ∅) (hlevels : bestFirst s.world book side = []) :
    (recapSide book side s).error = some .invalidIterator := by
  have hfiled : ∀ p l, findLevel s.world book side p = some l → Filed s.world side p l := by
    intro p l hl
    have hmem := mem_bestFirst.mpr hl
    simp [hlevels] at hmem
  obtain ⟨s', iter, _, hloop, -, hfilling⟩ := fillSide_moved hside s.maxDepth (filling_start hside hempty hfiled)
  have hlast : (iter.prev? (isShown s'.world)).bind get? = none := by
    rw [prev?_get?, hfilling.passed, hlevels]
    simp
  simp only [recapSide, hloop, ok_andThen, hlast, throw_error]

theorem cleared_kept : Kept s s.cleared :=
  ⟨rfl, rfl, fun _ => ⟨rfl, rfl, rfl⟩, fun b hb => by simp [State.cleared, clear, hb]⟩

theorem cleared_view (side : Side) : s.cleared.view side = ∅ := by
  cases side <;> simp [State.cleared, State.view, clear, levels]

theorem cleared_window (side : Side) : s.cleared.window side = s.window side := by
  cases side <;> rfl

variable {s}

theorem Kept.bestFirst {s' : State P} (h : Kept s s') (hbook : book ≠ s.truncatedBook) (side : Side) :
    bestFirst s'.world book side = bestFirst s.world book side := by
  unfold Book.bestFirst
  rw [h.book book hbook]

theorem AllFiled.kept {s' : State P} {full : Levels P} (h : AllFiled s.world full)
    (hkept : Kept s s') : AllFiled s'.world full :=
  fun side p l hl => (h side p l hl).kept hkept

theorem recapSide_of_kept {s' : State P} (hkept : Kept s s') (side : Side) (hside : side ≠ .unknown)
    (hmax : 0 < s.maxDepth) (hbook : book ≠ s.truncatedBook) (hempty : s'.view side = ∅)
    (hfiled : AllFiled s.world (s.world.book book).levels)
    (hlevels : bestFirst s.world book side ≠ []) :
    ∃ s'' levels win, recapSide book side s' = .ok s'' ∧ Moved s' s'' side levels win ∧
      Tracks side.descending s.maxDepth ((s.world.book book).levels side) levels win.depth
        win.lastPrice := by
  rw [← hkept.bestFirst hbook] at hlevels
  rw [← hkept.maxDepth] at hmax ⊢
  rw [← hkept.book book hbook] at hfiled ⊢
  exact recapSide_moved hside hmax hempty (fun p l hl => hfiled.kept hkept side p l hl) hlevels

theorem onBookRecap_follows (hmax : 0 < s.maxDepth) (hbook : book ≠ s.truncatedBook)
    (hfiled : AllFiled s.world (s.world.book book).levels)
    (hbid : bestFirst s.world book .bid ≠ []) (hask : bestFirst s.world book .ask ≠ []) :
    Follows s (s.world.book book).levels (onBookRecap book s) := by
  have hclear := cleared_kept s
  obtain ⟨s₁, _, _, hbids, hmoved₁, htracks₁⟩ :=
    recapSide_of_kept hclear .bid (by simp) hmax hbook (cleared_view s .bid) hfiled hbid
  have hkept₁ := hclear.trans hmoved₁.kept
  have hnone : s₁.view .ask = ∅ := by rw [(hmoved₁.other .ask (by simp) (by simp)).1, cleared_view]
  obtain ⟨s₂, asks, askWin, hasks, hmoved₂, htracks₂⟩ :=
    recapSide_of_kept hkept₁ .ask (by simp) hmax hbook hnone hfiled hask
  have hkept₂ := hkept₁.trans hmoved₂.kept
  refine ⟨s₂.invokeRecapHandlers, ?_, { hkept₂ with }, ?_⟩
  · rw [onBookRecap, hbids, ok_andThen, hasks, ok_andThen]
  · intro side _
    change Tracks _ s₂.maxDepth _ (s₂.view side) (s₂.window side).depth (s₂.window side).lastPrice
    rw [hkept₂.maxDepth]
    cases side with
    | bid =>
      obtain ⟨hview, hwindow⟩ := hmoved₂.other .bid (by simp) (by simp)
      rwa [hview, hwindow, hmoved₁.view, hmoved₁.window]
    | ask => rwa [hmoved₂.view, hmoved₂.window]
    | unknown => contradiction

theorem onBookRecap_empty (hmax : 0 < s.maxDepth) (hbook : book ≠ s.truncatedBook)
    (hfiled : AllFiled s.world (s.world.book book).levels)
    (hempty : bestFirst s.world book .bid = [] ∨ bestFirst s.world book .ask = []) :
    (onBookRecap book s).error = some .invalidIterator := by
  have hclear := cleared_kept s
  unfold onBookRecap
  by_cases hbid : bestFirst s.world book .bid = []
  · have herror := recapSide_empty s.cleared book .bid (by simp) (cleared_view s .bid) (by rwa [hclear.bestFirst hbook])
    simp only [andThen, herror]
  · obtain ⟨s₁, _, _, hbids, hmoved₁, -⟩ :=
      recapSide_of_kept hclear .bid (by simp) hmax hbook (cleared_view s .bid) hfiled hbid
    have hnone : s₁.view .ask = ∅ := by rw [(hmoved₁.other .ask (by simp) (by simp)).1, cleared_view]
    have herror := recapSide_empty s₁ book .ask (by simp) hnone
      (by rw [(hclear.trans hmoved₁.kept).bestFirst hbook]; exact hempty.resolve_left hbid)
    rw [hbids, ok_andThen]
    simp only [andThen, herror]

end OpenMama.DepthFilter
