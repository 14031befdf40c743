import OpenMama.DepthFilter.Recap
import OpenMama.Lib.Run

/-!
# Runs of simple deltas

Between two calls of the filter the full book takes one level delta; then the filter is given that delta. After a
recap of a book with levels on both sides the truncated book is exact from then on. A clear leaves the depths as they
were, so the filter is in step with an empty book only if they were zero.
-/

namespace OpenMama.DepthFilter

open OrderBook OrderedMap Outcome Book

variable {P : Type} [LinearOrder P] {s : State P} {book : BookRef}

/-- The truncated book has the best levels of the full book, as many as fit, and the depths are their
numbers. -/
def ExactView (s : State P) (book : BookRef) : Prop :=
  ∀ side, side ≠ .unknown →
    bestFirst s.world s.truncatedBook side = (bestFirst s.world book side).take s.maxDepth ∧
    (s.window side).depth = min s.maxDepth (bestFirst s.world book side).length

theorem Tracking.exactView (h : Tracking s (s.world.book book).levels) : ExactView s book := by
  intro side hside
  have htracks := h side hside
  refine ⟨htracks.ranked_eq, ?_⟩
  rw [htracks.depth_eq, htracks.size, bestFirst, length_ranked]

/-- The full book has taken one level delta since the filter last ran, and the filter's own book was
left alone. -/
structure TakesDelta (s : State P) (book : BookRef) (w : World P) (delta : BasicDelta) : Prop where
  valid : ValidDelta w (s.world.book book).levels delta
  holds : ∀ side p, findLevel w book side p
    = (takeDelta w (s.world.book book).levels delta side)[p]?
  view : ∀ side, (w.book s.truncatedBook).levels side = s.view side
  filed : AllFiled w (w.book book).levels

def deliver (book : BookRef) (x : World P × BasicDelta) (s : State P) : Result P :=
  onBookDelta x.2 book { s with world := x.1 }

def SimpleRun (book : BookRef) (s : State P) (run : List (World P × BasicDelta)) : Prop :=
  Along (fun s x => (deliver book x s).state) (fun s x => TakesDelta s book x.1 x.2) s run

theorem Tracking.congr {full full' : Levels P} (h : Tracking s full)
    (hfull : ∀ side (p : P), (full' side)[p]? = (full side)[p]?) : Tracking s full' :=
  fun side hside => (h side hside).congr (hfull side)

theorem Tracking.still {full : Levels P} {s' : State P} (h : Tracking s full)
    (hstill : ∀ side, Still s s' side) : Tracking s' full := by
  intro side hside
  rw [(hstill side).kept.maxDepth, (hstill side).view, (hstill side).window]
  exact h side hside

theorem looksUp_of_holds {w : World P} {full : Levels P} {side : Side} (hside : side ≠ .unknown)
    (hholds : ∀ p, findLevel w book side p = (full side)[p]?)
    (hfiled : AllFiled w (w.book book).levels) (position : Nat) :
    LooksUp w book full side position := by
  unfold LooksUp
  rw [getLevelAtPosition_eq hside fun p l hl => (hfiled side p l hl).size, bestFirst, ranked_congr hholds]

theorem deliver_follows (h : Tracking s (s.world.book book).levels) (hmax : 0 < s.maxDepth)
    (hbook : book ≠ s.truncatedBook) {x : World P × BasicDelta}
    (htakes : TakesDelta s book x.1 x.2) :
    ∃ s', deliver book x s = .ok s' ∧ Tracking s' (s'.world.book book).levels ∧
      s'.maxDepth = s.maxDepth ∧ s'.truncatedBook = s.truncatedBook := by
  set t : State P := { s with world := x.1 } with ht
  have htracking : Tracking t (s.world.book book).levels := by
    intro side hside
    have hview : t.view side = s.view side := htakes.view side
    rw [hview]
    exact h side hside
  have hfiled : AllFiled t.world (takeDelta t.world (s.world.book book).levels x.2) := by
    intro side p l hl
    rw [← htakes.holds] at hl
    exact htakes.filed side p l hl
  obtain ⟨s', hrun, hkept, htracks⟩ := processSideDelta_follows htracking hmax hbook htakes.valid
    hfiled fun l hl _ hview =>
      looksUp_of_holds (by rintro hu; simp [State.view, hu, levels] at hview) (htakes.holds _)
        htakes.filed _
  have hstill := still_invokeDeltaHandlers s'
  have hkept' := hkept.trans (hstill .bid).kept
  refine ⟨s'.invokeDeltaHandlers, ?_, ?_, hkept'.maxDepth, hkept'.truncatedBook⟩
  · rw [deliver, onBookDelta, hrun, ok_andThen]
  · rw [hkept'.book book hbook]
    exact (htracks.still hstill).congr htakes.holds

theorem simpleRun_follows (h : Tracking s (s.world.book book).levels) (hmax : 0 < s.maxDepth)
    (hbook : book ≠ s.truncatedBook) {run : List (World P × BasicDelta)} (hrun : SimpleRun book s run) :
    (each (deliver book) run s).error = none ∧
      ExactView (each (deliver book) run s).state book := by
  induction run generalizing s with
  | nil => exact ⟨rfl, h.exactView⟩
  | cons x run ih =>
    obtain ⟨s', hstep, htracks, hdepth, htruncated⟩ := deliver_follows h hmax hbook hrun.1
    have hrest : SimpleRun book s' run := by
      have htail := hrun.2
      simp only [hstep, ok_state] at htail
      exact htail
    rw [each, hstep]
    exact ih htracks (hdepth ▸ hmax) (htruncated ▸ hbook) hrest

/-- **The depth filter refines the best levels of the book.** After a recap of a book with at least one
level on each side and any run of simple deltas, nothing was thrown and the view is exact. -/
theorem exactView_of_simpleRun (hmax : 0 < s.maxDepth) (hbook : book ≠ s.truncatedBook)
    (hfiled : AllFiled s.world (s.world.book book).levels)
    (hbid : bestFirst s.world book .bid ≠ []) (hask : bestFirst s.world book .ask ≠ [])
    (run : List (World P × BasicDelta)) (hrun : SimpleRun book (onBookRecap book s).state run) :
    ((onBookRecap book s).andThen (each (deliver book) run)).error = none ∧
      ExactView ((onBookRecap book s).andThen (each (deliver book) run)).state book := by
  obtain ⟨_, hrecap, hkept, htracks⟩ := onBookRecap_follows hmax hbook hfiled hbid hask
  rw [← hkept.book book hbook] at htracks
  rw [hrecap] at hrun ⊢
  exact simpleRun_follows htracks (hkept.maxDepth ▸ hmax) (hkept.truncatedBook ▸ hbook) hrun

instance (w : World P) (side : Side) (p : P) (l : LevelRef) : Decidable (Filed w side p l) :=
  decidable_of_iff ((w.level l).price = p ∧ (w.level l).side = side ∧ (w.level l).size ≠ 0)
    ⟨fun ⟨hprice, hside, hsize⟩ => ⟨hprice, hside, hsize⟩, fun h => ⟨h.price, h.side, h.size⟩⟩

theorem allFiled_of_ranked {w : World P} {full : Levels P}
    (h : ∀ side, ∀ x ∈ ranked side.descending (full side), Filed w side x.1 x.2) : AllFiled w full :=
  fun side p l hl => h side (p, l) (mem_ranked.mpr hl)

theorem takesDelta_eraseLevel {side : Side} {p : P} {l : LevelRef} (hside : side ≠ .unknown)
    (hbook : book ≠ s.truncatedBook) (hfiled : AllFiled s.world (s.world.book book).levels)
    (hfound : findLevel s.world book side p = some l) :
    TakesDelta s book (eraseLevel s.world book side p)
      { priceLevel := some l, plAction := .delete } := by
  obtain ⟨hprice, hlevel, -⟩ := hfiled side p l hfound
  have hlevels : ∀ x, ((eraseLevel s.world book side p).book book).levels x
      = Function.update (s.world.book book).levels side (((s.world.book book).levels side).erase p) x := by
    intro x
    simp only [eraseLevel, World.modifyBook_book, if_true, levels_setLevels hside, Function.update_apply]
  refine ⟨⟨l, rfl, ?_, ?_⟩, fun x q => ?_, fun x => ?_, fun x q l' hl' => ?_⟩
  · change (s.world.level l).side ≠ .unknown
    rwa [hlevel]
  · change (s.world.level l).price ∈ (s.world.book book).levels (s.world.level l).side
    rw [hlevel, hprice]
    exact mem_iff_getElem?.mpr ⟨l, hfound⟩
  · have htake : takeDelta (eraseLevel s.world book side p) (s.world.book book).levels
        { priceLevel := some l, plAction := .delete } = _ := takeDelta_delete rfl rfl hlevel hprice
    rw [findLevel, hlevels, htake]
  · simp only [eraseLevel, World.modifyBook_book, if_neg hbook.symm, State.view]
  · rw [hlevels] at hl'
    suffices hold : ((s.world.book book).levels x)[q]? = some l' from
      ⟨(hfiled x q l' hold).price, (hfiled x q l' hold).side, (hfiled x q l' hold).size⟩
    by_cases hx : x = side
    · subst hx
      rw [Function.update_self, OrderedMap.getElem?_erase] at hl'
      split_ifs at hl'
      exact hl'
    · rwa [Function.update_of_ne hx] at hl'

def bookWith (levels : List (Side × Int)) : World Int :=
  levels.foldl (fun w x => insertLevel
      (w.newLevel { price := x.2, size := 1, side := x.1, book := some 0 }) 0 x.1 x.2 w.nextLevel)
    (World.init (fun _ => false) fun _ => none)

def filterOn (w : World Int) (maxDepth : Nat) : State Int :=
  { world := w, truncatedBook := 1, maxDepth := maxDepth, bid := { lastPrice := 0 }
    ask := { lastPrice := 0 } }

def oneDeep : State Int := filterOn (bookWith [(.bid, 10), (.bid, 9), (.ask, 11)]) 1

theorem allFiled_oneDeep : AllFiled oneDeep.world (oneDeep.world.book 0).levels :=
  allFiled_of_ranked fun side => by
    cases side <;> decide

def bestBidGoes : List (World Int × BasicDelta) :=
  [(eraseLevel (onBookRecap 0 oneDeep).state.world 0 .bid 10,
    { priceLevel := some 0, plAction := .delete })]

theorem simpleRun_bestBidGoes : SimpleRun 0 (onBookRecap 0 oneDeep).state bestBidGoes := by
  have hfollows := onBookRecap_follows (by decide) (by decide) allFiled_oneDeep (by decide) (by decide)
  obtain ⟨s', hrecap, hkept, -⟩ := hfollows
  refine ⟨takesDelta_eraseLevel (by simp) (by decide) ?_ (by decide), trivial⟩
  rw [hrecap]
  change AllFiled s'.world (s'.world.book 0).levels
  rw [hkept.book 0 (by decide)]
  exact allFiled_oneDeep.kept hkept

theorem exactView_bestBidGoes :
    ((onBookRecap 0 oneDeep).andThen (each (deliver 0) bestBidGoes)).error = none ∧
      ExactView ((onBookRecap 0 oneDeep).andThen (each (deliver 0) bestBidGoes)).state 0 :=
  exactView_of_simpleRun (by decide) (by decide) allFiled_oneDeep (by decide) (by decide) bestBidGoes
    simpleRun_bestBidGoes

def DepthsInView (s : State P) : Prop :=
  ∀ side, side ≠ .unknown →
    (s.window side).depth = (bestFirst s.world s.truncatedBook side).length

/-- Nothing was thrown, the depths are right, and the view stays exact in every run of simple deltas. -/
def ResetsTo (o : Result P) (book : BookRef) : Prop :=
  o.error = none ∧ DepthsInView o.state ∧
    ∀ run, SimpleRun book o.state run →
      (each (deliver book) run o.state).error = none ∧
        ExactView (each (deliver book) run o.state).state book

theorem Follows.resetsTo {o : Result P} (h : Follows s (s.world.book book).levels o)
    (hmax : 0 < s.maxDepth) (hbook : book ≠ s.truncatedBook) : ResetsTo o book := by
  obtain ⟨_, rfl, hkept, htracks⟩ := h
  rw [← hkept.book book hbook] at htracks
  refine ⟨rfl, fun side hside => ?_, fun run hrun => ?_⟩
  · rw [bestFirst, length_ranked]
    exact (htracks side hside).depth_eq
  · exact simpleRun_follows htracks (hkept.maxDepth ▸ hmax) (hkept.truncatedBook ▸ hbook) hrun

theorem onBookClear_follows (hempty : ∀ side, (s.world.book book).levels side = ∅) (hbid : s.bid.depth = 0)
    (hask : s.ask.depth = 0) : Follows s (s.world.book book).levels (onBookClear s) := by
  have hkept := cleared_kept s
  refine ⟨_, rfl, { hkept with }, fun side hside => ?_⟩
  change Tracks _ s.maxDepth _ (s.cleared.view side) (s.cleared.window side).depth (s.cleared.window side).lastPrice
  have hdepth : (s.window side).depth = 0 := by
    cases side with
    | bid => exact hbid
    | ask => exact hask
    | unknown => contradiction
  rw [cleared_view, cleared_window, hempty, hdepth]
  exact Tracks.empty _ _ _

/-- **Resets.** A clear puts the filter in step with the empty book exactly if its depths were zero
already; a recap puts it in step with the book exactly if both sides have a level. -/
theorem resets_iff (hmax : 0 < s.maxDepth) (hbook : book ≠ s.truncatedBook) :
    ((∀ side, (s.world.book book).levels side = ∅) →
      (ResetsTo (onBookClear s) book ↔ s.bid.depth = 0 ∧ s.ask.depth = 0)) ∧
    (AllFiled s.world (s.world.book book).levels →
      (ResetsTo (onBookRecap book s) book ↔
        bestFirst s.world book .bid ≠ [] ∧ bestFirst s.world book .ask ≠ [])) := by
  refine ⟨fun hempty => ⟨fun h => ?_, fun h => ?_⟩, fun hfiled => ⟨fun h => ?_, fun h => ?_⟩⟩
  · have hdepth : ∀ side, side ≠ .unknown → (s.window side).depth = 0 := by
      intro side hside
      have hview := h.2.1 side hside
      change (s.cleared.window side).depth = (ranked _ (s.cleared.view side)).length at hview
      rwa [cleared_view, length_ranked] at hview
    exact ⟨hdepth .bid (by simp), hdepth .ask (by simp)⟩
  · exact (onBookClear_follows hempty h.1 h.2).resetsTo hmax hbook
  · by_contra hnot
    have herror := onBookRecap_empty hmax hbook hfiled (by tauto)
    exact absurd h.1 (by simp [herror])
  · exact (onBookRecap_follows hmax hbook hfiled h.1 h.2).resetsTo hmax hbook

theorem resets_oneDeep : ResetsTo (onBookRecap 0 oneDeep) 0 :=
  ((@resets_iff Int _ oneDeep 0 (by decide) (by decide)).2 allFiled_oneDeep).mpr
    ⟨by decide, by decide⟩

def emptied : State Int :=
  { (onBookRecap 0 oneDeep).state with
    world := clear (onBookRecap 0 oneDeep).state.world 0 true }

theorem not_resets_emptied :
    ¬ ResetsTo (onBookClear emptied) 0 ∧
    ((onBookClear emptied).andThen
      (deliver 0 (insertLevel
        ((onBookClear emptied).state.world.newLevel { price := 10, size := 1, book := some 0 }) 0 .bid 10
          (onBookClear emptied).state.world.nextLevel,
        { priceLevel := some (onBookClear emptied).state.world.nextLevel, plAction := .add }))).error
      = some .invalidIterator ∧
    (onBookRecap 0 (filterOn (bookWith [(.bid, 10)]) 1)).error = some .invalidIterator := by
  refine ⟨fun h => ?_, by decide, by decide⟩
  have hdepth := h.2.1 .bid (by simp)
  revert hdepth
  decide

end OpenMama.DepthFilter
