import OpenMama.DepthFilter.SimpleDeltas

/-!
# Complex deltas

The deltas of a complex delta are processed one by one, but every lookup is made in the book that holds all of them
already. The view follows the book as long as the lookups do not notice. Later deltas can make up for a lookup that
differs, so for the end of the list the condition is sufficient but not necessary.
-/

namespace OpenMama.DepthFilter

open OrderBook OrderedMap Outcome Option Function

variable {P : Type} [LinearOrder P] {s : State P} {book : BookRef} {full : Levels P}

def InScope (w : World P) (N : Nat) (full : Levels P) (l : LevelRef) : Prop :=
  ∃ l', ((w.level l).price, l') ∈ (ranked (w.level l).side.descending (full (w.level l).side)).take N

/-- A delta that deletes one of the first `N` levels finds the same level behind those that are left in the book as in
the levels right after the delta. -/
def Agrees (w : World P) (book : BookRef) (N : Nat) (full : Levels P) (delta : BasicDelta) : Prop :=
  delta.plAction = .delete → ∀ l, delta.priceLevel = some l → InScope w N full l →
    LooksUp w book (takeDelta w full delta) (w.level l).side
      (min N (full (w.level l).side).size - 1)

/-- The deltas are valid one after the other from the old levels. -/
def ValidDeltas (w : World P) (full : Levels P) (deltas : List BasicDelta) : Prop :=
  Along (takeDelta w) (ValidDelta w) full deltas

/-- No level that is in the book on the way is empty by now. -/
def AllShown (w : World P) (full : Levels P) (deltas : List BasicDelta) : Prop :=
  Along (takeDelta w) (fun full delta => AllFiled w (takeDelta w full delta)) full deltas

/-- The counter of each side is the number of levels in view; the last price is not ahead of one in view and, when
the view is full, is ahead of every other. -/
def InStep (s : State P) (full : Levels P) : Prop :=
  ∀ side, side ≠ .unknown →
    (s.window side).depth = (s.view side).size ∧
    (∀ p : P, p ∈ s.view side → ¬ Ahead side.descending (s.window side).lastPrice p) ∧
    ((s.window side).depth = s.maxDepth → ∀ p : P, p ∈ full side → p ∉ s.view side →
      Ahead side.descending (s.window side).lastPrice p)

/-- The full book is what valid deltas make of its levels. -/
structure TakesDeltas (w : World P) (book : BookRef) (full : Levels P) (deltas : List BasicDelta) : Prop where
  valid : ValidDeltas w full deltas
  holds : ∀ side p, Book.findLevel w book side p = (deltas.foldl (takeDelta w) full side)[p]?
  filed : AllFiled w (w.book book).levels

def LookupsAgree (w : World P) (book : BookRef) (N : Nat) (full : Levels P) (deltas : List BasicDelta) : Prop :=
  Along (takeDelta w) (Agrees w book N) full deltas

def ExactFor (s : State P) (full : Levels P) : Prop :=
  ∀ side, side ≠ .unknown →
    ranked side.descending (s.view side) = (ranked side.descending (full side)).take s.maxDepth ∧
    (s.window side).depth = min s.maxDepth (full side).size

variable {l : LevelRef} {delta : BasicDelta} {deltas : List BasicDelta}

theorem InStep.tracking (h : InStep s full)
    (hview : ∀ side, side ≠ .unknown → BestOf side.descending s.maxDepth (full side) (s.view side)) :
    Tracking s full := by
  intro side hside
  obtain ⟨hdepth, hinside, houtside⟩ := h side hside
  exact ⟨hview side hside, hdepth, hinside, houtside⟩

theorem Tracking.inStep (h : Tracking s full) : InStep s full :=
  fun side hside => ⟨(h side hside).depth_eq, (h side hside).inside, (h side hside).outside⟩

theorem Tracking.exactFor (h : Tracking s full) : ExactFor s full :=
  fun side hside => ⟨(h side hside).ranked_eq, (h side hside).depth_eq.trans (h side hside).size⟩

section Kept

variable {s' : State P} (hkept : Kept s s')

include hkept

theorem takeDelta_kept : takeDelta s'.world = takeDelta s.world := by
  funext full delta
  cases hl : delta.priceLevel with
  | none => simp only [takeDelta, hl]
  | some l =>
    obtain ⟨hprice, hside, -⟩ := hkept.level l
    cases haction : delta.plAction with
    | add => rw [takeDelta_add hl haction hside hprice, takeDelta_add hl haction rfl rfl]
    | delete => rw [takeDelta_delete hl haction hside hprice, takeDelta_delete hl haction rfl rfl]
    | update | unknown => simp only [takeDelta, hl, haction]

theorem ValidDelta.kept (h : ValidDelta s.world full delta) : ValidDelta s'.world full delta := by
  obtain ⟨l, hl, hvalid⟩ := h
  obtain ⟨hprice, hside, -⟩ := hkept.level l
  refine ⟨l, hl, ?_⟩
  rwa [hprice, hside]

theorem Agrees.kept (hbook : book ≠ s.truncatedBook) {N : Nat} :
    Agrees s'.world book N full delta ↔ Agrees s.world book N full delta := by
  unfold Agrees InScope LooksUp
  refine imp_congr_right fun _ => forall_congr' fun l => imp_congr_right fun _ => ?_
  obtain ⟨hprice, hside, -⟩ := hkept.level l
  rw [hprice, hside, takeDelta_kept hkept, hkept.getLevelAtPosition hbook]

end Kept

theorem Tracking.inScope_iff (h : Tracking s full) (hside : (s.world.level l).side ≠ .unknown) :
    InScope s.world s.maxDepth full l ↔ (s.world.level l).price ∈ s.view (s.world.level l).side := by
  unfold InScope
  rw [← (h _ hside).ranked_eq, mem_iff_getElem?]
  exact exists_congr fun l' => mem_ranked

theorem Tracking.agrees_iff (h : Tracking s full) (hl : delta.priceLevel = some l)
    (hside : (s.world.level l).side ≠ .unknown) :
    Agrees s.world book s.maxDepth full delta ↔
      NextAgrees s book (takeDelta s.world full delta) delta l := by
  have hdepth : (s.window (s.world.level l).side).depth = min s.maxDepth (full (s.world.level l).side).size :=
    (h _ hside).depth_eq.trans (h _ hside).size
  refine imp_congr_right fun _ => ⟨fun hagree => ?_, fun hagree l' hl' => ?_⟩
  · rw [hdepth, ← h.inScope_iff hside]
    exact hagree l hl
  · obtain rfl := some_inj.mp (hl.symm.trans hl')
    rwa [hdepth, ← h.inScope_iff hside] at hagree

theorem looksUp_of_exactFor (h : Tracking s full) {side : Side} (hside : side ≠ .unknown)
    (hlevel : (s.world.level l).side = side)
    (hview : (s.world.level l).price ∈ s.view side) (hbook : book ≠ s.truncatedBook)
    (hfiled : AllFiled s.world (s.world.book book).levels)
    (herror : (processDelete side delta book l s).error = none)
    (hexact : ExactFor (processDelete side delta book l s).state
      (update full side ((full side).erase (s.world.level l).price))) :
    LooksUp s.world book (update full side ((full side).erase (s.world.level l).price)) side
      ((s.window side).depth - 1) := by
  have htracks := h side hside
  have hpassed := (moved_setView s hside ((s.view side).erase (s.world.level l).price)).still
    (still_addDelta _ delta side)
  unfold LooksUp
  rw [processDelete_eq h hside hlevel hview hbook] at herror hexact
  rw [update_self]
  cases hnext : Book.getLevelAtPosition s.world book ((s.window side).depth - 1) side with
  | none =>
    simp only [hnext, refill] at hexact
    have hmoved := hpassed.setDepth hside ((s.window side).depth - 1)
    have hdepth := (hexact side hside).2
    rw [ok_state, hmoved.kept.maxDepth, hmoved.window, update_self] at hdepth
    rw [htracks.next_eq_none hview hdepth, map_none]
  | some level =>
    simp only [hnext, refill] at herror hexact
    rw [Book.getLevelAtPosition_eq hside fun p l hl => (hfiled side p l hl).size] at hnext
    obtain ⟨⟨p, next⟩, hpos, hsnd⟩ := map_eq_some_iff.mp hnext
    obtain rfl : next = level := hsnd
    have hlevelFiled := (hfiled side p next (Book.mem_bestFirst.mp (List.mem_of_getElem? hpos))).kept hpassed.kept
    have hout : p ∉ (s.view side).erase (s.world.level l).price := by
      intro hin
      rw [← hpassed.view] at hin
      exact addLevel_error hside hlevelFiled.side hlevelFiled.price hin (andThen_error_eq_none.mp herror).1
    have hadd := addLevel_eq hside hlevelFiled.side hlevelFiled.price (by rwa [hpassed.view])
    rw [hpassed.view] at hadd
    rw [hadd, ok_andThen, ok_state] at hexact
    have hfilled := hpassed.setView hside (((s.view side).erase (s.world.level l).price).insert p next)
    have hmoved := fun q => (hfilled.still (still_addDeltasFromLevel _ next side)).setLastPrice hside q
    have hranked := (hexact side hside).1
    rw [(hmoved _).view, (hmoved _).kept.maxDepth, update_self] at hranked
    rw [htracks.next_eq_some hview hout hranked, map_some]

theorem processSideDelta_exact_iff (h : Tracking s full) (hmax : 0 < s.maxDepth) (hbook : book ≠ s.truncatedBook)
    (hvalid : ValidDelta s.world full delta) (hfiled : AllFiled s.world (takeDelta s.world full delta))
    (hfiledBook : AllFiled s.world (s.world.book book).levels) :
    ((processSideDelta book delta s).error = none ∧
      ExactFor (processSideDelta book delta s).state (takeDelta s.world full delta)) ↔
      Agrees s.world book s.maxDepth full delta := by
  obtain ⟨l, hl, hside, -⟩ := id hvalid
  rw [h.agrees_iff hl hside]
  constructor
  · rintro ⟨herror, hexact⟩ haction hview
    have hscope : ¬ s.outOfScope (s.world.level l).side (s.world.level l).price :=
      fun hscope => (h _ hside).inside _ hview hscope.1
    have hrun : processSideDelta book delta s = processDelete (s.world.level l).side delta book l s := by
      have hdelta : ∀ evicted, processDelta (s.world.level l).side evicted delta book l s
          = processDelete (s.world.level l).side delta book l s := fun evicted => by
        simp only [processDelta, if_neg hscope, haction]
      cases hlevel : (s.world.level l).side with
      | bid =>
        rw [hlevel] at hdelta
        simp only [processSideDelta, hl, hlevel, processBidDelta, hdelta]
      | ask =>
        rw [hlevel] at hdelta
        simp only [processSideDelta, hl, hlevel, processAskDelta, hdelta]
      | unknown => exact absurd hlevel hside
    rw [hrun] at herror hexact
    rw [takeDelta_delete hl haction rfl rfl] at hexact ⊢
    exact looksUp_of_exactFor h hside rfl hview hbook hfiledBook herror hexact
  · intro hagree
    obtain ⟨_, hrun, -, htracks⟩ := processSideDelta_follows h hmax hbook hvalid hfiled
      fun l' hl' => by
        obtain rfl := some_inj.mp (hl.symm.trans hl')
        exact hagree
    rw [hrun]
    exact ⟨rfl, htracks.exactFor⟩

/-! ### The list -/

def ExactThroughout (s : State P) (book : BookRef) (full : Levels P) (deltas : List BasicDelta) : Prop :=
  ∀ n, (each (processSideDelta book) (deltas.take n) s).error = none ∧
    ExactFor (each (processSideDelta book) (deltas.take n) s).state
      ((deltas.take n).foldl (takeDelta s.world) full)

theorem exactThroughout_cons {s' : State P} (h : ExactFor s full) (hrun : processSideDelta book delta s = .ok s')
    (hkept : Kept s s') :
    ExactThroughout s book full (delta :: deltas) ↔
      ExactThroughout s' book (takeDelta s.world full delta) deltas := by
  have hstep : ∀ n, each (processSideDelta book) ((delta :: deltas).take (n + 1)) s
      = each (processSideDelta book) (deltas.take n) s' := fun n => by
    rw [List.take_succ_cons, each, hrun, ok_andThen]
  constructor
  · intro hall n
    have hn := hall (n + 1)
    rw [hstep, List.take_succ_cons] at hn
    rwa [takeDelta_kept hkept]
  · intro hall n
    cases n with
    | zero => exact ⟨rfl, h⟩
    | succ n =>
      rw [hstep, List.take_succ_cons, ← takeDelta_kept hkept]
      rw [← takeDelta_kept hkept] at hall
      exact hall n

theorem Along.kept {s' : State P} (hkept : Kept s s') {ok ok' : Levels P → BasicDelta → Prop}
    (hok : ∀ full delta, ok full delta → ok' full delta) (h : Along (takeDelta s.world) ok full deltas) :
    Along (takeDelta s'.world) ok' full deltas := by
  rw [takeDelta_kept hkept]
  induction deltas generalizing full with
  | nil => trivial
  | cons _ _ ih => exact ⟨hok _ _ h.1, ih h.2⟩

theorem exactThroughout_iff (h : Tracking s full) (hmax : 0 < s.maxDepth) (hbook : book ≠ s.truncatedBook)
    (hvalid : ValidDeltas s.world full deltas) (hshown : AllShown s.world full deltas)
    (hfiled : AllFiled s.world (s.world.book book).levels) :
    (ExactThroughout s book full deltas ↔ LookupsAgree s.world book s.maxDepth full deltas) ∧
    (LookupsAgree s.world book s.maxDepth full deltas →
      Follows s (deltas.foldl (takeDelta s.world) full)
        (each (processSideDelta book) deltas s)) := by
  induction deltas generalizing s full with
  | nil =>
    refine ⟨⟨fun _ => trivial, fun _ n => ?_⟩, fun _ => ⟨s, rfl, Kept.refl s, h⟩⟩
    rw [List.take_nil]
    exact ⟨rfl, h.exactFor⟩
  | cons delta deltas ih =>
    obtain ⟨hvalid₁, hvalids⟩ := hvalid
    obtain ⟨hfiled₁, hshown⟩ := hshown
    have hstep := processSideDelta_exact_iff h hmax hbook hvalid₁ hfiled₁ hfiled
    -- Once the first lookup agrees, the rest of the list meets a filter that tracks.
    let full' := takeDelta s.world full delta
    have hrest : Agrees s.world book s.maxDepth full delta → ∃ s',
        processSideDelta book delta s = .ok s' ∧ Kept s s' ∧
        (ExactThroughout s' book full' deltas ↔ LookupsAgree s.world book s.maxDepth full' deltas) ∧
        (LookupsAgree s.world book s.maxDepth full' deltas →
          Follows s' (deltas.foldl (takeDelta s.world) full') (each (processSideDelta book) deltas s')) := by
      intro hagree
      obtain ⟨l, hl, hside, -⟩ := id hvalid₁
      obtain ⟨s', hrun, hkept, htracks⟩ := processSideDelta_follows h hmax hbook hvalid₁ hfiled₁
        fun l' hl' => by
          obtain rfl := some_inj.mp (hl.symm.trans hl')
          exact (h.agrees_iff hl hside).mp hagree
      have hagrees : LookupsAgree s'.world book s'.maxDepth full' deltas ↔
          LookupsAgree s.world book s.maxDepth full' deltas := by
        unfold LookupsAgree
        rw [takeDelta_kept hkept, hkept.maxDepth]
        exact Along.congr (fun _ _ => Agrees.kept hkept hbook) _ _
      have hfiled' : AllFiled s'.world (s'.world.book book).levels := by
        rw [hkept.book book hbook]
        exact hfiled.kept hkept
      obtain ⟨hiff, hfollows⟩ := ih htracks (hkept.maxDepth ▸ hmax) (hkept.truncatedBook ▸ hbook)
        (Along.kept hkept (fun _ _ hvalid => hvalid.kept hkept) hvalids)
        (Along.kept hkept (fun _ _ hfiled => takeDelta_kept hkept ▸ hfiled.kept hkept) hshown) hfiled'
      rw [hagrees, takeDelta_kept hkept] at hfollows
      exact ⟨s', hrun, hkept, hiff.trans hagrees, hfollows⟩
    refine ⟨⟨fun hexact => ?_, fun hagree => ?_⟩, fun hagree => ?_⟩
    · have hfirst := hexact 1
      rw [List.take_succ_cons, List.take_zero, each] at hfirst
      have hok := (andThen_error_eq_none.mp hfirst.1).1
      rw [andThen_of_ok hok] at hfirst
      have hagree := hstep.mp ⟨hok, hfirst.2⟩
      obtain ⟨s', hrun, hkept, hiff, -⟩ := hrest hagree
      exact ⟨hagree, hiff.mp ((exactThroughout_cons h.exactFor hrun hkept).mp hexact)⟩
    · obtain ⟨s', hrun, hkept, hiff, -⟩ := hrest hagree.1
      exact (exactThroughout_cons h.exactFor hrun hkept).mpr (hiff.mpr hagree.2)
    · obtain ⟨_, hrun, hkept, -, hfollows⟩ := hrest hagree.1
      obtain ⟨s'', hruns, hkept', htracks⟩ := hfollows hagree.2
      refine ⟨s'', ?_, hkept.trans hkept', htracks⟩
      rw [each, hrun, ok_andThen, hruns]

theorem tracking_oneDeep : Tracking (onBookRecap 0 oneDeep).state (oneDeep.world.book 0).levels := by
  have hfollows := onBookRecap_follows (by decide) (by decide) allFiled_oneDeep (by decide) (by decide)
  obtain ⟨_, hrecap, -, htracks⟩ := hfollows
  rw [hrecap]
  exact htracks

def oneDeepIn (w : World Int) : State Int := { (onBookRecap 0 oneDeep).state with world := w }

def bidGoes : World Int := Book.eraseLevel (onBookRecap 0 oneDeep).state.world 0 .bid 10

def goesAndUpdate : List BasicDelta :=
  [{ priceLevel := some 0, plAction := .delete }, { priceLevel := some 1, plAction := .update }]

theorem takesDeltas_goesAndUpdate : TakesDeltas bidGoes 0 (oneDeep.world.book 0).levels goesAndUpdate ∧
    AllShown bidGoes (oneDeep.world.book 0).levels goesAndUpdate := by
  have hfiled : AllFiled bidGoes (takeDelta bidGoes (oneDeep.world.book 0).levels
      { priceLevel := some 0, plAction := .delete }) :=
    allFiled_of_ranked fun side => by cases side <;> decide
  refine ⟨⟨⟨⟨0, rfl, by decide, by decide⟩, ⟨1, rfl, by decide, by decide⟩, trivial⟩,
    fun side p => by cases side <;> rfl, allFiled_of_ranked fun side => by cases side <;> decide⟩,
    hfiled, hfiled, trivial⟩

theorem lookupsAgree_goesAndUpdate : LookupsAgree bidGoes 0 1 (oneDeep.world.book 0).levels goesAndUpdate := by
  refine ⟨fun _ l hl _ => ?_, nofun, trivial⟩
  obtain rfl := some_inj.mp hl
  exact (by decide : LooksUp bidGoes 0 (takeDelta bidGoes (oneDeep.world.book 0).levels
    { priceLevel := some 0, plAction := .delete }) .bid 0)

def betterBid : World Int :=
  Book.insertLevel (bidGoes.newLevel { price := 11, size := 1, book := some 0 }) 0 .bid 11
    bidGoes.nextLevel

def goesAndBetter : List BasicDelta :=
  [{ priceLevel := some 0, plAction := .delete }, { priceLevel := some 3, plAction := .add }]

end OpenMama.DepthFilter
