import OpenMama.DepthFilter.Moves

/-!
# A level delta keeps the view exact

`Levels` is a full book as far as the filter is concerned. A level delta changes it (`takeDelta`), and `Tracking` says
that the filter's two windows track it. The step lemma is for a delta processed while the filter looks the next level
up in some book in the heap, of which only that one lookup matters.
-/

namespace OpenMama.DepthFilter

open OrderBook OrderedMap Function Cursor

variable {P : Type} [LinearOrder P] {s : State P} {side : Side} {delta : BasicDelta} {book : BookRef}
  {l : LevelRef}

abbrev Levels (P : Type) [LinearOrder P] := Side → Std.TreeMap P LevelRef

def takeDelta (w : World P) (full : Levels P) (delta : BasicDelta) : Levels P :=
  match delta.priceLevel with
  | none => full
  | some l =>
    let side := (w.level l).side
    let price := (w.level l).price
    match delta.plAction with
    | .add => update full side ((full side).insert price l)
    | .delete => update full side ((full side).erase price)
    | _ => full

def ValidDelta (w : World P) (full : Levels P) (delta : BasicDelta) : Prop :=
  ∃ l, delta.priceLevel = some l ∧ (w.level l).side ≠ .unknown ∧
    match delta.plAction with
    | .add => (w.level l).price ∉ full (w.level l).side
    | .update => (w.level l).price ∈ full (w.level l).side
    | .delete => (w.level l).price ∈ full (w.level l).side
    | .unknown => False

def AllFiled (w : World P) (full : Levels P) : Prop :=
  ∀ side p l, (full side)[p]? = some l → Filed w side p l

def Tracking (s : State P) (full : Levels P) : Prop :=
  ∀ side, side ≠ .unknown →
    Tracks side.descending s.maxDepth (full side) (s.view side) (s.window side).depth
      (s.window side).lastPrice

variable {full : Levels P} {w : World P}

theorem Tracking.moved {full' : Levels P} {s' : State P} {levels : Std.TreeMap P LevelRef} {win : Window P}
    (h : Tracking s full) (hmoved : Moved s s' side levels win) (hother : ∀ x, x ≠ side → full' x = full x)
    (htracks : Tracks side.descending s.maxDepth (full' side) levels win.depth win.lastPrice) :
    Tracking s' full' := by
  intro x hx
  rw [hmoved.kept.maxDepth]
  by_cases hxside : x = side
  · subst hxside
    rwa [hmoved.view, hmoved.window]
  · rw [(hmoved.other x hxside hx).1, (hmoved.other x hxside hx).2, hother x hxside]
    exact h x hx

/-- The level that the filter looks up when a level in view is deleted is the one that `full` has at
that position. -/
def LooksUp (w : World P) (book : BookRef) (full : Levels P) (side : Side) (position : Nat) : Prop :=
  Book.getLevelAtPosition w book position side
    = ((ranked side.descending (full side))[position]?).map Prod.snd

instance (w : World P) (book : BookRef) (full : Levels P) (side : Side) (position : Nat) :
    Decidable (LooksUp w book full side position) := by
  unfold LooksUp
  infer_instance

def Follows (s : State P) (full : Levels P) (o : Result P) : Prop :=
  ∃ s', o = .ok s' ∧ Kept s s' ∧ Tracking s' full

/-! ### An added level -/

theorem evictLast_moved {levels : Std.TreeMap P LevelRef} (hside : side ≠ .unknown)
    (hview : s.view side = levels) (hfiled : ∀ p l, levels[p]? = some l → Filed s.world side p l)
    {front : List (P × LevelRef)} {y z : P × LevelRef}
    (hranked : ranked side.descending levels = front ++ [y, z]) :
    ∃ s', evictLast side s = .ok s' ∧
      Moved s s' side (levels.erase z.1) { s.window side with lastPrice := y.1 } := by
  have hmem : ∀ a ∈ front ++ [y, z], levels[a.1]? = some a.2 := by
    intro a ha
    rw [← hranked] at ha
    exact mem_ranked.mp ha
  have hy := hfiled y.1 y.2 (hmem y (by simp))
  have hz := hfiled z.1 z.2 (hmem z (by simp))
  have hlast : (Book.sideEnd s.world s.truncatedBook side).prev (Book.isShown s.world)
      = ⟨y.2 :: (front.map Prod.snd).reverse, [z.2]⟩ := by
    have hbest : Book.bestFirst s.world s.truncatedBook side = front ++ [y, z] := by
      rw [← hranked, ← hview]
      rfl
    simp [Book.sideEnd, last, hbest, prev, prev.back, hz.shown]
  have hkept : (prev? (Book.isShown s.world) ⟨y.2 :: (front.map Prod.snd).reverse, [z.2]⟩).bind get? = some y.2 := by
    rw [prev?_get?, List.filter_cons_of_pos hy.shown]
    rfl
  have hmoved := ((still_refl s side).setLastPrice hside y.1).still
    (still_saveDelta _ { priceLevel := some z.2, plDeltaSize := (s.world.level z.2).size
                         plAction := .delete } side)
  rw [hview] at hmoved
  refine ⟨_, ?_, hmoved.setView hside _⟩
  have hz' := hz.kept hmoved.kept
  have hdelete := deleteLevel_eq hside hz'.side hz'.price
    (by rw [hmoved.view]; exact mem_iff_getElem?.mpr ⟨z.2, hmem z (by simp)⟩)
  rw [hmoved.view] at hdelete
  simp only [evictLast, hlast, hkept, get?, List.head?_cons, hy.price]
  exact hdelete

theorem processAdd_follows {evicted : State P → State P} (h : Tracking s full) (hside : side ≠ .unknown)
    (hlevel : (s.world.level l).side = side) (hnew : (s.world.level l).price ∉ full side)
    (hlook : ¬ s.outOfScope side (s.world.level l).price) (hmax : 0 < s.maxDepth)
    (hfiled : ∀ p l', ((full side).insert (s.world.level l).price l)[p]? = some l' → Filed s.world side p l')
    (hevicted : ∀ s', Still s' (evicted s') side) :
    Follows s (update full side ((full side).insert (s.world.level l).price l))
      (processAdd side evicted delta l s) := by
  set price := (s.world.level l).price with hprice
  have htracks := h side hside
  have hadd := addLevel_eq hside hlevel hprice.symm fun hview => hnew (htracks.mem hview)
  have hinsert := moved_setView s hside ((s.view side).insert price l)
  have hother : ∀ x, x ≠ side → update full side ((full side).insert price l) x = full x :=
    fun x hx => update_of_ne hx _ _
  rw [processAdd, hadd, Outcome.ok_andThen]
  by_cases hdepth : (s.window side).depth = s.maxDepth
  · have hbehind : ¬ Ahead side.descending (s.window side).lastPrice price := fun hahead => hlook ⟨hahead, hdepth⟩
    obtain ⟨_, y, z, hranked⟩ := exists_last_two
      (l := ranked side.descending ((s.view side).insert price l)) (by
        rw [length_ranked, size_insert fun hview => hnew (htracks.mem hview), ← htracks.depth_eq]
        omega)
    have hadded := hinsert.still (still_addDelta _ delta side)
    have hfiled' : ∀ p l', ((s.view side).insert price l)[p]? = some l' →
        Filed ((s.setView side ((s.view side).insert price l)).addDelta delta).world side p l' := by
      intro p l' hl'
      refine (hfiled p l' ?_).kept hadded.kept
      rw [OrderedMap.getElem?_insert] at hl' ⊢
      split_ifs at hl' ⊢
      · exact hl'
      · exact htracks.held p l' hl'
    obtain ⟨s', hevict, hmoved⟩ := evictLast_moved hside hadded.view hfiled' hranked
    have hfinal := (hadded.trans hmoved).still (hevicted s')
    rw [hadded.window] at hfinal
    rw [if_pos hdepth, hevict]
    refine ⟨_, rfl, hfinal.kept, h.moved hfinal hother ?_⟩
    rw [update_self]
    exact htracks.insert_evict hnew hbehind hdepth hranked
  · rw [if_neg hdepth]
    have hfinal := (hinsert.setWindow hside
      { depth := (s.window side).depth + 1
        lastPrice := if Ahead side.descending (s.window side).lastPrice price then price
          else (s.window side).lastPrice }).still (still_addDelta _ delta side)
    refine ⟨_, rfl, hfinal.kept, h.moved hfinal hother ?_⟩
    rw [update_self]
    refine htracks.insert_room hnew hdepth fun a ha => ?_
    split_ifs with hahead
    · rcases ha with ha | ha
      · exact ha ▸ Ahead.irrefl a
      · exact fun hpa => htracks.inside a ha (hahead.trans hpa)
    · rcases ha with ha | ha
      · exact ha ▸ hahead
      · exact htracks.inside a ha

theorem processDelete_eq (h : Tracking s full) (hside : side ≠ .unknown) (hlevel : (s.world.level l).side = side)
    (hview : (s.world.level l).price ∈ s.view side) (hbook : book ≠ s.truncatedBook) :
    processDelete side delta book l s
      = refill side ((s.window side).depth - 1)
          (Book.getLevelAtPosition s.world book ((s.window side).depth - 1) side)
          ((s.setView side ((s.view side).erase (s.world.level l).price)).addDelta delta) := by
  have hpassed := (moved_setView s hside ((s.view side).erase (s.world.level l).price)).still
    (still_addDelta _ delta side)
  have hpos : decrement (s.window side).depth = (s.window side).depth - 1 := by
    have hsize := size_erase hview
    rw [← (h side hside).depth_eq] at hsize
    obtain ⟨n, hn⟩ : ∃ n, (s.window side).depth = n + 1 := ⟨_, hsize.symm⟩
    rw [hn]
    rfl
  rw [processDelete, deleteLevel_eq hside hlevel rfl hview, Outcome.ok_andThen]
  simp only [hpos, hpassed.kept.getLevelAtPosition hbook]

theorem processDelete_follows (h : Tracking s full) (hside : side ≠ .unknown)
    (hlevel : (s.world.level l).side = side) (hview : (s.world.level l).price ∈ s.view side)
    (hfiled : ∀ p l', ((full side).erase (s.world.level l).price)[p]? = some l' →
      Filed s.world side p l')
    (hlooks : LooksUp s.world book (update full side
      ((full side).erase (s.world.level l).price)) side ((s.window side).depth - 1))
    (hbook : book ≠ s.truncatedBook) :
    Follows s (update full side ((full side).erase (s.world.level l).price))
      (processDelete side delta book l s) := by
  set price := (s.world.level l).price with hprice
  have htracks := h side hside
  have hpassed := (moved_setView s hside ((s.view side).erase price)).still (still_addDelta _ delta side)
  have hother : ∀ x, x ≠ side → update full side ((full side).erase price) x = full x := fun x hx => update_of_ne hx _ _
  rw [processDelete_eq h hside hlevel hview hbook, hlooks, update_self]
  cases hnext : (ranked side.descending ((full side).erase price))[(s.window side).depth - 1]? with
  | none =>
    have hfinal := hpassed.setDepth hside ((s.window side).depth - 1)
    refine ⟨_, rfl, hfinal.kept, h.moved hfinal hother ?_⟩
    rw [update_self]
    exact htracks.erase_shrink hview hnext
  | some x =>
    obtain ⟨p, next⟩ := x
    obtain ⟨hout, htracks'⟩ := htracks.erase_refill hview hnext
    have hnextFiled := (hfiled p next (mem_ranked.mp (List.mem_of_getElem? hnext))).kept hpassed.kept
    have hadd := addLevel_eq hside hnextFiled.side hnextFiled.price (by rwa [hpassed.view])
    rw [hpassed.view] at hadd
    have hinsert := hpassed.setView hside (((s.view side).erase price).insert p next)
    have hfinal := (hinsert.still (still_addDeltasFromLevel _ next side)).setLastPrice hside p
    simp only [Option.map_some, refill, ← hprice, hadd, Outcome.ok_andThen,
      (hnextFiled.kept (moved_setView _ hside _).kept).price]
    refine ⟨_, rfl, hfinal.kept, h.moved hfinal hother ?_⟩
    rw [update_self]
    exact htracks'

/-! ### A level delta -/

/-- If a level in view is deleted, the lookup of the level that comes into view gives the one that
`full` has there. -/
def NextAgrees (s : State P) (book : BookRef) (full : Levels P) (delta : BasicDelta) (l : LevelRef) : Prop :=
  delta.plAction = .delete → (s.world.level l).price ∈ s.view (s.world.level l).side →
    LooksUp s.world book full (s.world.level l).side ((s.window (s.world.level l).side).depth - 1)

theorem takeDelta_add {p : P} (hl : delta.priceLevel = some l) (hadd : delta.plAction = .add)
    (hlevel : (w.level l).side = side) (hprice : (w.level l).price = p) :
    takeDelta w full delta = update full side ((full side).insert p l) := by
  subst hlevel hprice
  simp only [takeDelta, hl, hadd]

theorem takeDelta_delete {p : P} (hl : delta.priceLevel = some l) (hdelete : delta.plAction = .delete)
    (hlevel : (w.level l).side = side) (hprice : (w.level l).price = p) :
    takeDelta w full delta = update full side ((full side).erase p) := by
  subst hlevel hprice
  simp only [takeDelta, hl, hdelete]

theorem takeDelta_update (hl : delta.priceLevel = some l) (hupdate : delta.plAction = .update) :
    takeDelta w full delta = full := by
  simp only [takeDelta, hl, hupdate]

theorem tracking_of_outOfScope (h : Tracking s full) (hvalid : ValidDelta s.world full delta)
    (hl : delta.priceLevel = some l) (hscope : s.outOfScope (s.world.level l).side (s.world.level l).price) :
    Tracking s (takeDelta s.world full delta) := by
  obtain ⟨_, hl', hside, hvalid⟩ := hvalid
  obtain rfl := Option.some_inj.mp (hl.symm.trans hl')
  have htracks := h _ hside
  obtain ⟨hbehind, hdepth⟩ := hscope
  have hstill := still_refl s (s.world.level l).side
  cases haction : delta.plAction with
  | add =>
    simp only [haction] at hvalid
    rw [takeDelta_add hl haction rfl rfl]
    apply h.moved hstill (fun x hx => update_of_ne hx _ _)
    rw [update_self]
    exact htracks.insert_behind hvalid hbehind hdepth
  | delete =>
    simp only [haction] at hvalid
    rw [takeDelta_delete hl haction rfl rfl]
    apply h.moved hstill (fun x hx => update_of_ne hx _ _)
    rw [update_self]
    exact htracks.erase_behind hvalid hbehind hdepth
  | update => rwa [takeDelta_update hl haction]
  | unknown => simp only [haction] at hvalid

theorem processDelta_follows {evicted : State P → State P} (h : Tracking s full) (hmax : 0 < s.maxDepth)
    (hbook : book ≠ s.truncatedBook) (hvalid : ValidDelta s.world full delta) (hl : delta.priceLevel = some l)
    (hfiled : AllFiled s.world (takeDelta s.world full delta))
    (hnext : NextAgrees s book (takeDelta s.world full delta) delta l)
    (hevicted : ∀ s' side, Still s' (evicted s') side) :
    Follows s (takeDelta s.world full delta)
      (processDelta (s.world.level l).side evicted delta book l s) := by
  unfold processDelta
  split_ifs with hscope
  · exact ⟨s, rfl, Kept.refl s, tracking_of_outOfScope h hvalid hl hscope⟩
  obtain ⟨_, hl', hside, hvalid⟩ := hvalid
  obtain rfl := Option.some_inj.mp (hl.symm.trans hl')
  have hself := fun p l' => hfiled (s.world.level l).side p l'
  cases haction : delta.plAction with
  | add =>
    simp only [haction] at hvalid
    rw [takeDelta_add hl haction rfl rfl] at hself ⊢
    rw [update_self] at hself
    exact processAdd_follows h hside rfl hvalid hscope hmax hself fun s' => hevicted s' _
  | delete =>
    simp only [haction] at hvalid
    rw [takeDelta_delete hl haction rfl rfl] at hself ⊢
    rw [update_self] at hself
    have hview := (h _ hside).mem_view hvalid hscope
    refine processDelete_follows h hside rfl hview hself ?_ hbook
    rw [← takeDelta_delete hl haction rfl rfl]
    exact hnext haction hview
  | update =>
    have hstill := still_addDelta s delta (s.world.level l).side
    rw [takeDelta_update hl haction]
    exact ⟨_, rfl, hstill.kept, h.moved hstill (fun _ _ => rfl) (h _ hside)⟩
  | unknown => simp only [haction] at hvalid

theorem processSideDelta_follows (h : Tracking s full) (hmax : 0 < s.maxDepth) (hbook : book ≠ s.truncatedBook)
    (hvalid : ValidDelta s.world full delta) (hfiled : AllFiled s.world (takeDelta s.world full delta))
    (hnext : ∀ l, delta.priceLevel = some l → NextAgrees s book (takeDelta s.world full delta) delta l) :
    Follows s (takeDelta s.world full delta) (processSideDelta book delta s) := by
  obtain ⟨l, hl, hside, -⟩ := id hvalid
  have hbid := processDelta_follows h hmax hbook hvalid hl hfiled (hnext l hl) still_refl
  have hask := processDelta_follows h hmax hbook hvalid hl hfiled (hnext l hl) still_invokeDeltaHandlers
  cases hlevel : (s.world.level l).side with
  | bid =>
    rw [hlevel] at hbid
    simp only [processSideDelta, hl, hlevel]
    exact hbid
  | ask =>
    rw [hlevel] at hask
    simp only [processSideDelta, hl, hlevel]
    exact hask
  | unknown => exact absurd hlevel hside

end OpenMama.DepthFilter
