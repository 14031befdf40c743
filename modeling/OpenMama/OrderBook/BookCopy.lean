import OpenMama.OrderBook.LevelCopy
import OpenMama.OrderBook.Places

/-!
# Copying a book

`copy` clears a book and applies the other book to it: every level that is marked ADD is copied, and so are the market
orders. If every level can be copied faithfully, the copy has the view of the book copied.
-/

namespace OpenMama.OrderBook

open Book PriceLevel OrderedMap Outcome

variable {P : Type} [LinearOrder P]

structure Copyable (w : World P) (l : LevelRef) : Prop where
  inPlace : InPlace w l
  inView : InView w l

variable {w : World P} {l : LevelRef} {w' : World P} {b : BookRef} {side : Side} {level : LevelRef} {w₀ : World P}
  {rhs : BookRef}

theorem Copyable.of_unpositioned (h : ∀ v ∈ entryViews w l, v.positioned = false) : Copyable w l where
  inPlace := by
    refine List.pairwise_iff_forall_sublist.mpr fun {x y} hxy hpos => ?_
    rw [h y (hxy.subset (by simp))] at hpos
    cases hpos
  inView v hv hpos := by
    rw [h v hv] at hpos
    cases hpos

theorem Copyable.untouched (h : Copyable w l) (hl : Untouched w w' l)
    (hcheck : ∀ b, (w'.book b).checkVisibility = (w.book b).checkVisibility) : Copyable w' l where
  inPlace := by
    rw [InPlace, hl.entryViews]
    exact h.inPlace
  inView := by
    apply h.inView.untouched hl
    simp only [World.checkState, hl.level, hcheck]

structure IsCopy (w w' : World P) (src l : LevelRef) (b : BookRef) : Prop where
  level : ∃ es, w'.level l = { w.level src with entries := es, book := some b }
  views : entryViews w' l = entryViews w src

theorem IsCopy.levelView {src : LevelRef} (h : IsCopy w w' src l b) : levelView w' l = levelView w src := by
  obtain ⟨_, hes⟩ := h.level
  rw [OrderBook.levelView, h.views, hes, OrderBook.levelView]

theorem stored_newCopy (h : Wired w) (hbook : (newCopy w level).book = w.book) :
    (∀ b' s q, stored (newCopy w level) b' s q = stored w b' s q) ∧
      ∀ b' s q, stored (newCopy w level) b' s q ≠ some w.nextLevel := by
  have hsame b' s q := stored_congr (congrFun hbook b') s q
  exact ⟨hsame, fun b' s q hl => Nat.lt_irrefl _ (h.allocated ((hsame b' s q).symm.trans hl))⟩

theorem insertCopy_stores (h : Wired w) (b : BookRef) (hside : side ≠ .unknown) (hlt : level < w.nextLevel)
    (hlevel : (w.level level).side = side) (hcopy : Copyable w level) :
    Stores b side (some (w.level level).price) w.nextLevel w (insertCopy w b side level) ∧
      IsCopy w (insertCopy w b side level) level w.nextLevel b := by
  obtain ⟨hwired, hframe, hbook, hnext, ⟨es, hes⟩, hviews⟩ := newCopied h hlt hcopy.inPlace hcopy.inView
  obtain ⟨hsame, hfree⟩ := stored_newCopy h hbook
  have hinserted : Wired (insertLevel (newCopy w level) b side (w.level level).price w.nextLevel) := by
    refine hwired.insertLevel b hside (by simp [hnext]) ?_ hfree
    rw [hes]
    exact ⟨rfl, hlevel⟩
  unfold insertCopy
  refine ⟨⟨hinserted.modifyLevel ⟨rfl, rfl, rfl⟩, ?_, ?_, ?_⟩, ⟨es, ?_⟩, ?_⟩
  · exact (hframe.modifyBook b _).modifyLevel fun e he => he
  · intro _ _ _
    rw [← hsame]
    exact stored_insertLevel hside
  · intro b'
    by_cases hb' : b' = b <;> simp [setLevelBook, insertLevel, hb', hbook]
  · simp [setLevelBook, insertLevel, hes]
  · rw [← hviews]
    refine entryViews_congr rfl ?_
    simp [setLevelBook, insertLevel, entryList]

theorem insertMarketCopy_stores (h : Wired w) (b : BookRef) (hside : side ≠ .unknown) (hlt : level < w.nextLevel)
    (hcopy : Copyable w level) :
    Stores b side none w.nextLevel w (insertMarketCopy w b side level) ∧
      IsCopy w (insertMarketCopy w b side level) level w.nextLevel b := by
  obtain ⟨hwired, hframe, hbook, hnext, ⟨es, hes⟩, hviews⟩ := newCopied h hlt hcopy.inPlace hcopy.inView
  obtain ⟨hsame, hfree⟩ := stored_newCopy h hbook
  have howned : Wired (setLevelBook (newCopy w level) w.nextLevel b) := hwired.modifyLevel ⟨rfl, rfl, rfl⟩
  unfold insertMarketCopy
  refine ⟨⟨howned.insertMarketOrders b hside (by simp [setLevelBook, hnext]) hfree, ?_, ?_, ?_⟩, ⟨es, ?_⟩, ?_⟩
  · exact (hframe.modifyLevel fun e he => he).modifyBook b _
  · intro _ _ _
    rw [← hsame]
    exact stored_setMarketOrders hside
  · intro b'
    by_cases hb' : b' = b <;> simp [setLevelBook, hb', hbook]
  · simp [setLevelBook, hes]
  · rw [← hviews]
    refine entryViews_congr rfl ?_
    simp [setLevelBook, entryList]

/-! ### Applying a book of additions -/

/-- Every level of the book, its market orders included, is marked ADD and can be copied, and belongs to
no other book. -/
def Duplicable (w : World P) (b : BookRef) : Prop :=
  ∀ s q l, stored w b s q = some l →
    (w.level l).action = .add ∧ Copyable w l ∧ ∀ b', (w.level l).book = some b' → b' = b

/-- What holds while a book is copied into book `b`: nothing that was there at the start changes. -/
structure Copying (b : BookRef) (w₀ w : World P) : Prop where
  wired : Wired w
  untouched : ∀ l < w₀.nextLevel, Untouched w₀ w l
  stored : ∀ b' s q, b' ≠ b → stored w b' s q = stored w₀ b' s q
  check : ∀ b', (w.book b').checkVisibility = (w₀.book b').checkVisibility
  nextEntry : w₀.nextEntry ≤ w.nextEntry
  nextLevel : w₀.nextLevel ≤ w.nextLevel

theorem Copying.refl (h : Wired w) (b : BookRef) : Copying b w w :=
  ⟨h, fun l _ => Untouched.refl w l, fun _ _ _ _ => rfl, fun _ => rfl, le_rfl, le_rfl⟩

theorem Copying.stores (h : Copying b w₀ w) {s : Side} {q : Option P} (hstores : Stores b s q w.nextLevel w w') :
    Copying b w₀ w' where
  wired := hstores.wired
  untouched l hl := (h.untouched l hl).trans
    (hstores.frame.untouched h.wired (Nat.ne_of_lt (hl.trans_le h.nextLevel)))
  stored b' s' q' hb' := by
    rw [hstores.stored, if_neg fun heq => hb' heq.1]
    exact h.stored b' s' q' hb'
  check b' := (hstores.check b').trans (h.check b')
  nextEntry := h.nextEntry.trans hstores.frame.nextEntry
  nextLevel := h.nextLevel.trans hstores.frame.nextLevel

theorem Copying.modifyBook (h : Copying b w₀ w) {f : Book P → Book P} (hf : SamePlaces (w.book b) (f (w.book b)))
    (hcheck : (f (w.book b)).checkVisibility = (w.book b).checkVisibility) :
    Copying b w₀ (w.modifyBook b f) where
  wired := by
    refine h.wired.modifyBook (fun {s p l} hl => ?_) (fun {s l} hl => ?_)
    · rwa [hf.levels] at hl
    · rwa [hf.marketOrders] at hl
  untouched l hl := (h.untouched l hl).trans ⟨rfl, fun _ _ => rfl⟩
  stored b' s q hb' := (stored_modifyBook hf b' s q).trans (h.stored b' s q hb')
  check b' := by
    rw [← h.check b']
    by_cases hb : b' = b <;> simp [hb, hcheck]
  nextEntry := h.nextEntry
  nextLevel := h.nextLevel

theorem applySideLevel_add (h : Wired w) (b : BookRef) (hside : side ≠ .unknown) (hlt : level < w.nextLevel)
    (hlevel : (w.level level).side = side) (haction : (w.level level).action = .add) (hcopy : Copyable w level)
    (hfree : findLevel w b side (w.level level).price = none) :
    let o := applySideLevel b side level w
    o.error = none ∧ Stores b side (some (w.level level).price) w.nextLevel w o.state ∧
      IsCopy w o.state level w.nextLevel b := by
  have ho : applySideLevel b side level w = .ok (insertCopy w b side level) := by
    simp only [applySideLevel, byAction, haction, addLevelSide, addLevelWith, hfree, rethrow_ok]
  rw [ho]
  exact ⟨rfl, insertCopy_stores h b hside hlt hlevel hcopy⟩

theorem applySide_pointwise (b : BookRef) (side : Side) (target : P → Option LevelView)
    (price : LevelRef → P) {m : Std.TreeMap P LevelRef} {I : World P → Prop}
    (hkeys : ∀ p l, m[p]? = some l → price l = p) (hI : I w)
    (hbody : ∀ p l, m[p]? = some l → ∀ w', I w' →
      placeView w' b side (some p) = placeView w b side (some p) →
      let o := applySideLevel b side l w'
      o.error = none ∧ I o.state ∧ placeView o.state b side (some p) = target p ∧
        ∀ b' s q, ¬ (b' = b ∧ s = side ∧ q = some p) →
          placeView o.state b' s q = placeView w' b' s q) :
    let o := applySide b side m w
    o.error = none ∧ I o.state ∧
      (∀ p, placeView o.state b side (some p) =
        if m[p]?.isSome then target p else placeView w b side (some p)) ∧
      ∀ b' s q, ¬ (b' = b ∧ s = side ∧ q ≠ none) → placeView o.state b' s q = placeView w b' s q := by
  have hnodup : ((iterate m).map fun l => (b, side, some (price l))).Nodup := by
    have hmap : (iterate m).map (fun l => (b, side, some (price l))) =
        ((iterate m).map price).map fun p => (b, side, some p) := by simp
    rw [hmap]
    exact (nodup_map_iterate hkeys).map fun p p' heq => by simpa using heq
  obtain ⟨hok, hstate, hdone, hrest⟩ := each_pointwise
    (fun w (k : BookRef × Side × Option P) => placeView w k.1 k.2.1 k.2.2)
    (fun l => target (price l)) (applySideLevel b side) (I := I) (s := w) hnodup hI
    fun l hl w' hw' hview => by
      obtain ⟨p, hp⟩ := mem_iterate.mp hl
      simp only [hkeys p l hp] at hview ⊢
      obtain ⟨hok, hstate, hself, hother⟩ := hbody p l hp w' hw' hview
      refine ⟨hok, hstate, hself, fun k hk => hother k.1 k.2.1 k.2.2 fun heq => hk ?_⟩
      rw [← heq.1, ← heq.2.1, ← heq.2.2]
  refine ⟨hok, hstate, fun p => ?_, fun b' s q hk => ?_⟩
  · cases hp : m[p]? with
    | some l =>
      have hself := hdone l (mem_iterate.mpr ⟨p, hp⟩)
      simp only [hkeys p l hp] at hself
      exact hself
    | none =>
      refine hrest (b, side, some p) fun hmem => ?_
      obtain ⟨l, hl, heq⟩ := List.mem_map.mp hmem
      obtain ⟨p', hp'⟩ := mem_iterate.mp hl
      have hpp : price l = p := by simpa using heq
      rw [← hkeys p' l hp', hpp, hp] at hp'
      cases hp'
  · refine hrest (b', s, q) fun hmem => hk ?_
    obtain ⟨l, -, heq⟩ := List.mem_map.mp hmem
    simp only [Prod.mk.injEq] at heq
    exact ⟨heq.1.symm, heq.2.1.symm, by simp [← heq.2.2]⟩

theorem applySide_copies (hside : side ≠ .unknown) (h₀ : Wired w₀) (hdup : Duplicable w₀ rhs) (hw : Copying b w₀ w)
    (hempty : ∀ p, findLevel w b side p = none) :
    let o := applySide b side ((w₀.book rhs).levels side) w
    o.error = none ∧ Copying b w₀ o.state ∧
      (∀ p, placeView o.state b side (some p) = placeView w₀ rhs side (some p)) ∧
      ∀ b' s q, ¬ (b' = b ∧ s = side ∧ q ≠ none) → placeView o.state b' s q = placeView w b' s q := by
  have hfind : ∀ {p l}, ((w₀.book rhs).levels side)[p]? = some l → findLevel w₀ rhs side p = some l := fun hl => hl
  obtain ⟨hok, hcopying, hself, hother⟩ := applySide_pointwise b side
    (fun p => placeView w₀ rhs side (some p)) (fun l => (w₀.level l).price) (w := w)
    (fun p l hl => (h₀.slot (hfind hl)).1) hw fun p l hp w' hw' hview => by
      obtain ⟨hprice, hlside⟩ := h₀.slot (hfind hp)
      obtain ⟨haction, hcopy, -⟩ := hdup side (some p) l hp
      have hlt := h₀.lt_nextLevel (hfind hp)
      have hl' := hw'.untouched l hlt
      have hfree : findLevel w' b side (w'.level l).price = none := by
        rw [hl'.level, hprice]
        exact bookView_eq_none.mp (hview.trans (bookView_eq_none.mpr (hempty p)))
      obtain ⟨hok, hstores, hiscopy⟩ := applySideLevel_add hw'.wired b hside
        (hlt.trans_le hw'.nextLevel) (by rw [hl'.level, hlside]) (by rw [hl'.level, haction])
        (hcopy.untouched hl' hw'.check) hfree
      rw [hl'.level, hprice] at hstores
      refine ⟨hok, hw'.stores hstores, ?_, fun b' s q hk => hstores.placeView_other hw'.wired hk⟩
      rw [hstores.placeView_self, hiscopy.levelView, hl'.levelView, placeView_some, bookView_of_findLevel (hfind hp)]
  refine ⟨hok, hcopying, fun p => ?_, hother⟩
  rw [hself p]
  cases hp : ((w₀.book rhs).levels side)[p]? with
  | some l => rfl
  | none =>
    rw [placeView_some, placeView_some, bookView_eq_none.mpr (hempty p), bookView_eq_none.mpr hp]
    rfl

theorem applyMarketOrders_copies (hside : side ≠ .unknown) (h₀ : Wired w₀) (hdup : Duplicable w₀ rhs)
    (hw : Copying b w₀ w) (hempty : (w.book b).marketOrders side = none) :
    let o := applyMarketOrders b side ((w₀.book rhs).marketOrders side) w
    o.error = none ∧ Copying b w₀ o.state ∧
      placeView o.state b side none = placeView w₀ rhs side none ∧
      ∀ b' s q, ¬ (b' = b ∧ s = side ∧ q = none) → placeView o.state b' s q = placeView w b' s q := by
  cases hl : (w₀.book rhs).marketOrders side with
  | none =>
    refine ⟨rfl, hw, ?_, fun _ _ _ _ => rfl⟩
    simp only [applyMarketOrders, ok_state, placeView, stored, hempty, hl, Option.map_none]
  | some l =>
    have hplace : stored w₀ rhs side none = some l := hl
    obtain ⟨haction, hcopy, -⟩ := hdup side none l hplace
    have hlt := h₀.allocated hplace
    have hl' := hw.untouched l hlt
    have ho : applyMarketOrders b side (some l) w = .ok (insertMarketCopy w b side l) := by
      cases side <;> simp_all [applyMarketOrders, applyMarketOrderSide, byAction, hl'.level,
        addMarketOrderLevelSide, onMarketOrders]
    obtain ⟨hstores, hiscopy⟩ := insertMarketCopy_stores hw.wired b hside
      (hlt.trans_le hw.nextLevel) (hcopy.untouched hl' hw.check)
    rw [ho]
    refine ⟨rfl, hw.stores hstores, ?_, fun b' s q hk => hstores.placeView_other hw.wired hk⟩
    rw [ok_state, hstores.placeView_self, hiscopy.levelView, hl'.levelView, placeView, hplace, Option.map_some]

/-! ### Copying a book -/

/-- What the copy of a book into another changes, and what it leaves. -/
structure BookCopied (b rhs : BookRef) (w w' : World P) : Prop where
  wired : Wired w'
  view : ∀ s q, placeView w' b s q = placeView w rhs s q
  untouched : ∀ l < w.nextLevel, Untouched w w' l
  stored : ∀ b' s q, b' ≠ b → stored w' b' s q = stored w b' s q
  check : ∀ b', (w'.book b').checkVisibility =
    (w.book (if b' = b then rhs else b')).checkVisibility
  nextEntry : w.nextEntry ≤ w'.nextEntry
  nextLevel : w.nextLevel ≤ w'.nextLevel

theorem Book.applyBook_copies (h : Wired w) (hdup : Duplicable w rhs) (hempty : ∀ s q, stored w b s q = none) :
    let o := applyBook w b rhs
    o.error = none ∧ Copying b w o.state ∧ ∀ s q, placeView o.state b s q = placeView w rhs s q := by
  have hbid : Side.bid ≠ .unknown := by decide
  have hask : Side.ask ≠ .unknown := by decide
  -- The symbol is set first.
  set w₁ := w.modifyBook b fun bk => { bk with symbol := (w.book rhs).symbol } with hw₁
  have hc₁ : Copying b w w₁ := (Copying.refl h b).modifyBook ⟨rfl, rfl, rfl, rfl⟩ rfl
  have hempty₁ : ∀ s q, placeView w₁ b s q = none := fun s q =>
    (placeView_modifyBook ⟨rfl, rfl, rfl, rfl⟩ b s q).trans (placeView_eq_none.mpr (hempty s q))
  -- The four stages: bid levels, ask levels, bid market orders, ask market orders.
  obtain ⟨hok₂, hc₂, hself₂, hother₂⟩ := applySide_copies hbid h hdup hc₁
    fun p => placeView_eq_none.mp (hempty₁ .bid (some p))
  set w₂ := (applySide b .bid ((w.book rhs).levels .bid) w₁).state
  obtain ⟨hok₃, hc₃, hself₃, hother₃⟩ := applySide_copies hask h hdup hc₂ fun p =>
    placeView_eq_none.mp ((hother₂ b .ask (some p) (by simp)).trans (hempty₁ .ask (some p)))
  set w₃ := (applySide b .ask ((w.book rhs).levels .ask) w₂).state
  have hmarket₃ : ∀ s, placeView w₃ b s none = none := fun s => by
    rw [hother₃ b s none (by simp), hother₂ b s none (by simp), hempty₁]
  obtain ⟨hok₄, hc₄, hself₄, hother₄⟩ := applyMarketOrders_copies hbid h hdup hc₃ (placeView_eq_none.mp (hmarket₃ .bid))
  set w₄ := (applyMarketOrders b .bid ((w.book rhs).marketOrders .bid) w₃).state
  obtain ⟨hok₅, hc₅, hself₅, hother₅⟩ := applyMarketOrders_copies hask h hdup hc₄
    (placeView_eq_none.mp ((hother₄ b .ask none (by simp)).trans (hmarket₃ .ask)))
  set w₅ := (applyMarketOrders b .ask ((w.book rhs).marketOrders .ask) w₄).state
  have hview₅ : ∀ s q, placeView w₅ b s q = placeView w rhs s q := by
    intro s q
    cases s with
    | bid =>
      rw [hother₅ b .bid q (by simp)]
      cases q with
      | none => exact hself₄
      | some p => rw [hother₄ b .bid (some p) (by simp), hother₃ b .bid (some p) (by simp), hself₂]
    | ask =>
      cases q with
      | none => exact hself₅
      | some p => rw [hother₅ b .ask (some p) (by simp), hother₄ b .ask (some p) (by simp), hself₃]
    | unknown =>
      have hnone : ∀ (w : World P) b, placeView w b .unknown q = none := fun w b =>
        placeView_eq_none.mpr (by cases q <;> simp [stored, findLevel, Book.marketOrders])
      rw [hnone, hnone]
  -- The part id at the end changes nothing in view.
  have ho : applyBook w b rhs =
      if (w.book rhs).hasPartId || (w₅.book b).hasPartId then .ok (setPartId w₅ b (w.book rhs).partId)
      else .ok w₅ := by
    have e₂ : applySide b .bid (w.book rhs).bidLevels w₁ = .ok w₂ := eq_ok hok₂
    have e₃ : applySide b .ask (w.book rhs).askLevels w₂ = .ok w₃ := eq_ok hok₃
    have e₄ : applyMarketOrders b .bid (w.book rhs).bidMarketOrders w₃ = .ok w₄ := eq_ok hok₄
    have e₅ : applyMarketOrders b .ask (w.book rhs).askMarketOrders w₄ = .ok w₅ := eq_ok hok₅
    simp only [applyBook, ← hw₁, ok_andThen, e₂, e₃, e₄, e₅]
  rw [ho]
  split
  · dsimp only [ok_state, setPartId]
    refine ⟨rfl, hc₅.modifyBook ?_ rfl, fun s q => ?_⟩
    · exact ⟨rfl, rfl, rfl, rfl⟩
    · rw [placeView_modifyBook ⟨rfl, rfl, rfl, rfl⟩ b s q]
      exact hview₅ s q
  · exact ⟨rfl, hc₅, hview₅⟩

theorem Book.copied (h : Wired w) (hne : rhs ≠ b) (hdup : Duplicable w rhs) :
    (Book.copy w b rhs).error = none ∧ BookCopied b rhs w (Book.copy w b rhs).state := by
  set cleared := (clear w b true).modifyBook b fun bk =>
    { bk with
      isConsistent := (w.book rhs).isConsistent
      checkVisibility := (w.book rhs).checkVisibility
      needsReevaluation := (w.book rhs).needsReevaluation } with hcleared
  have hother : ∀ b', b' ≠ b → cleared.book b' = w.book b' := fun b' hb' => by simp [hcleared, clear, hb']
  have hempty : ∀ s q, stored cleared b s q = none := by
    intro s q
    cases q <;> cases s <;>
      simp [hcleared, clear, stored, findLevel, Book.levels, Book.marketOrders]
  have hstored : ∀ {b' s q l}, stored cleared b' s q = some l → stored w b' s q = some l := by
    intro b' s q l hl
    by_cases hb : b' = b
    · subst hb
      rw [hempty] at hl
      cases hl
    · rwa [stored_congr (hother b' hb)] at hl
  have huntouched : ∀ l, Untouched w cleared l := fun l => ⟨rfl, fun _ _ => rfl⟩
  have hwired : Wired cleared := h.congr hstored (fun _ => ⟨rfl, rfl, rfl⟩) (fun _ _ => rfl)
    (fun _ => SameContent.refl _) le_rfl le_rfl
  have hdup' : Duplicable cleared rhs := by
    intro s q l hl
    obtain ⟨haction, ⟨hplace, hview⟩, howner⟩ := hdup s q l (hstored hl)
    refine ⟨haction, ⟨hplace, hview.untouched (huntouched l) ?_⟩, howner⟩
    cases hbook : (w.level l).book with
    | none => simp [World.checkState, hcleared, clear, hbook]
    | some b' =>
      obtain rfl := howner b' hbook
      simp [World.checkState, hcleared, clear, hbook, hne]
  obtain ⟨hok, hcopying, hview⟩ := Book.applyBook_copies hwired hdup' hempty
  refine ⟨hok, hcopying.wired, fun s q => ?_, fun l hl => (huntouched l).trans (hcopying.untouched l hl),
    fun b' s q hb' => (hcopying.stored b' s q hb').trans (stored_congr (hother b' hb') s q),
    fun b' => ?_, hcopying.nextEntry, hcopying.nextLevel⟩
  · rw [Book.copy, hview s q]
    exact Untouched.placeView (stored_congr (hother rhs hne) s q) fun l _ => huntouched l
  · rw [Book.copy, hcopying.check b']
    by_cases hb' : b' = b <;> simp [hcleared, clear, hb']

end OpenMama.OrderBook
