import OpenMama.OrderBook.Replay

/-!
# Applying a list of deltas

The deltas of a list that are about one place of a book are a computation on the view of the level there
(`replayDelta`), which reads the live levels and entries the deltas point at. A list that names its places one after
the other can then be followed place by place.
-/

namespace OpenMama.OrderBook

open Book Outcome Option

variable {P : Type} [LinearOrder P]

/-- What a delta makes of what is at its place; `none` if applying it throws. -/
def replayDelta (w : World P) (v : Option LevelView) (delta : BasicDelta) : Option (Option LevelView) :=
  match delta.priceLevel with
  | none => none
  | some l =>
    match delta.plAction, v with
    | .add, none => some (some (levelView w l))
    | .add, some _ => none
    | .update, none => none
    | .update, some v => some (some ((levelView w l).withEntries (deltaEffect w delta v.entries)))
    | .delete, none => none
    | .delete, some _ => some none
    | .unknown, v => some v

/-- A delta for the place `(s, p)` whose level is not book `c`'s. -/
structure Aimed (c : BookRef) (w : World P) (s : Side) (p : P) (l : LevelRef) (delta : BasicDelta) : Prop where
  level : delta.priceLevel = some l
  price : (w.level l).price = p
  side : (w.level l).side = s
  known : s ≠ .unknown
  limit : (w.level l).orderType ≠ .market
  outside : ¬ Reaches c w l

theorem Aimed.of_stored {b c : BookRef} {w : World P} {s : Side} {p : P} {l : LevelRef}
    {delta : BasicDelta} (hw : Wired w) (hl : findLevel w b s p = some l) (hc : c ≠ b)
    (hlevel : delta.priceLevel = some l) (hlimit : (w.level l).orderType ≠ .market) :
    Aimed c w s p l delta :=
  ⟨hlevel, (hw.slot hl).1, (hw.slot hl).2, side_ne_unknown hl, hlimit,
    not_reaches (q := some p) hw hl hc.symm⟩

/-- Such a delta whose entry is not book `c`'s either, and whose level can be copied if it has to be. -/
structure Foreign (c : BookRef) (w : World P) (s : Side) (p : P) (l : LevelRef)
    (delta : BasicDelta) : Prop extends Aimed c w s p l delta where
  entry : delta.plAction = .update → ∀ e, delta.entry = some e →
    ∃ n l', e = .obj n ∧ n < w.nextEntry ∧ (w.entry e).priceLevel = some l' ∧ ¬ Reaches c w l'
  copyable : delta.plAction = .add → Copyable w l

/-- What one delta, or all deltas for one place, did to book `c`: its place shows `v`, and everything
else is as it was. -/
structure Shows (c : BookRef) (s : Side) (p : P) (w₀ w w' : World P) (v : Option LevelView) : Prop where
  confined : Confined c w₀ w'
  self : placeView w' c s (some p) = v
  other : ∀ b' s' q', ¬ (b' = c ∧ s' = s ∧ q' = some p) → placeView w' b' s' q' = placeView w b' s' q'

section Delta

variable {c : BookRef} {w₀ w : World P} {s : Side} {p : P} {l : LevelRef} {delta : BasicDelta}

variable (hw : Confined c w₀ w) (h₀ : Wired w₀)
include hw h₀

theorem Confined.deltaEffect_eq (hd : Foreign c w₀ s p l delta) (haction : delta.plAction = .update)
    (entries : List EntryView) : deltaEffect w delta entries = deltaEffect w₀ delta entries := by
  cases he : delta.entry with
  | none => simp only [deltaEffect, he]
  | some e =>
    obtain ⟨n, _, rfl, hn, hlevel, hout⟩ := hd.entry haction e he
    have hsame : w.entry (.obj n) = w₀.entry (.obj n) := by
      refine hw.within.entry n hn fun l'' hl'' hmem => hout ?_
      rwa [Option.some.inj (hlevel.symm.trans (h₀.listed hmem).2)]
    simp only [deltaEffect, he, entryView, hsame]

theorem Confined.applyDelta_blocked (hd : Aimed c w₀ s p l delta) (haction : delta.plAction = .add) {v : LevelView}
    (hv : placeView w c s (some p) = some v) : (applyDelta c delta w).error ≠ none := by
  have hl := hw.within.untouched h₀ hd.outside
  obtain ⟨found, hfound, -⟩ := map_eq_some_iff.mp hv
  have hfind : findLevel w c s p = some found := hfound
  rw [applyDelta_eq hd.level (by rw [hl.level]; exact hd.limit) (by rw [hl.level, hd.side]) hd.known]
  simp [applySideDelta, byAction, haction, addLevelSideDelta, addLevelWith, hl.level, hd.price, hfind]

theorem Confined.replayDelta (hd : Foreign c w₀ s p l delta) :
    ((applyDelta c delta w).error = none ↔
      (OrderBook.replayDelta w₀ (placeView w c s (some p)) delta).isSome) ∧
    ∀ v, OrderBook.replayDelta w₀ (placeView w c s (some p)) delta = some v →
      Shows c s p w₀ w (applyDelta c delta w).state v := by
  have hl := hw.within.untouched h₀ hd.outside
  have hprice : (w.level l).price = p := by rw [hl.level, hd.price]
  have hside : (w.level l).side = s := by rw [hl.level, hd.side]
  have hlimit : (w.level l).orderType ≠ .market := by rw [hl.level]; exact hd.limit
  have hlt : l < w.nextLevel := by
    refine (Nat.lt_of_not_le fun hle => hd.outside (.inl hle)).trans_le hw.within.nextLevel
  have heq := applyDelta_eq (b := c) hd.level hlimit hside hd.known
  have hview : placeView w c s (some p) = (findLevel w c s p).map (levelView w) := rfl
  simp only [OrderBook.replayDelta, hd.level, hview]
  cases haction : delta.plAction with
  | add =>
    cases hfind : findLevel w c s p with
    | none =>
      obtain ⟨hok, hstores, hiscopy⟩ := applyDelta_add (b := c) hd.level hlimit hside hd.known
        hw.wired haction hlt ((hd.copyable haction).untouched hl hw.check) (by rw [hprice, hfind])
      rw [hprice] at hstores
      simp only [map_none, isSome_some, iff_true]
      refine ⟨hok, fun v hv => ?_⟩
      cases hv
      refine ⟨hw.stores hstores (.inl hw.within.nextLevel), ?_, fun b' s' q' hne => ?_⟩
      · rw [hstores.placeView_self, hiscopy.levelView, hl.levelView]
      · exact hstores.placeView_other hw.wired hne
    | some _ =>
      simp [haction, heq, applySideDelta, byAction, addLevelSideDelta,
        addLevelWith, hprice, hfind]
  | update =>
    cases hfind : findLevel w c s p with
    | none =>
      simp [haction, heq, applySideDelta, byAction, applyLevelSideDelta,
        updateLevelWith, hprice, hfind]
    | some found =>
      have hreach := hw.reaches (q := some p) hfind
      have hne : l ≠ found := fun h => hd.outside (h ▸ hreach)
      obtain ⟨hok, hstores, hview'⟩ := applyDelta_update (b := c) hd.level hlimit hside hd.known
        hw.wired haction (by rw [hprice, hfind]) hne
      rw [hprice] at hstores
      simp only [map_some, isSome_some, iff_true]
      refine ⟨hok, fun v hv => ?_⟩
      cases hv
      refine ⟨hw.stores hstores hreach, ?_, fun b' s' q' hne => ?_⟩
      · rw [hstores.placeView_self, hview', hl.levelView, hw.deltaEffect_eq h₀ hd haction]
        rfl
      · exact hstores.placeView_other hw.wired hne
  | delete =>
    cases hfind : findLevel w c s p with
    | none =>
      simp [haction, heq, applySideDelta, byAction, deleteLevelSide,
        hprice, hfind]
    | some found =>
      have ho := applyDelta_delete (b := c) hd.level hlimit hside hd.known haction (by rw [hprice, hfind])
      rw [hprice] at ho
      have hvacates : Vacates c s (some p) found w (eraseLevel w c s p) := by
        refine ⟨hw.wired.eraseLevel c s p, (Frame.refl found w).modifyBook c _, fun b' s' q' =>
          stored_eraseLevel, fun b' => ?_⟩
        by_cases hb : b' = c <;> simp [eraseLevel, hb]
      simp only [map_some, isSome_some, iff_true, ho]
      refine ⟨rfl, fun v hv => ?_⟩
      cases hv
      refine ⟨hw.vacates hvacates (hw.reaches (q := some p) hfind), hvacates.placeView_self,
        fun b' s' q' hne => hvacates.placeView_other hw.wired hfind hne⟩
  | unknown =>
    have ho : applyDelta c delta w = .ok w := by
      rw [heq]
      simp [applySideDelta, byAction, haction]
    simp only [isSome_some, iff_true, ho]
    refine ⟨rfl, fun v hv => ?_⟩
    cases hv
    exact ⟨hw, rfl, fun _ _ _ _ => rfl⟩

theorem Confined.replayDeltas {deltas : List BasicDelta} (hd : ∀ d ∈ deltas, ∃ l, Foreign c w₀ s p l d) :
    ((applyDeltas c deltas w).error = none ↔
      (deltas.foldlM (OrderBook.replayDelta w₀) (placeView w c s (some p))).isSome) ∧
    ∀ v, deltas.foldlM (OrderBook.replayDelta w₀) (placeView w c s (some p)) = some v →
      Shows c s p w₀ w (applyDeltas c deltas w).state v := by
  induction deltas generalizing w with
  | nil =>
    refine ⟨by simp [applyDeltas, each], fun v hv => ?_⟩
    cases hv
    exact ⟨hw, rfl, fun _ _ _ _ => rfl⟩
  | cons d _ ih =>
    obtain ⟨l, hl⟩ := hd d (by simp)
    obtain ⟨herror, hshows⟩ := hw.replayDelta h₀ hl
    simp only [applyDeltas, each, List.foldlM_cons, bind_eq_bind]
    cases hv : OrderBook.replayDelta w₀ (placeView w c s (some p)) d with
    | none =>
      rw [hv] at herror
      simp [andThen_error_eq_none, herror]
    | some v =>
      have hok := herror.mpr (by rw [hv]; rfl)
      have hstep := hshows v hv
      rw [andThen_of_ok hok, ← hstep.self]
      obtain ⟨herror', hshows'⟩ := ih hstep.confined fun d hd' => hd d (by simp [hd'])
      refine ⟨herror', fun v' hv' => ?_⟩
      have hrest := hshows' v' hv'
      exact ⟨hrest.confined, hrest.self, fun b' s' q' hne =>
        (hrest.other b' s' q' hne).trans (hstep.other b' s' q' hne)⟩

end Delta

/-- The deltas of one place. -/
structure Block (P : Type) where
  side : Side
  price : P
  deltas : List BasicDelta

namespace Block

def place (k : Block P) : Side × P := (k.side, k.price)

def replay (w : World P) (k : Block P) (v : Option LevelView) : Option (Option LevelView) :=
  k.deltas.foldlM (replayDelta w) v

/-- Every delta of the block is for its place, and its level and entry are not book `c`'s. -/
def Foreign (c : BookRef) (w : World P) (k : Block P) : Prop :=
  ∀ d ∈ k.deltas, ∃ l, OrderBook.Foreign c w k.side k.price l d

def Blocked (c : BookRef) (w : World P) (k : Block P) : Prop :=
  ∃ d ds l v, k.deltas = d :: ds ∧ Aimed c w k.side k.price l d ∧ d.plAction = .add ∧
    placeView w c k.side (some k.price) = some v

end Block

section Blocks

variable {c : BookRef} {w : World P} {blocks : List (Block P)}

theorem applyDeltas_blocks_error (h : Wired w) (hplaces : (blocks.map Block.place).Nodup)
    (hblocks : ∀ k ∈ blocks, k.Foreign c w ∨ k.Blocked c w) :
    (applyDeltas c (blocks.flatMap Block.deltas) w).error = none ↔
      ∀ k ∈ blocks, (k.replay w (placeView w c k.side (some k.price))).isSome := by
  rw [applyDeltas, each_flatMap]
  refine each_pointwise_error (fun w' (k : Side × P) => placeView w' c k.1 (some k.2)) _ _
    hplaces (I := Confined c w) (Confined.refl h c) fun k hk w' hw' hview => ?_
  change placeView w' c k.side (some k.price) = placeView w c k.side (some k.price) at hview
  rcases hblocks k hk with hforeign | ⟨d, _, l, v, hds, haimed, haction, hv⟩
  swap
  · have hnone : (k.replay w (placeView w c k.side (some k.price))).isSome = false := by
      simp [Block.replay, hds, replayDelta, haimed.level, haction, hv]
    rw [hnone]
    refine ⟨⟨fun hok => ?_, nofun⟩, nofun⟩
    rw [hds, each, andThen_error_eq_none] at hok
    exact absurd hok.1 (hw'.applyDelta_blocked h haimed haction (hview.trans hv))
  obtain ⟨herror, hshows⟩ := hw'.replayDeltas h hforeign
  rw [hview] at herror hshows
  refine ⟨herror, fun hgood => ?_⟩
  obtain ⟨v, hv⟩ := isSome_iff_exists.mp hgood
  refine ⟨(hshows v hv).confined, fun k' hne => (hshows v hv).other c k'.1 (some k'.2) ?_⟩
  rintro ⟨-, hside, hprice⟩
  exact hne (Prod.ext hside (Option.some.inj hprice))

theorem applyDeltas_blocks (h : Wired w) (hplaces : (blocks.map Block.place).Nodup)
    (hforeign : ∀ k ∈ blocks, k.Foreign c w) (target : Block P → Option LevelView)
    (hreplay : ∀ k ∈ blocks, k.replay w (placeView w c k.side (some k.price)) = some (target k)) :
    let o := applyDeltas c (blocks.flatMap Block.deltas) w
    o.error = none ∧ Confined c w o.state ∧
      (∀ k ∈ blocks, placeView o.state c k.side (some k.price) = target k) ∧
      ∀ s p, (s, p) ∉ blocks.map Block.place →
        placeView o.state c s (some p) = placeView w c s (some p) := by
  rw [applyDeltas, each_flatMap]
  obtain ⟨hok, hconfined, hself, hother⟩ := each_pointwise
    (fun w' (k : Side × P) => placeView w' c k.1 (some k.2)) target
    (fun k => each (applyDelta c) k.deltas) hplaces (I := Confined c w)
    (Confined.refl h c) fun k hk w' hw' hview => by
      obtain ⟨herror, hshows⟩ := hw'.replayDeltas h (hforeign k hk)
      change placeView w' c k.side (some k.price) = placeView w c k.side (some k.price) at hview
      rw [hview] at herror hshows
      have hstep := hshows _ (hreplay k hk)
      refine ⟨herror.mpr ?_, hstep.confined, hstep.self, fun k' hne => hstep.other c k'.1 (some k'.2) ?_⟩
      · rw [show k.deltas.foldlM (replayDelta w) _ = _ from hreplay k hk]
        rfl
      · rintro ⟨-, hside, hprice⟩
        exact hne (Prod.ext hside (Option.some.inj hprice))
  exact ⟨hok, hconfined, hself, fun s p hne => hother (s, p) hne⟩

end Blocks

end OpenMama.OrderBook
