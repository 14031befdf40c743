import OpenMama.QuoteBook.Sides
import OpenMama.Listener.Delivery

/-!
# The deltas of a quote

`Complete` is what the handlers may rely on: each is called once, all see the same deltas, and the changes they report
make the sizes of before those of after. The change that is recorded for a deleted level is zero, and the list of
deltas is cleared after the first handler. `reported_complete_iff` says when neither matters.
-/

namespace OpenMama.QuoteBook

open OrderBook OrderBook.Book List State
open Listener (Session Handler Call Recording Collected)
open DataQuality (MsgType)

variable {P : Type} [LinearOrder P]

/-! ### Sizes and reported changes -/

def sizeAt (w : World P) (b : BookRef) (side : Side) (p : P) : Int :=
  ((levelAt w b side p).map Prod.snd).getD 0

/-- What a delta reports for a price of a side. The side and the price are those of its level. -/
def changeAt (w : World P) (side : Side) (p : P) (d : BasicDelta) : Int :=
  match d.priceLevel with
  | some l => if (w.level l).side = side ∧ (w.level l).price = p then d.plDeltaSize else 0
  | none => 0

def reported (w : World P) (side : Side) (p : P) (ds : List BasicDelta) : Int :=
  (ds.map (changeAt w side p)).sum

def seenBy : Call → Option (Handler × List BasicDelta)
  | .onBookDelta handler seen => some (handler, [seen])
  | .onBookComplexDelta handler seen => seen.map (handler, ·)
  | _ => none

/-- Every handler was called once, in order; all saw the same deltas; and their changes add up to the new
sizes. -/
def Complete [Zero P] (c : Settings P) (s s' : State P) : Prop :=
  ∃ calls ds, s'.log = s.log ++ calls ∧ calls.map seenBy = s.handlers.map (fun h => some (h, ds)) ∧
    (s.handlers ≠ [] → ∀ side, side ≠ .unknown → ∀ p,
      sizeAt s'.book c.book side p = sizeAt s.book c.book side p + reported s'.book side p ds)

variable {w w' : World P} {b : BookRef} {side : Side} {p : P} {l : LevelRef} {size : Option Int} {ds : List BasicDelta}
  {p₀ : P}

theorem reported_append (w : World P) (side : Side) (p : P) (ds ds' : List BasicDelta) :
    reported w side p (ds ++ ds') = reported w side p ds + reported w side p ds' := by
  rw [reported, map_append, sum_append]
  rfl

section

omit [LinearOrder P]

theorem seenBy_sees (ds : List (Recording P)) (handler : Handler) :
    seenBy (Collected.sees ds handler) = some (handler, ds.map (·.delta)) := by
  match ds with
  | [] => rfl
  | [_] => rfl
  | _ :: _ :: _ => rfl

theorem told_seenBy_iff {ds : List (Recording P)} (hds : ds ≠ []) (handlers : List Handler) (seen : List BasicDelta) :
    (Session.told ds handlers).map seenBy = handlers.map (fun handler => some (handler, seen)) ↔
      handlers = [] ∨ seen = ds.map (·.delta) ∧ (ds.length = 1 ∨ handlers.length ≤ 1) := by
  cases handlers with
  | nil => simp [Session.told]
  | cons handler rest =>
    have hmap : (seenBy ∘ Collected.sees (if ds.length = 1 then ds else [])) =
        fun handler => some (handler, (if ds.length = 1 then ds else []).map (·.delta)) :=
      funext fun handler => seenBy_sees _ handler
    rw [Session.told, map_cons, map_cons, map_map, hmap, seenBy_sees]
    simp only [List.cons.injEq, Option.some.injEq, Prod.mk.injEq, true_and, map_inj_left,
      reduceCtorEq, false_or, length_cons]
    rw [eq_comm]
    refine and_congr_right fun hseen => ?_
    by_cases hone : ds.length = 1
    · simp [hone, hseen]
    · cases rest with
      | nil => simp
      | cons second _ =>
        refine iff_of_false (fun hall => ?_) (by simp [hone])
        have hsecond := hall second mem_cons_self
        simp [hone, hseen, hds] at hsecond

end

def AllOn (w : World P) (side : Side) (ds : List BasicDelta) : Prop :=
  ∀ d ∈ ds, ∃ l, d.priceLevel = some l ∧ l < w.nextLevel ∧ (w.level l).side = side

structure KeepsLevels (w w' : World P) : Prop where
  kept : ∀ l < w.nextLevel, (w'.level l).side = (w.level l).side ∧ (w'.level l).price = (w.level l).price
  nextLevel : w.nextLevel ≤ w'.nextLevel

theorem KeepsLevels.trans {w'' : World P} (h : KeepsLevels w w') (h' : KeepsLevels w' w'') : KeepsLevels w w'' := by
  refine ⟨fun l hl => ?_, h.nextLevel.trans h'.nextLevel⟩
  obtain ⟨hside, hprice⟩ := h.kept l hl
  obtain ⟨hside', hprice'⟩ := h'.kept l (hl.trans_le h.nextLevel)
  exact ⟨hside'.trans hside, hprice'.trans hprice⟩

theorem Placed.keepsLevels (h : Placed b side p l size w w') : KeepsLevels w w' := { h with }

theorem AllOn.keep (h : KeepsLevels w w') (hds : AllOn w side ds) : AllOn w' side ds := by
  intro d hd
  obtain ⟨l, hl, hlt, hside⟩ := hds d hd
  exact ⟨l, hl, hlt.trans_le h.nextLevel, (h.kept l hlt).1.trans hside⟩

theorem AllOn.reported_keep (h : KeepsLevels w w') (hds : AllOn w side ds) (side' : Side) (p : P) :
    reported w' side' p ds = reported w side' p ds := by
  refine congrArg List.sum (map_congr_left fun d hd => ?_)
  obtain ⟨l, hl, hlt, -⟩ := hds d hd
  simp only [changeAt, hl, (h.kept l hlt).1, (h.kept l hlt).2]

theorem AllOn.reported_other {side' : Side} (hne : side' ≠ side) (hds : AllOn w side ds) (p : P) :
    reported w side' p ds = 0 := by
  refine sum_eq_zero fun x hx => ?_
  obtain ⟨d, hd, rfl⟩ := mem_map.mp hx
  obtain ⟨l, hl, -, hside⟩ := hds d hd
  simp only [changeAt, hl, hside]
  exact if_neg fun heq => hne heq.1.symm

/-! ### What one side records -/

theorem sizeAt_of_findLevel (hl : findLevel w b side p = some l) : sizeAt w b side p = (w.level l).size := by
  simp [sizeAt, levelAt, hl]

theorem sizeAt_congr (h : levelAt w' b side p = levelAt w b side p) : sizeAt w' b side p = sizeAt w b side p := by
  rw [sizeAt, h, sizeAt]

theorem Placed.sizeAt_eq (h : Placed b side p₀ l size w w') (p : P) :
    sizeAt w' b side p = if p = p₀ then size.getD 0 else sizeAt w b side p := by
  rw [sizeAt, h.levelAt]
  by_cases hp : p = p₀
  · cases size <;> simp [hp]
  · simp [hp, sizeAt]

variable [Zero P] {s : State P} {c : Settings P}

def EditsSide (c : Settings P) (side : Side) (q : Quoted P) (w : World P) : Prop :=
  q.got = true ∧ (q.isBlank c.isZero = false ∨ ∃ p, sizeAt w c.book side p ≠ 0)

/-- A message takes the level of a side away: the side is to have none, or one at another price. -/
def TakesLevel (c : Settings P) (side : Side) (q : Quoted P) (w : World P) : Prop :=
  q.got = true ∧ ∃ p, sizeAt w c.book side p ≠ 0 ∧ (q.isBlank c.isZero = true ∨ q.price ≠ p)

omit [Zero P] in
def Single (b : BookRef) (side : Side) (w : World P) : Prop :=
  ∀ p p', sizeAt w b side p ≠ 0 → sizeAt w b side p' ≠ 0 → p = p'

omit [Zero P] in
theorem Single.sizeAt_of_ne (h : Single b side w) (hl : findLevel w b side p = some l) (hnonzero : (w.level l).size ≠ 0)
    (p' : P) (hne : p' ≠ p) : sizeAt w b side p' = 0 := by
  by_contra hp'
  exact hne (h p' p hp' (by rwa [sizeAt_of_findLevel hl]))

omit [Zero P] in
theorem Placed.single (h : Placed b side p₀ l size w w') (hother : ∀ p, p ≠ p₀ → sizeAt w b side p = 0) :
    Single b side w' := by
  have hat : ∀ p, sizeAt w' b side p ≠ 0 → p = p₀ := by
    intro p hp
    by_contra hne
    rw [h.sizeAt_eq, if_neg hne] at hp
    exact hp (hother p hne)
  intro p p' hp hp'
  rw [hat p hp, hat p' hp']

omit [Zero P] in
theorem Placed.sizeAt_of_taken (h : Placed b side p₀ l none w w') (hother : ∀ p, p ≠ p₀ → sizeAt w b side p = 0)
    (p : P) :
    sizeAt w' b side p = 0 := by
  rw [h.sizeAt_eq]
  split
  · rfl
  next hne => exact hother p hne

structure Records (side : Side) (es : List (Recording P)) (s s' : State P) : Prop where
  held : ∀ ds, s.deltas.Holds ds → s'.deltas.Holds (ds ++ es)
  keepsLevels : KeepsLevels s.book s'.book
  allOn : AllOn s'.book side (es.map (·.delta))

def Accounts (c : Settings P) (side : Side) (es : List (Recording P)) (s s' : State P) : Prop :=
  ∀ p, sizeAt s'.book c.book side p =
    sizeAt s.book c.book side p + reported s'.book side p (es.map (·.delta))

theorem Records.nil (side : Side) (s : State P) : Records side [] s s where
  held ds hds := by rwa [append_nil]
  keepsLevels := ⟨fun _ _ => ⟨rfl, rfl⟩, le_rfl⟩
  allOn d hd := by simp at hd

theorem Records.trans {es es' : List (Recording P)} {s' s'' : State P} (h : Records side es s s')
    (h' : Records side es' s' s'') : Records side (es ++ es') s s'' where
  held ds hds := by
    rw [← append_assoc]
    exact h'.held _ (h.held ds hds)
  keepsLevels := h.keepsLevels.trans h'.keepsLevels
  allOn := by
    rw [map_append]
    intro d hd
    rcases mem_append.mp hd with hd | hd
    · exact h.allOn.keep h'.keepsLevels d hd
    · exact h'.allOn d hd

namespace Edited

variable {c : Settings P} {side : Side} {p₀ : P} {l : LevelRef} {size : Option Int} {change : Int}
  {action : Action} {s s' : State P}

variable (h : Edited c side p₀ l size change action s s')
include h

theorem records :
    Records side
      [{ isBid := decide (side = .bid), price := p₀,
         delta := { priceLevel := some l, plDeltaSize := change, plAction := action } }] s s' where
  held ds hds := by
    rw [h.deltas]
    exact hds.addDelta _
  keepsLevels := h.placed.keepsLevels
  allOn d hd := by
    obtain rfl := mem_singleton.mp hd
    exact ⟨l, rfl, h.placed.lt, h.placed.side⟩

theorem reported_eq (p : P) :
    reported s'.book side p [{ priceLevel := some l, plDeltaSize := change, plAction := action }] =
      if p = p₀ then change else 0 := by
  simp [reported, changeAt, h.placed.side, h.placed.price, eq_comm]

theorem accounts_iff :
    Accounts c side
      [{ isBid := decide (side = .bid), price := p₀,
         delta := { priceLevel := some l, plDeltaSize := change, plAction := action } }] s s' ↔
      size.getD 0 = sizeAt s.book c.book side p₀ + change := by
  constructor
  · intro hall
    simpa [h.placed.sizeAt_eq, h.reported_eq] using hall p₀
  · intro heq p
    rw [h.placed.sizeAt_eq, map_singleton, h.reported_eq]
    by_cases hp : p = p₀
    · rw [if_pos hp, if_pos hp, hp, heq]
    · rw [if_neg hp, if_neg hp, add_zero]

end Edited

namespace State

variable {c : Settings P} {side : Side} {s : State P}

theorem sizeAt_of_currentLevel_none (hnone : s.currentLevel c side = none) (p : P) :
    sizeAt s.book c.book side p = 0 := by
  cases hl : findLevel s.book c.book side p with
  | none => simp [sizeAt, levelAt, hl]
  | some l => rw [sizeAt_of_findLevel hl, currentLevel_eq_none hnone hl]

theorem handleSide_single (h : Tidy c.book s.book) (hside : side ≠ .unknown)
    (hsize : 0 ≤ (s.cache.quoted side).size) (hsingle : Single c.book side s.book) :
    Single c.book side (s.handleSide c side).book := by
  rcases handleSide_cases h hside rfl hsize with ⟨-, heq⟩ | ⟨⟨-, hnone, -⟩, l, hedit⟩ | ⟨l, p, -, -, hl, hnonzero, hedit⟩
  · rwa [heq]
  · exact hedit.placed.single fun p _ => sizeAt_of_currentLevel_none hnone p
  · have hother := hsingle.sizeAt_of_ne hl hnonzero
    rcases hedit with ⟨-, hedit⟩ | ⟨-, hedit⟩ | ⟨-, _, _, hdelete, hadd⟩
    · exact hedit.placed.single hother
    · exact hedit.placed.single hother
    · exact hadd.placed.single fun p' _ => hdelete.placed.sizeAt_of_taken hother p'

theorem handleSide_records (h : Tidy c.book s.book) (hside : side ≠ .unknown) {q : Quoted P}
    (hq : s.cache.quoted side = q) (hsize : 0 ≤ q.size) (hsingle : Single c.book side s.book) :
    ∃ es, Records side es s (s.handleSide c side) ∧
      (es ≠ [] ↔ EditsSide c side q s.book) ∧
      (¬ TakesLevel c side q s.book → es.length ≤ 1) ∧
      (Accounts c side es s (s.handleSide c side) ↔ ¬ TakesLevel c side q s.book) := by
  rcases handleSide_cases h hside hq hsize with ⟨hcond, heq⟩ | ⟨⟨hgot, hnone, hblank⟩, l, hedit⟩ |
    ⟨l, p, hgot, -, hl, hnonzero, hedit⟩
  · rw [heq]
    have hno : ¬ EditsSide c side q s.book := by
      rintro ⟨hgot, hlevel⟩
      rcases hcond with hnot | ⟨hnone, hblank⟩
      · cases hnot.symm.trans hgot
      · rcases hlevel with hnot | ⟨p, hp⟩
        · cases hnot.symm.trans hblank
        · exact hp (sizeAt_of_currentLevel_none hnone p)
    have htakes : ¬ TakesLevel c side q s.book := by
      rintro ⟨hgot, p, hp, -⟩
      exact hno ⟨hgot, .inr ⟨p, hp⟩⟩
    exact ⟨[], .nil side s, iff_of_false (fun hne => hne rfl) hno, fun _ => Nat.zero_le _,
      iff_of_true (fun p => (add_zero _).symm) htakes⟩
  · have hzero := sizeAt_of_currentLevel_none hnone
    have htakes : ¬ TakesLevel c side q s.book := fun ⟨_, p, hp, _⟩ => hp (hzero p)
    refine ⟨_, hedit.records, iff_of_true (by simp) ⟨hgot, .inl hblank⟩, fun _ => le_rfl, ?_⟩
    refine iff_of_true (hedit.accounts_iff.mpr ?_) htakes
    rw [hzero, zero_add, Option.getD_some]
  · have hold : sizeAt s.book c.book side p ≠ 0 := by rwa [sizeAt_of_findLevel hl]
    have hedits : EditsSide c side q s.book := ⟨hgot, .inr ⟨p, hold⟩⟩
    rcases hedit with ⟨hblank, hedit⟩ | ⟨⟨hblank, hprice⟩, hedit⟩ | ⟨⟨hblank, hprice⟩, _, _, hdelete, hadd⟩
    · have htakes : TakesLevel c side q s.book := ⟨hgot, p, hold, .inl hblank⟩
      refine ⟨_, hedit.records, iff_of_true (by simp) hedits, fun _ => le_rfl, ?_⟩
      refine iff_of_false (fun hall => hold ?_) (not_not.mpr htakes)
      simpa using (hedit.accounts_iff.mp hall).symm
    · have htakes : ¬ TakesLevel c side q s.book := by
        rintro ⟨-, p', hp', hnot | hne⟩
        · cases hblank.symm.trans hnot
        · exact hne (hprice.trans (hsingle p p' hold hp'))
      refine ⟨_, hedit.records, iff_of_true (by simp) hedits, fun _ => le_rfl, ?_⟩
      refine iff_of_true (hedit.accounts_iff.mpr ?_) htakes
      rw [sizeAt_of_findLevel hl, Option.getD_some]
      omega
    · have htakes : TakesLevel c side q s.book := ⟨hgot, p, hold, .inr hprice⟩
      refine ⟨_, hdelete.records.trans hadd.records, iff_of_true (by simp) hedits,
        (absurd htakes), iff_of_false (fun hall => hold ?_) (not_not.mpr htakes)⟩
      -- At the old price there is no level any more, and the deltas report no change.
      have hat := hall p
      rw [hadd.placed.sizeAt_eq, if_neg hprice.symm, hdelete.placed.sizeAt_eq, map_append,
        reported_append, hdelete.records.allOn.reported_keep hadd.placed.keepsLevels, map_singleton,
        map_singleton, hdelete.reported_eq, hadd.reported_eq, if_neg hprice.symm] at hat
      simpa using hat.symm

end State

/-- What every message keeps. -/
structure Steady (c : Settings P) (s : State P) : Prop where
  sane : Sane c s
  single : ∀ side, side ≠ .unknown → Single c.book side s.book
  plain : ∃ old, Collected.Plain s.deltas.complex old

theorem EditsSide.congr {q : Quoted P} (h : ∀ p, levelAt w' c.book side p = levelAt w c.book side p) :
    EditsSide c side q w' ↔ EditsSide c side q w := by
  simp only [EditsSide, sizeAt, h]

theorem TakesLevel.congr {q : Quoted P} (h : ∀ p, levelAt w' c.book side p = levelAt w c.book side p) :
    TakesLevel c side q w' ↔ TakesLevel c side q w := by
  simp only [TakesLevel, sizeAt, h]

omit [Zero P] in
theorem Single.congr (h : ∀ p, levelAt w' b side p = levelAt w b side p) : Single b side w' ↔ Single b side w := by
  simp only [Single, sizeAt, h]

structure Updated (c : Settings P) (bids asks : List (Recording P)) (s s' : State P) : Prop where
  steady : Steady c s'
  rest : s' = { s with book := s'.book, deltas := s'.deltas }
  held : s'.deltas.Holds (bids ++ asks)
  some_bid : bids ≠ [] ↔ EditsSide c .bid (s.cache.quoted .bid) s.book
  some_ask : asks ≠ [] ↔ EditsSide c .ask (s.cache.quoted .ask) s.book
  one_bid : ¬ TakesLevel c .bid (s.cache.quoted .bid) s.book → bids.length ≤ 1
  one_ask : ¬ TakesLevel c .ask (s.cache.quoted .ask) s.book → asks.length ≤ 1
  accounts : (∀ side, side ≠ .unknown → Accounts c side (bids ++ asks) s s') ↔
    ∀ side, side ≠ .unknown → ¬ TakesLevel c side (s.cache.quoted side) s.book

theorem forall_side {p : Side → Prop} : (∀ side, side ≠ .unknown → p side) ↔ p .bid ∧ p .ask := by
  constructor
  · intro h
    exact ⟨h .bid (by decide), h .ask (by decide)⟩
  · rintro ⟨hbid, hask⟩ side hside
    cases side with
    | bid => exact hbid
    | ask => exact hask
    | unknown => exact absurd rfl hside

namespace State

variable {c : Settings P} {s : State P} {msg : QuoteMsg P}

theorem updated_handleSides (h : Steady c s) (hcount : s.deltas.count = 0) :
    ∃ bids asks, Updated c bids asks s ((s.handleSide c .bid).handleSide c .ask) := by
  let t := s.handleSide c .bid
  let u := t.handleSide c .ask
  have hbid : OnSide c .bid s t := handleSide_onSide h.sane.tidy (by decide) (h.sane.size .bid)
  have hsizeAsk : 0 ≤ (t.cache.quoted .ask).size := hbid.cache ▸ h.sane.size .ask
  have hask : OnSide c .ask t u := handleSide_onSide hbid.tidy (by decide) hsizeAsk
  have hsameAsk : ∀ p, levelAt t.book c.book .ask p = levelAt s.book c.book .ask p :=
    fun p => hbid.levelAt .ask p (by decide)
  have hsameBid : ∀ p, levelAt u.book c.book .bid p = levelAt t.book c.book .bid p :=
    fun p => hask.levelAt .bid p (by decide)
  have hsingleAsk : Single c.book .ask t.book := (Single.congr hsameAsk).mpr (h.single .ask (by decide))
  obtain ⟨bids, hbids, hbidsIff, hbidsOne, hbidsAccounts⟩ := handleSide_records h.sane.tidy
    (by decide) rfl (h.sane.size .bid) (h.single .bid (by decide))
  obtain ⟨asks, hasks, hasksIff, hasksOne, hasksAccounts⟩ := handleSide_records hbid.tidy
    (by decide) rfl hsizeAsk hsingleAsk
  rw [EditsSide.congr hsameAsk, hbid.cache] at hasksIff
  rw [TakesLevel.congr hsameAsk, hbid.cache] at hasksOne hasksAccounts
  have hheld : u.deltas.Holds (bids ++ asks) := by
    obtain ⟨_, hplain⟩ := h.plain
    exact hasks.held _ (hbids.held [] (Collected.holds_nil hcount hplain.keepDeltas hplain.conflateDeltas))
  have hsane := (matches_of_onSides h.sane.size hbid hask).1
  refine ⟨bids, asks, ⟨hsane, forall_side.mpr ⟨?_, ?_⟩, hheld.plain⟩, ?_, hheld, hbidsIff, hasksIff,
    hbidsOne, hasksOne, ?_⟩
  · rw [Single.congr hsameBid]
    exact handleSide_single h.sane.tidy (by decide) (h.sane.size .bid) (h.single .bid (by decide))
  · exact handleSide_single hbid.tidy (by decide) hsizeAsk hsingleAsk
  · exact hask.rest.trans (by rw [hbid.rest])
  · rw [forall_side, forall_side, ← hbidsAccounts, ← hasksAccounts]
    refine and_congr (forall_congr' fun p => ?_) (forall_congr' fun p => ?_)
    · rw [sizeAt_congr (hsameBid p), map_append, reported_append,
        hbids.allOn.reported_keep hasks.keepsLevels, hasks.allOn.reported_other (by decide), add_zero]
    · rw [sizeAt_congr (hsameAsk p), map_append, reported_append,
        (hbids.allOn.keep hasks.keepsLevels).reported_other (by decide), zero_add]

/-! ### What every message keeps -/

theorem invokeDeltaHandlers_steady (h : Steady c s) : Steady c (s.invokeDeltaHandlers c) := by
  obtain ⟨hcache, htidy, hlevel⟩ := invokeDeltaHandlers_keeps c s
  refine ⟨⟨htidy h.sane.tidy, hcache ▸ h.sane.size⟩, fun side hside => ?_, ?_⟩
  · exact (Single.congr (hlevel side)).mpr (h.single side hside)
  · unfold invokeDeltaHandlers
    split
    · exact h.plain
    · exact Session.foldl_invoke_plain s.handlers h.plain

theorem checkQuoteCount_steady (h : Steady c s) (msg : QuoteMsg P) : Steady c (s.checkQuoteCount msg) := by
  obtain ⟨hbook, hquoted, hdeltas⟩ := checkQuoteCount_keeps msg s
  refine ⟨⟨?_, ?_⟩, ?_, ?_⟩
  · rw [hbook]
    exact h.sane.tidy
  · rw [hquoted]
    exact h.sane.size
  · rw [hbook]
    exact h.single
  · rw [hdeltas]
    exact h.plain

theorem handleQuote_steady (h : Steady c s) (hcount : s.deltas.count = 0) (msg : QuoteMsg P) :
    Steady c (s.handleQuote c msg) := by
  have hcounted : (s.checkQuoteCount msg).deltas.count = 0 := by rw [(checkQuoteCount_keeps msg s).2.2, hcount]
  obtain ⟨_, _, hupdated⟩ := updated_handleSides (checkQuoteCount_steady h msg) hcounted
  unfold handleQuote
  dsimp only
  split
  · exact invokeDeltaHandlers_steady hupdated.steady
  · exact hupdated.steady

theorem recapSide_records (h : Tidy c.book s.book) (hside : side ≠ .unknown)
    (hsize : 0 ≤ (s.cache.quoted side).size) (hempty : ∀ p, levelAt s.book c.book side p = none) :
    (∃ es, Records side es s (s.recapSide c side)) ∧ Single c.book side (s.recapSide c side).book := by
  have hzero : ∀ p, sizeAt s.book c.book side p = 0 := fun p => by rw [sizeAt, hempty]; rfl
  unfold recapSide
  split
  · obtain ⟨l, hedit⟩ := edited_addLevel h hside hsize
    exact ⟨⟨_, hedit.records⟩, hedit.placed.single fun p _ => hzero p⟩
  · exact ⟨⟨[], .nil side s⟩, fun p _ hp => absurd (hzero p) hp⟩

variable (hm : 0 ≤ c.quoteSizeMultiplier) (h : Steady c s)
include hm h

theorem handleRecap_steady (hcount : s.deltas.count = 0) (hmsg : msg.NonNegative) : Steady c (s.handleRecap c msg) := by
  let t := ((s.clearForRecap c).updateQuoteFields c msg).checkQuoteCount msg
  obtain ⟨htidy, hempty, hsize, hdeltas, -⟩ := readRecap_spec (t := t) hm h.sane.tidy hmsg rfl
  let u := t.recapSide c .bid
  have hbid : OnSide c .bid t u := recapSide_onSide htidy (by decide) (hsize .bid)
  have hsizeAsk : 0 ≤ (u.cache.quoted .ask).size := hbid.cache ▸ hsize .ask
  have hask := recapSide_onSide hbid.tidy (by decide) hsizeAsk
  obtain ⟨⟨_, hbids⟩, hsingleBid⟩ := recapSide_records htidy (by decide) (hsize .bid) (hempty .bid)
  obtain ⟨⟨_, hasks⟩, hsingleAsk⟩ := recapSide_records hbid.tidy
    (show Side.ask ≠ .unknown by decide) hsizeAsk
    fun p => by rw [hbid.levelAt .ask p (by decide), hempty]
  have hsingle : ∀ side, side ≠ .unknown → Single c.book side (u.recapSide c .ask).book :=
    forall_side.mpr ⟨(Single.congr fun p => hask.levelAt .bid p (by decide)).mpr hsingleBid, hsingleAsk⟩
  have hplain : ∃ old, Collected.Plain (u.recapSide c .ask).deltas.complex.clear old := by
    obtain ⟨_, hold⟩ := h.plain
    have hnone : t.deltas.Holds [] := by
      rw [hdeltas]
      exact Collected.holds_nil hcount hold.keepDeltas hold.conflateDeltas
    obtain ⟨held, hheld⟩ := (hasks.held _ (hbids.held [] hnone)).plain
    exact ⟨[], Collected.plain_clear hheld.keepDeltas hheld.conflateDeltas⟩
  exact ⟨(handleRecap_matches_iff hm h.sane hmsg).1, hsingle, hplain⟩

theorem handleByType_steady (hcount : s.deltas.count = 0) (hmsg : msg.NonNegative) :
    Steady c (s.handleByType c msg) := by
  have hread : Steady c (s.updateQuoteFields c msg) :=
    ⟨⟨h.sane.tidy, Cache.updateQuoteFields_size hm hmsg h.sane.size⟩, h.single, h.plain⟩
  have hquote := handleQuote_steady hread hcount msg
  have hrecap := handleRecap_steady hm h hcount hmsg
  unfold handleByType
  cases msg.type with
  | initial | recap | preopening | snapshot => exact hrecap
  | quote => exact hquote
  | update | trade =>
    dsimp only
    split
    · exact hquote
    · exact hread
  | _ => exact h

theorem onMsg_steady (hmsg : msg.NonNegative) : Steady c (s.onMsg c msg) := by
  unfold onMsg
  split
  · rcases heval : s.evaluateMsgQual c msg with ⟨_ | _, _ | _⟩
    · rw [handleMessage_of_eval heval]
      have hhandled := handleByType_steady
        (s := { s with toSession := { s.toSession.acquireLock with deltas := { s.deltas with count := 0 } } })
        hm ⟨{ h.sane with }, h.single, h.plain⟩ rfl hmsg
      exact ⟨{ hhandled.sane with }, hhandled.single, hhandled.plain⟩
    · rw [handleMessage, heval]
      dsimp only
      split
      · refine ⟨⟨h.sane.tidy, fun side => ?_⟩, h.single, h.plain⟩
        cases side
        · exact h.sane.size .bid
        · exact h.sane.size .ask
        · exact h.sane.size .unknown
      · exact h
    · rw [handleMessage, heval]
      exact h
    · rw [handleMessage, heval]
      exact h
  · exact h

end State

/-! ### A quote is reported -/

theorem Updated.length_eq_one_iff {bids asks : List (Recording P)} {s' : State P} (h : Updated c bids asks s s')
    (hds : bids ++ asks ≠ []) (htakes : ∀ side, side ≠ .unknown → ¬ TakesLevel c side (s.cache.quoted side) s.book) :
    (bids ++ asks).length = 1 ↔
      ¬ (EditsSide c .bid (s.cache.quoted .bid) s.book ∧ EditsSide c .ask (s.cache.quoted .ask) s.book) := by
  obtain ⟨hbid, hask⟩ := forall_side.mp htakes
  have hbids := h.one_bid hbid
  have hasks := h.one_ask hask
  rw [← h.some_bid, ← h.some_ask, ← length_pos_iff, ← length_pos_iff]
  rw [← length_pos_iff, length_append] at hds
  rw [length_append]
  omega

namespace State

variable {c : Settings P} {s : State P}

theorem invokeDeltaHandlers_log {ds : List (Recording P)} (h : s.deltas.Holds ds) (hds : ds ≠ []) :
    (s.invokeDeltaHandlers c).log = s.log ++ Session.told ds s.handlers := by
  have hcount : s.deltas.count ≠ 0 := by simpa [h.count] using hds
  rw [invokeDeltaHandlers, if_neg hcount]
  exact Session.foldl_invoke_holds h hds s.handlers

theorem invokeDeltaHandlers_reported (side : Side) (p : P) (ds : List BasicDelta) :
    reported (s.invokeDeltaHandlers c).book side p ds = reported s.book side p ds := by
  unfold invokeDeltaHandlers
  split
  · rfl
  · dsimp only
    rw [Session.foldl_invokeDeltaHandler_book]
    rfl

theorem handleQuote_complete_iff (h : Steady c s) (hcount : s.deltas.count = 0) {msg : QuoteMsg P}
    (hconsistent : s.isConsistent) (hgap : quoteGap s.cache msg = none)
    (hedits : EditsSide c .bid (s.cache.quoted .bid) s.book ∨ EditsSide c .ask (s.cache.quoted .ask) s.book) :
    Complete c s (s.handleQuote c msg) ↔
      s.handlers = [] ∨
      (∀ side, side ≠ .unknown → ¬ TakesLevel c side (s.cache.quoted side) s.book) ∧
        (s.handlers.length ≤ 1 ∨
          ¬ (EditsSide c .bid (s.cache.quoted .bid) s.book ∧
            EditsSide c .ask (s.cache.quoted .ask) s.book)) := by
  obtain ⟨t, ht⟩ : ∃ t, t = s.checkQuoteCount msg := ⟨_, rfl⟩
  have hcounted : t = { s with cache := { s.cache with quoteCount := s.cache.tmpQuoteCount } } := by
    rw [ht, checkQuoteCount, hgap]
  have hquoted : t.cache.quoted = s.cache.quoted := ht ▸ (checkQuoteCount_keeps msg s).2.1
  have hsteady : Steady c t := ht ▸ checkQuoteCount_steady h msg
  obtain ⟨bids, asks, hupdated⟩ := updated_handleSides hsteady (by rw [hcounted]; exact hcount)
  generalize hu : (t.handleSide c .bid).handleSide c .ask = u at hupdated
  have hbook : t.book = s.book := by rw [hcounted]
  have hlog : u.log = s.log := by rw [hupdated.rest, hcounted]
  have hhandlers : u.handlers = s.handlers := by rw [hupdated.rest, hcounted]
  have hquote : s.handleQuote c msg = u.invokeDeltaHandlers c := by
    have hu_consistent : u.isConsistent := by
      rw [hupdated.rest, hcounted]
      exact hconsistent
    rw [handleQuote, ← ht, hu, hu_consistent, Bool.or_true]
    rfl
  have hds : bids ++ asks ≠ [] := by
    rw [ne_eq, append_eq_nil_iff, not_and_or]
    refine hedits.imp (fun hbid => ?_) (fun hask => ?_)
    · exact hupdated.some_bid.mpr (by rwa [hquoted, hbook])
    · exact hupdated.some_ask.mpr (by rwa [hquoted, hbook])
  have haccounts := hupdated.accounts
  have hlength := hupdated.length_eq_one_iff hds
  simp only [hquoted, hbook] at haccounts hlength
  have hsizes : (∀ side, side ≠ .unknown → ∀ p,
      sizeAt (u.invokeDeltaHandlers c).book c.book side p =
        sizeAt s.book c.book side p +
          reported (u.invokeDeltaHandlers c).book side p ((bids ++ asks).map (·.delta))) ↔
      ∀ side, side ≠ .unknown → ¬ TakesLevel c side (s.cache.quoted side) s.book := by
    rw [← haccounts]
    refine forall_congr' fun side => forall_congr' fun _ => forall_congr' fun p => ?_
    rw [sizeAt_congr ((invokeDeltaHandlers_keeps c u).2.2 side p), invokeDeltaHandlers_reported, hbook]
  rw [hquote]
  unfold Complete
  rw [invokeDeltaHandlers_log hupdated.held hds, hlog, hhandlers]
  constructor
  · rintro ⟨_, _, hcalls, hseen, hsum⟩
    rw [← append_cancel_left hcalls, told_seenBy_iff hds] at hseen
    rcases hseen with hnil | ⟨rfl, hone⟩
    · exact .inl hnil
    · by_cases hnil : s.handlers = []
      · exact .inl hnil
      · have htakes := hsizes.mp (hsum hnil)
        exact .inr ⟨htakes, hone.symm.imp_right (hlength htakes).mp⟩
  · intro hcond
    refine ⟨_, (bids ++ asks).map (·.delta), rfl, (told_seenBy_iff hds _ _).mpr ?_, fun hne => ?_⟩
    · exact hcond.imp_right fun h => ⟨rfl, h.2.symm.imp_left (hlength h.1).mpr⟩
    · rcases hcond with hnil | ⟨htakes, -⟩
      · exact absurd hnil hne
      · exact hsizes.mpr htakes

theorem foldl_onMsg_steady (hm : 0 ≤ c.quoteSizeMultiplier) (h : Steady c s) (msgs : List (QuoteMsg P))
    (hmsgs : ∀ msg ∈ msgs, msg.NonNegative) : Steady c (msgs.foldl (onMsg c) s) :=
  foldlRecOn msgs _ h fun _ h msg hmsg => onMsg_steady hm h (hmsgs msg hmsg)

end State

theorem steady_empty (htidy : Tidy c.book s.book) (hempty : ∀ side p, levelAt s.book c.book side p = none)
    (hcache : s.cache = {}) (hkeep : s.deltas.complex.keepDeltas)
    (hconflate : s.deltas.complex.conflateDeltas = false) :
    Steady c s := by
  refine ⟨⟨htidy, fun side => ?_⟩, fun side _ p _ hp => ?_, ⟨_, hkeep, hconflate, rfl⟩⟩
  · rw [hcache]
    cases side <;> exact le_rfl
  · rw [sizeAt, hempty] at hp
    exact absurd rfl hp

/-- After any messages, a quote or an update that edits a consistent book and reveals no gap is reported
completely exactly when it takes no level away, and edits one side only if there are several handlers. -/
theorem reported_complete_iff (c : Settings P) (hm : 0 ≤ c.quoteSizeMultiplier) (s₀ : State P)
    (htidy : Tidy c.book s₀.book) (hempty : ∀ side p, levelAt s₀.book c.book side p = none)
    (hcache : s₀.cache = {}) (hkeep : s₀.deltas.complex.keepDeltas = true)
    (hconflate : s₀.deltas.complex.conflateDeltas = false) (msgs : List (QuoteMsg P))
    (hmsgs : ∀ msg ∈ msgs, msg.NonNegative) (s : State P) (hs : s = msgs.foldl (onMsg c) s₀)
    (msg : QuoteMsg P) (hmsg : msg.NonNegative)
    (htype : msg.type = .quote ∨ msg.type = .update ∨ msg.type = .trade)
    (hhandles : s.handles c msg.type = true) (heval : s.evaluateMsgQual c msg = (false, false))
    (hconsistent : s.isConsistent = true) (read : Cache P)
    (hread : read = s.cache.updateQuoteFields c.quoteSizeMultiplier msg)
    (hgap : quoteGap read msg = none)
    (hedits : EditsSide c .bid (read.quoted .bid) s.book ∨ EditsSide c .ask (read.quoted .ask) s.book) :
    Complete c s (s.onMsg c msg) ↔
      s.handlers = [] ∨
      (∀ side, side ≠ .unknown → ¬ TakesLevel c side (read.quoted side) s.book) ∧
        (s.handlers.length ≤ 1 ∨
          ¬ (EditsSide c .bid (read.quoted .bid) s.book ∧ EditsSide c .ask (read.quoted .ask) s.book)) := by
  have hsteady : Steady c s := by
    rw [hs]
    exact foldl_onMsg_steady hm (steady_empty htidy hempty hcache hkeep hconflate) msgs hmsgs
  obtain ⟨t, ht⟩ : ∃ t : State P, t =
      { s with
        toSession := { s.toSession.acquireLock with deltas := { s.deltas with count := 0 } }, cache := read } :=
    ⟨_, rfl⟩
  have hquoted : (s.cache.updateQuoteFields c.quoteSizeMultiplier msg).lastGenericMsgWasQuote = true := by
    rw [← hread, Cache.lastGenericMsgWasQuote, Bool.or_eq_true]
    exact hedits.imp And.left And.left
  have hquote : s.onMsg c msg =
      { t.handleQuote c msg with toSession := (t.handleQuote c msg).toSession.releaseLock } := by
    rw [onMsg, if_pos hhandles, handleMessage_of_eval heval, ht, hread]
    unfold handleByType
    rcases htype with htype | htype | htype
    · rw [htype]
      rfl
    · rw [htype]
      rw [if_pos (by exact hquoted)]
      rfl
    · rw [htype]
      rw [if_pos (by exact hquoted)]
      rfl
  have hsteady' : Steady c t := by
    rw [ht, hread]
    exact ⟨⟨hsteady.sane.tidy, Cache.updateQuoteFields_size hm hmsg hsteady.sane.size⟩, hsteady.single, hsteady.plain⟩
  have hgap' : quoteGap t.cache msg = none := by rw [ht]; exact hgap
  have hiff := handleQuote_complete_iff hsteady' (by rw [ht]) (by rw [ht]; exact hconsistent) hgap'
    (by rw [ht]; exact hedits)
  rw [hquote]
  subst ht
  exact hiff

def recapped (handlers : List Handler) : State Int :=
  onMsg wholeUnits { newListener with handlers := handlers }
    { type := .recap, fields := [.bidPrice 10, .bidSize 5, .askPrice 12, .askSize 5] }

theorem bid_size_complete :
    Complete wholeUnits (recapped [1, 2])
      ((recapped [1, 2]).onMsg wholeUnits { type := .update, fields := [.bidSize 7] }) := by
  have hempty : ∀ side p, levelAt newListener.book wholeUnits.book side p = none := by
    intro _ p
    rw [levelAt, findLevel_newListener]
    rfl
  have hnonneg : ∀ msg ∈ ([{ type := .recap, fields := [.bidPrice 10, .bidSize 5, .askPrice 12, .askSize 5] }] :
      List (QuoteMsg Int)), msg.NonNegative := by
    unfold QuoteMsg.NonNegative
    decide +kernel
  have hsteady :=
    foldl_onMsg_steady (s := { newListener with handlers := [1, 2] }) (by decide)
      (steady_empty newListener_tidy hempty rfl rfl rfl) _ hnonneg
  refine (reported_complete_iff wholeUnits (by decide) { newListener with handlers := [1, 2] }
    newListener_tidy hempty rfl rfl rfl _ hnonneg (recapped [1, 2]) rfl _ ?_ (.inr (.inl rfl))
    (by decide +kernel) (by decide +kernel) (by decide +kernel) _ rfl (by decide +kernel)
    (.inl ⟨by decide +kernel, .inl (by decide +kernel)⟩)).mpr (.inr ⟨forall_side.mpr ⟨?_, ?_⟩, .inr ?_⟩)
  · unfold QuoteMsg.NonNegative
    decide +kernel
  · rintro ⟨-, p, hp, hblank | hprice⟩
    · exact absurd hblank (by decide +kernel)
    · obtain rfl : p = 10 := hsteady.single .bid (by decide) p 10 hp (by decide +kernel)
      exact hprice (by decide +kernel)
  · rintro ⟨hgot, -⟩
    exact absurd hgot (by decide +kernel)
  · rintro ⟨-, hgot, -⟩
    exact absurd hgot (by decide +kernel)

theorem deleted_bid_incomplete :
    ¬ Complete wholeUnits (recapped [1])
      ((recapped [1]).onMsg wholeUnits { type := .quote, fields := [.bidSize 0] }) ∧
    ¬ Complete wholeUnits (recapped [1, 2])
      ((recapped [1, 2]).onMsg wholeUnits { type := .quote, fields := [.bidSize 6, .askSize 6] }) := by
  constructor
  · rintro ⟨calls, ds, hlog, hseen, hsum⟩
    have hcalls : [Call.onBookDelta 1 { priceLevel := some 0, plAction := .delete }] = calls :=
      append_cancel_left (Eq.trans (by decide +kernel) hlog)
    have hhandlers : (recapped [1]).handlers = [1] := by decide +kernel
    rw [← hcalls, hhandlers] at hseen
    obtain rfl : [{ priceLevel := some 0, plAction := .delete }] = ds := by simpa [seenBy] using hseen
    exact absurd (hsum (by decide +kernel) .bid (by decide) 10) (by decide +kernel)
  · rintro ⟨calls, _, hlog, hseen, -⟩
    have hcalls :
        [Call.onBookComplexDelta 1
            (some [{ priceLevel := some 0, plDeltaSize := 1, plAction := .update },
              { priceLevel := some 1, plDeltaSize := 1, plAction := .update }]),
          .onBookComplexDelta 2 (some [])] = calls :=
      append_cancel_left (Eq.trans (by decide +kernel) hlog)
    have hhandlers : (recapped [1, 2]).handlers = [1, 2] := by decide +kernel
    rw [← hcalls, hhandlers] at hseen
    simp only [map_cons, seenBy, Option.map_some, List.cons.injEq, Option.some.injEq, Prod.mk.injEq] at hseen
    cases hseen.1.2.trans hseen.2.1.2.symm

end OpenMama.QuoteBook
