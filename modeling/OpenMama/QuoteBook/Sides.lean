import OpenMama.Lib.Run
import OpenMama.OrderBook.Aggregates
import OpenMama.QuoteBook.Edits

/-!
# The sides of the book and the cache

Each side of the book is to hold the level that the cache calls for: none while the price or the size is zero, and
otherwise exactly one (`Shows`). A quote or an update keeps that. After a recap a side shows the cache exactly when
the message gives it both or none.
-/

namespace OpenMama.QuoteBook

open OrderBook OrderBook.Book List Quoted QuoteField State
open Listener (Session Handler)
open DataQuality (MsgType)

variable {P : Type}

/-! ### Reading a message -/

def QuoteField.priceOn : Side → QuoteField P → Option P
  | .bid, .bidPrice price => some price
  | .ask, .askPrice price => some price
  | _, _ => none

def QuoteField.sizeOn : Side → QuoteField P → Option Int
  | .bid, .bidSize size => some size
  | .ask, .askSize size => some size
  | _, _ => none

variable [LinearOrder P] [Zero P] {m : Int} {side : Side}

namespace Quoted

def read (m : Int) (side : Side) (q : Quoted P) (f : QuoteField P) : Quoted P :=
  match f.priceOn side with
  | some price => q.setPrice price
  | none =>
    match f.sizeOn side with
    | some size => q.setSize (size * m)
    | none => q

variable {q : Quoted P} {f : QuoteField P} {fields : List (QuoteField P)}

theorem setPrice_of_not_got {price : P} (h : (q.setPrice price).got = false) :
    q.setPrice price = q ∧ price = q.price := by
  unfold setPrice at h ⊢
  by_cases hne : q.price ≠ price
  · simp [hne, got] at h
  · exact ⟨if_neg hne, (not_not.mp hne).symm⟩

omit [LinearOrder P] in
theorem setSize_of_not_got {size : Int} (h : (q.setSize size).got = false) : q.setSize size = q ∧ size = q.size := by
  unfold setSize at h ⊢
  by_cases hne : q.size ≠ size
  · simp [hne, got] at h
  · exact ⟨if_neg hne, (not_not.mp hne).symm⟩

def Repeated (m : Int) (side : Side) (q : Quoted P) (f : QuoteField P) : Prop :=
  (∀ price ∈ f.priceOn side, price = q.price) ∧ ∀ size ∈ f.sizeOn side, size * m = q.size

theorem read_of_not_got (h : (q.read m side f).got = false) : q.read m side f = q ∧ Repeated m side q f := by
  unfold read at h ⊢
  unfold Repeated
  cases hprice : f.priceOn side with
  | some _ =>
    have hsize : f.sizeOn side = none := by cases side <;> cases f <;> cases hprice <;> rfl
    rw [hprice] at h
    obtain ⟨hsame, hval⟩ := setPrice_of_not_got h
    exact ⟨hsame, by simpa using hval, by simp [hsize]⟩
  | none =>
    rw [hprice] at h
    cases hsize : f.sizeOn side with
    | some _ =>
      rw [hsize] at h
      obtain ⟨hsame, hval⟩ := setSize_of_not_got h
      exact ⟨hsame, by simp, by simpa using hval⟩
    | none => simp

theorem read_of_repeated (h : Repeated m side q f) : q.read m side f = q := by
  unfold read
  cases hprice : f.priceOn side with
  | some price => simp [setPrice, h.1 price hprice]
  | none =>
    cases hsize : f.sizeOn side with
    | some size => simp [setSize, h.2 size hsize]
    | none => rfl

theorem foldl_read_of_not_got (h : (fields.foldl (read m side) q).got = false) :
    fields.foldl (read m side) q = q ∧ ∀ f ∈ fields, Repeated m side q f := by
  induction fields generalizing q with
  | nil => exact ⟨rfl, by simp⟩
  | cons f _ ih =>
    obtain ⟨hrest, hall⟩ := ih h
    have hgot : (q.read m side f).got = false := by rwa [← hrest]
    obtain ⟨hread, hrepeated⟩ := read_of_not_got hgot
    rw [hread] at hrest hall
    rw [foldl_cons, hread]
    exact ⟨hrest, forall_mem_cons.mpr ⟨hrepeated, hall⟩⟩

theorem foldl_read_of_repeated (h : ∀ f ∈ fields, Repeated m side q f) : fields.foldl (read m side) q = q := by
  induction fields with
  | nil => rfl
  | cons f _ ih =>
    obtain ⟨hf, hfields⟩ := forall_mem_cons.mp h
    rw [foldl_cons, read_of_repeated hf]
    exact ih hfields

section

variable (q)

@[simp] theorem setPrice_price (price : P) : (q.setPrice price).price = price := by
  unfold setPrice
  split
  · rfl
  next h => exact not_not.mp h

@[simp] theorem setPrice_size (price : P) : (q.setPrice price).size = q.size := by
  unfold setPrice
  split <;> rfl

omit [LinearOrder P] in
@[simp] theorem setSize_size (size : Int) : (q.setSize size).size = size := by
  unfold setSize
  split
  · rfl
  next h => exact not_not.mp h

omit [LinearOrder P] in
@[simp] theorem setSize_price (size : Int) : (q.setSize size).price = q.price := by
  unfold setSize
  split <;> rfl

theorem foldl_read_price (fields : List (QuoteField P)) :
    (fields.foldl (read m side) q).price =
      (fields.filterMap (priceOn side)).getLast?.getD q.price := by
  induction fields generalizing q with
  | nil => rfl
  | cons f _ ih =>
    rw [foldl_cons, ih, read]
    cases hprice : f.priceOn side with
    | some _ => simp [hprice, getLast?_cons]
    | none => cases hsize : f.sizeOn side <;> simp [hprice]

theorem foldl_read_size (fields : List (QuoteField P)) :
    (fields.foldl (read m side) q).size =
      ((fields.filterMap (sizeOn side)).getLast?.map (· * m)).getD q.size := by
  induction fields generalizing q with
  | nil => rfl
  | cons f fields ih =>
    rw [foldl_cons, ih, read]
    cases hprice : f.priceOn side with
    | some _ =>
      have hsize : f.sizeOn side = none := by cases side <;> cases f <;> cases hprice <;> rfl
      simp [hsize]
    | none =>
      cases hsize : f.sizeOn side with
      | some _ => cases hlast : (fields.filterMap (sizeOn side)).getLast? <;>
          simp [hsize, getLast?_cons, hlast]
      | none => simp [hsize]

end

theorem read_size_nonneg (hm : 0 ≤ m) (hq : 0 ≤ q.size) (hf : ∀ size ∈ f.sizeOn side, 0 ≤ size) :
    0 ≤ (q.read m side f).size := by
  unfold read
  split
  · simpa using hq
  · split
    next size hsize => simpa using Int.mul_nonneg (hf size hsize) hm
    · exact hq

theorem foldl_read_size_nonneg (hm : 0 ≤ m) (hq : 0 ≤ q.size)
    (hfields : ∀ f ∈ fields, ∀ size ∈ f.sizeOn side, 0 ≤ size) :
    0 ≤ (fields.foldl (read m side) q).size :=
  foldlRecOn (motive := (0 ≤ ·.size)) fields (read m side) hq fun _ hq f hf => read_size_nonneg hm hq (hfields f hf)

end Quoted

section

variable (hside : side ≠ .unknown) (c : Cache P)
include hside

theorem Cache.quoted_onField (f : QuoteField P) : (c.onField m f).quoted side = (c.quoted side).read m side f := by
  cases side with
  | bid => cases f <;> rfl
  | ask => cases f <;> rfl
  | unknown => exact absurd rfl hside

theorem Cache.quoted_foldl (fields : List (QuoteField P)) :
    (fields.foldl (Cache.onField m) c).quoted side = fields.foldl (read m side) (c.quoted side) := by
  induction fields generalizing c with
  | nil => rfl
  | cons f _ ih => rw [foldl_cons, ih, quoted_onField hside, foldl_cons]

theorem Cache.quoted_updateQuoteFields (msg : QuoteMsg P) :
    (c.updateQuoteFields m msg).quoted side =
      msg.fields.foldl (read m side) { price := (c.quoted side).price, size := (c.quoted side).size } := by
  rw [updateQuoteFields, quoted_foldl hside]
  cases side with
  | bid => rfl
  | ask => rfl
  | unknown => exact absurd rfl hside

end

/-! ### What a side shows -/

/-- A side has no level if the quote is blank, and otherwise one, with the price and the size of the
quote. -/
def Shows (c : Settings P) (side : Side) (q : Quoted P) (w : World P) : Prop :=
  ∀ p, levelAt w c.book side p =
    if q.isBlank c.isZero then none else if p = q.price then some (q.price, q.size) else none

theorem Shows.congr {c : Settings P} {q q' : Quoted P} {w : World P} (h : Shows c side q w)
    (hprice : q'.price = q.price) (hsize : q'.size = q.size) : Shows c side q' w := by
  intro p
  rw [h p, isBlank, isBlank, hprice, hsize]

def Matches (c : Settings P) (s : State P) : Prop :=
  ∀ side, side ≠ .unknown → Shows c side (s.cache.quoted side) s.book

structure Sane (c : Settings P) (s : State P) : Prop where
  tidy : Tidy c.book s.book
  size : ∀ side, 0 ≤ (s.cache.quoted side).size

namespace State

variable {c : Settings P} {s : State P}

/-- A step that touches one side. -/
structure OnSide (c : Settings P) (side : Side) (s s' : State P) : Prop where
  tidy : Tidy c.book s'.book
  levelAt : ∀ s₁ p, s₁ ≠ side → levelAt s'.book c.book s₁ p = levelAt s.book c.book s₁ p
  rest : s' = { s with book := s'.book, deltas := s'.deltas }

variable {s' : State P} {q : Quoted P}

theorem OnSide.cache (h : OnSide c side s s') : s'.cache = s.cache := by rw [h.rest]

theorem Edited.onSide {p : P} {l : LevelRef} {size : Option Int} {change : Int} {action : Action}
    (h : Edited c side p l size change action s s') : OnSide c side s s' where
  tidy := h.placed.tidy
  levelAt s₁ p₁ hne := by rw [h.placed.levelAt, if_neg fun heq => hne heq.1]
  rest := h.rest

theorem OnSide.trans {s'' : State P} (h : OnSide c side s s') (h' : OnSide c side s' s'') : OnSide c side s s'' where
  tidy := h'.tidy
  levelAt s₁ p hne := (h'.levelAt s₁ p hne).trans (h.levelAt s₁ p hne)
  rest := by rw [h'.rest, h.rest]

theorem handleSide_onSide (h : Tidy c.book s.book) (hside : side ≠ .unknown)
    (hsize : 0 ≤ (s.cache.quoted side).size) : OnSide c side s (s.handleSide c side) := by
  rcases handleSide_cases h hside rfl hsize with ⟨-, heq⟩ | ⟨-, l, hedit⟩ | ⟨l, p, -, -, -, -, hedit⟩
  · rw [heq]
    exact ⟨h, fun _ _ _ => rfl, rfl⟩
  · exact Edited.onSide hedit
  · rcases hedit with ⟨-, hedit⟩ | ⟨-, hedit⟩ | ⟨-, _, _, hdelete, hadd⟩
    · exact Edited.onSide hedit
    · exact Edited.onSide hedit
    · exact (Edited.onSide hdelete).trans (Edited.onSide hadd)

theorem levelAt_of_currentLevel_none (hq : Shows c side q s.book) (hnone : s.currentLevel c side = none) (p : P) :
    levelAt s.book c.book side p = none := by
  cases hlevel : levelAt s.book c.book side p with
  | none => rfl
  | some v =>
    obtain ⟨l, hl, rfl⟩ := Option.map_eq_some_iff.mp hlevel
    rw [hq p, currentLevel_eq_none hnone hl] at hlevel
    split at hlevel
    · cases hlevel
    next hblank =>
      split at hlevel
      · simp only [Option.some.injEq, Prod.mk.injEq] at hlevel
        simp [isBlank, hlevel.2] at hblank
      · cases hlevel

theorem levelAt_of_ne (hq : Shows c side q s.book) {p : P} {l : LevelRef} (hl : findLevel s.book c.book side p = some l)
    {p' : P} (hne : p' ≠ p) :
    levelAt s.book c.book side p' = none := by
  have hlevel : (levelAt s.book c.book side p).isSome := by simp [levelAt, hl]
  rw [hq p] at hlevel
  rw [hq p']
  split
  · rfl
  next hblank =>
    rw [if_neg hblank] at hlevel
    split at hlevel
    next hp => rw [if_neg (hp ▸ hne)]
    · cases hlevel

theorem handleSide_shows (h : Tidy c.book s.book) (hside : side ≠ .unknown)
    (hsize : 0 ≤ (s.cache.quoted side).size) (hq : Shows c side q s.book)
    (hsame : (s.cache.quoted side).got = false →
      (s.cache.quoted side).price = q.price ∧ (s.cache.quoted side).size = q.size) :
    Shows c side (s.cache.quoted side) (s.handleSide c side).book := by
  intro p'
  rcases handleSide_cases h hside rfl hsize with ⟨hcond, heq⟩ | ⟨⟨-, hnone, hblank⟩, l, hedit⟩ |
    ⟨l, p, -, hsome, hl, hnonzero, hedit⟩
  · rw [heq]
    rcases hcond with hgot | ⟨hnone, hblank⟩
    · exact hq.congr (hsame hgot).1 (hsame hgot).2 p'
    · rw [levelAt_of_currentLevel_none hq hnone, if_pos hblank]
  · rw [hedit.placed.levelAt, levelAt_of_currentLevel_none hq hnone, hblank]
    simp
  · rcases hedit with ⟨hblank, hedit⟩ | ⟨⟨hblank, hprice⟩, hedit⟩ | ⟨⟨hblank, hprice⟩, between, _, hdelete, hadd⟩
    · rw [hedit.placed.levelAt]
      split
      · rfl
      next hne => exact levelAt_of_ne hq hl fun heq => hne ⟨rfl, heq⟩
    · rw [hedit.placed.levelAt, hblank, hprice]
      by_cases hp : p' = p
      · simp [hp]
      · simp [hp, levelAt_of_ne hq hl hp]
    · have hempty : levelAt between.book c.book side p' = none := by
        rw [hdelete.placed.levelAt]
        split
        · rfl
        next hne => exact levelAt_of_ne hq hl fun heq => hne ⟨rfl, heq⟩
      rw [hadd.placed.levelAt, hempty, hblank]
      simp

theorem invokeDeltaHandlers_keeps (c : Settings P) (s : State P) :
    (s.invokeDeltaHandlers c).cache = s.cache ∧
      (Tidy c.book s.book → Tidy c.book (s.invokeDeltaHandlers c).book) ∧
      ∀ side p, levelAt (s.invokeDeltaHandlers c).book c.book side p = levelAt s.book c.book side p := by
  unfold invokeDeltaHandlers
  split
  · exact ⟨rfl, id, fun _ _ => rfl⟩
  · dsimp only
    rw [Session.foldl_invokeDeltaHandler_book]
    exact ⟨rfl, tidy_cleanupDetached, levelAt_cleanupDetached s.book c.book⟩

theorem checkQuoteCount_keeps (msg : QuoteMsg P) (s : State P) :
    (s.checkQuoteCount msg).book = s.book ∧ (s.checkQuoteCount msg).cache.quoted = s.cache.quoted ∧
      (s.checkQuoteCount msg).deltas = s.deltas := by
  have hquoted : ({ s.cache with quoteCount := s.cache.tmpQuoteCount } : Cache P).quoted = s.cache.quoted := by
    funext side
    cases side <;> rfl
  unfold checkQuoteCount
  split
  · exact ⟨rfl, hquoted, rfl⟩
  · exact ⟨rfl, hquoted, rfl⟩

theorem matches_of_onSides {t u : State P} (hsize : ∀ side, 0 ≤ (s.cache.quoted side).size)
    (hbid : OnSide c .bid s t) (hask : OnSide c .ask t u) :
    Sane c u ∧ u.cache = s.cache ∧
      (Matches c u ↔ Shows c .bid (s.cache.quoted .bid) t.book ∧ Shows c .ask (s.cache.quoted .ask) u.book) := by
  have hcache : u.cache = s.cache := hask.cache.trans hbid.cache
  have hkept : Shows c .bid (s.cache.quoted .bid) u.book ↔ Shows c .bid (s.cache.quoted .bid) t.book :=
    forall_congr' fun p => by rw [hask.levelAt .bid p (by decide)]
  refine ⟨⟨hask.tidy, fun side => hcache ▸ hsize side⟩, hcache, ?_⟩
  unfold Matches
  rw [hcache, ← hkept]
  constructor
  · intro hall
    exact ⟨hall .bid (by decide), hall .ask (by decide)⟩
  · rintro ⟨hshowsBid, hshowsAsk⟩ side hside
    cases side with
    | bid => exact hshowsBid
    | ask => exact hshowsAsk
    | unknown => exact absurd rfl hside

theorem handleQuote_matches (h : Sane c s) (old : Cache P)
    (hold : ∀ side, side ≠ .unknown → Shows c side (old.quoted side) s.book)
    (hsame : ∀ side, side ≠ .unknown → (s.cache.quoted side).got = false →
      (s.cache.quoted side).price = (old.quoted side).price ∧
        (s.cache.quoted side).size = (old.quoted side).size) (msg : QuoteMsg P) :
    Sane c (s.handleQuote c msg) ∧ Matches c (s.handleQuote c msg) := by
  obtain ⟨hbook, hquoted, -⟩ := checkQuoteCount_keeps msg s
  generalize ht : s.checkQuoteCount msg = t at hbook hquoted
  have hsize : ∀ side, 0 ≤ (t.cache.quoted side).size := hquoted ▸ h.size
  have hbid : OnSide c .bid t (t.handleSide c .bid) := handleSide_onSide (hbook ▸ h.tidy) (by decide) (hsize .bid)
  have hask : OnSide c .ask (t.handleSide c .bid) ((t.handleSide c .bid).handleSide c .ask) :=
    handleSide_onSide hbid.tidy (by decide) (hbid.cache ▸ hsize .ask)
  have hshowsBid : Shows c .bid (t.cache.quoted .bid) (t.handleSide c .bid).book :=
    handleSide_shows (hbook ▸ h.tidy) (by decide) (hsize .bid) (hbook ▸ hold .bid (by decide))
      (hquoted ▸ hsame .bid (by decide))
  have hshowsAsk : Shows c .ask (t.cache.quoted .ask) ((t.handleSide c .bid).handleSide c .ask).book := by
    have hbefore : Shows c .ask (old.quoted .ask) (t.handleSide c .bid).book := fun p => by
      rw [hbid.levelAt .ask p (by decide), hbook]
      exact hold .ask (by decide) p
    have hafter := handleSide_shows hbid.tidy (by decide) (hbid.cache ▸ hsize .ask) hbefore
      (hbid.cache ▸ hquoted ▸ hsame .ask (by decide))
    rwa [hbid.cache] at hafter
  obtain ⟨hsane, -, hmatches⟩ := matches_of_onSides hsize hbid hask
  have hboth := hmatches.mpr ⟨hshowsBid, hshowsAsk⟩
  rw [handleQuote, ht]
  split
  · obtain ⟨hcache, htidy, hlevel⟩ := invokeDeltaHandlers_keeps c ((t.handleSide c .bid).handleSide c .ask)
    refine ⟨⟨htidy hsane.tidy, fun side => hcache ▸ hsane.size side⟩, fun side hside p => ?_⟩
    rw [hcache, hlevel]
    exact hboth side hside p
  · exact ⟨hsane, hboth⟩

theorem updateQuoteFields_same (hside : side ≠ .unknown) (msg : QuoteMsg P) (cache : Cache P)
    (hgot : ((cache.updateQuoteFields m msg).quoted side).got = false) :
    ((cache.updateQuoteFields m msg).quoted side).price = (cache.quoted side).price ∧
      ((cache.updateQuoteFields m msg).quoted side).size = (cache.quoted side).size := by
  rw [Cache.quoted_updateQuoteFields hside] at hgot ⊢
  rw [(foldl_read_of_not_got hgot).1]
  exact ⟨rfl, rfl⟩

end State

def QuoteMsg.NonNegative (msg : QuoteMsg P) : Prop :=
  ∀ f ∈ msg.fields, (∀ size ∈ f.sizeOn .bid, 0 ≤ size) ∧ ∀ size ∈ f.sizeOn .ask, 0 ≤ size

theorem Cache.updateQuoteFields_size (hm : 0 ≤ m) {msg : QuoteMsg P} (hmsg : msg.NonNegative)
    {cache : Cache P} (h : ∀ side, 0 ≤ (cache.quoted side).size) (side : Side) :
    0 ≤ ((cache.updateQuoteFields m msg).quoted side).size := by
  have hbid : 0 ≤ ((cache.updateQuoteFields m msg).quoted .bid).size := by
    rw [quoted_updateQuoteFields (by decide)]
    exact foldl_read_size_nonneg hm (h .bid) fun f hf => (hmsg f hf).1
  have hask : 0 ≤ ((cache.updateQuoteFields m msg).quoted .ask).size := by
    rw [quoted_updateQuoteFields (by decide)]
    exact foldl_read_size_nonneg hm (h .ask) fun f hf => (hmsg f hf).2
  cases side with
  | bid => exact hbid
  | ask => exact hask
  | unknown => exact hbid

/-! ### A recap -/

/-- A message gives a side a price and a size that are not zero, or no price and size but zero. -/
def Whole (c : Settings P) (msg : QuoteMsg P) (side : Side) : Prop :=
  (∀ f ∈ msg.fields, (∀ price ∈ f.priceOn side, price = 0) ∧
    ∀ size ∈ f.sizeOn side, size * c.quoteSizeMultiplier = 0) ∨
  c.isZero ((msg.fields.filterMap (priceOn side)).getLast?.getD 0) = false ∧
    (msg.fields.filterMap (sizeOn side)).getLast?.getD 0 * c.quoteSizeMultiplier ≠ 0

theorem whole_iff (c : Settings P) (msg : QuoteMsg P) (side : Side) :
    Whole c msg side ↔
      (msg.fields.foldl (read c.quoteSizeMultiplier side) {}).got = false ∨
        (msg.fields.foldl (read c.quoteSizeMultiplier side) {}).isBlank c.isZero = false := by
  refine or_congr ⟨fun hall => ?_, fun hgot => ?_⟩ ?_
  · rw [foldl_read_of_repeated hall]
    rfl
  · exact (foldl_read_of_not_got hgot).2
  · rw [isBlank, foldl_read_price, foldl_read_size]
    cases (msg.fields.filterMap (sizeOn side)).getLast? <;> simp [and_comm]

namespace State

variable {c : Settings P} {s : State P} {msg : QuoteMsg P}

theorem recapSide_onSide (h : Tidy c.book s.book) (hside : side ≠ .unknown)
    (hsize : 0 ≤ (s.cache.quoted side).size) : OnSide c side s (s.recapSide c side) := by
  unfold recapSide
  split
  · obtain ⟨l, hedit⟩ := edited_addLevel h hside hsize
    exact Edited.onSide hedit
  · exact ⟨h, fun _ _ _ => rfl, rfl⟩

theorem recapSide_shows_iff (h : Tidy c.book s.book) (hside : side ≠ .unknown) (hq : s.cache.quoted side = q)
    (hsize : 0 ≤ q.size) (hempty : ∀ p, levelAt s.book c.book side p = none)
    (hblank : q.got = false → q.isBlank c.isZero) :
    Shows c side q (s.recapSide c side).book ↔ q.got = false ∨ q.isBlank c.isZero = false := by
  unfold recapSide
  rw [hq]
  cases hgot : q.got with
  | false =>
    rw [if_neg Bool.false_ne_true]
    refine iff_of_true (fun p => ?_) (.inl rfl)
    rw [hempty, if_pos (hblank hgot)]
  | true =>
    rw [if_pos rfl]
    obtain ⟨l, hedit⟩ := edited_addLevel h hside (hq ▸ hsize)
    have hlevel : ∀ p, levelAt (s.addLevel c side).book c.book side p =
        if p = q.price then some (q.price, q.size) else none := by
      intro p
      rw [hedit.placed.levelAt, hempty, hq]
      simp
    constructor
    · intro hshows
      have hat := (hlevel q.price).symm.trans (hshows _)
      rw [if_pos rfl] at hat
      split at hat
      · cases hat
      next hnot => exact .inr (by simpa using hnot)
    · rintro (hfalse | hnot)
      · cases hfalse
      · intro p
        rw [hlevel, hnot, if_neg Bool.false_ne_true]

theorem clearForRecap_spec (h : Tidy c.book s.book) :
    Tidy c.book (s.clearForRecap c).book ∧
      (∀ side p, levelAt (s.clearForRecap c).book c.book side p = none) ∧
      ∀ side, side ≠ .unknown → ((s.clearForRecap c).cache.quoted side).price = 0 ∧
        ((s.clearForRecap c).cache.quoted side).size = 0 := by
  have hempty : ∀ side p, findLevel (s.clearForRecap c).book c.book side p = none := by
    intro side p
    cases side <;> simp [clearForRecap, Book.clear, findLevel, Book.levels]
  refine ⟨⟨?_, fun {s p l} hl => ?_⟩, fun side p => ?_, fun side hside => ?_⟩
  · change Wired (Book.clear s.book c.book true)
    refine h.wired.modifyBook (fun {s p l} hl => ?_) (fun {s l} hl => ?_)
    · cases s <;> simp [Book.levels] at hl
    · cases s <;> simp [Book.marketOrders] at hl
  · rw [hempty] at hl
    cases hl
  · rw [levelAt, hempty]
    rfl
  · cases side with
    | bid | ask => exact ⟨rfl, rfl⟩
    | unknown => exact absurd rfl hside

theorem readRecap_spec (hm : 0 ≤ c.quoteSizeMultiplier) (h : Tidy c.book s.book) (hmsg : msg.NonNegative) {t : State P}
    (ht : t = ((s.clearForRecap c).updateQuoteFields c msg).checkQuoteCount msg) :
    Tidy c.book t.book ∧ (∀ side p, levelAt t.book c.book side p = none) ∧
      (∀ side, 0 ≤ (t.cache.quoted side).size) ∧ t.deltas = s.deltas ∧
      ∀ side, side ≠ .unknown →
        t.cache.quoted side = msg.fields.foldl (read c.quoteSizeMultiplier side) {} := by
  obtain ⟨htidy, hempty, hzero⟩ := clearForRecap_spec h
  obtain ⟨hbook, hquoted, hdeltas⟩ := checkQuoteCount_keeps msg ((s.clearForRecap c).updateQuoteFields c msg)
  rw [← ht] at hbook hquoted hdeltas
  refine ⟨hbook ▸ htidy, hbook ▸ hempty, fun side => ?_, hdeltas, fun side hside => ?_⟩
  · rw [hquoted]
    refine Cache.updateQuoteFields_size hm hmsg (fun side => ?_) side
    cases side <;> exact le_rfl
  · rw [hquoted, updateQuoteFields, Cache.quoted_updateQuoteFields hside, (hzero side hside).1, (hzero side hside).2]

theorem handleRecap_matches_iff (hm : 0 ≤ c.quoteSizeMultiplier) (h : Sane c s) (hmsg : msg.NonNegative) :
    Sane c (s.handleRecap c msg) ∧
      (Matches c (s.handleRecap c msg) ↔ Whole c msg .bid ∧ Whole c msg .ask) := by
  let t := ((s.clearForRecap c).updateQuoteFields c msg).checkQuoteCount msg
  obtain ⟨htidy, hempty, hsize, -, hread⟩ := readRecap_spec (t := t) hm h.tidy hmsg rfl
  have hblank : ∀ side, side ≠ .unknown → (t.cache.quoted side).got = false →
      (t.cache.quoted side).isBlank c.isZero := by
    intro side hside hgot
    rw [hread side hside] at hgot ⊢
    rw [(foldl_read_of_not_got hgot).1]
    rfl
  have hbid := recapSide_onSide htidy (by decide) (hsize .bid)
  have hask : OnSide c .ask (t.recapSide c .bid) ((t.recapSide c .bid).recapSide c .ask) :=
    recapSide_onSide hbid.tidy (by decide) (hbid.cache ▸ hsize .ask)
  have hshowsBid := recapSide_shows_iff htidy (show Side.bid ≠ .unknown by decide) rfl (hsize .bid)
    (hempty .bid) (hblank .bid (by decide))
  have hshowsAsk := recapSide_shows_iff hbid.tidy (show Side.ask ≠ .unknown by decide) rfl
    (hbid.cache ▸ hsize .ask) (fun p => by rw [hbid.levelAt .ask p (by decide), hempty])
    (hbid.cache ▸ hblank .ask (by decide))
  rw [hbid.cache] at hshowsAsk
  obtain ⟨hsane, -, hmatches⟩ := matches_of_onSides hsize hbid hask
  rw [hshowsBid, hshowsAsk, hread .bid (by decide), hread .ask (by decide), ← whole_iff, ← whole_iff] at hmatches
  exact ⟨{ hsane with }, hmatches⟩

/-! ### Whole runs -/

def isRecap : MsgType → Bool
  | .initial | .recap | .preopening | .snapshot => true
  | _ => false

theorem handleMessage_of_eval (heval : s.evaluateMsgQual c msg = (false, false)) :
    s.handleMessage c msg =
      let handled := handleByType c msg
        { s with toSession := { s.toSession.acquireLock with deltas := { s.deltas with count := 0 } } }
      { handled with toSession := handled.toSession.releaseLock } := by
  rw [handleMessage, heval]
  rfl

theorem evaluateMsgQual_of_none (hqual : msg.msgQual = none) (s : State P) :
    s.evaluateMsgQual c msg = (false, false) := by
  unfold evaluateMsgQual TradeQuote.evaluateMsgQual
  rw [hqual]

theorem handleByType_matches_iff (hm : 0 ≤ c.quoteSizeMultiplier) (h : Sane c s) (hmatches : Matches c s)
    (hmsg : msg.NonNegative) :
    Sane c (s.handleByType c msg) ∧
      (Matches c (s.handleByType c msg) ↔ (isRecap msg.type → Whole c msg .bid ∧ Whole c msg .ask)) := by
  have hsize := Cache.updateQuoteFields_size hm hmsg h.size
  let t := s.updateQuoteFields c msg
  have hread : Sane c t := ⟨h.tidy, hsize⟩
  have hquote := handleQuote_matches hread s.cache hmatches
    (fun side hside => updateQuoteFields_same hside msg s.cache) msg
  have hupdate : let u := if t.cache.lastGenericMsgWasQuote then t.handleQuote c msg else t
      Sane c u ∧ Matches c u := by
    dsimp only
    split
    · exact hquote
    next hnot =>
      simp only [Cache.lastGenericMsgWasQuote, Bool.or_eq_true, not_or, Bool.not_eq_true] at hnot
      refine ⟨hread, fun side hside => ?_⟩
      have hgot : (t.cache.quoted side).got = false := by
        cases side with
        | bid => exact hnot.1
        | ask => exact hnot.2
        | unknown => exact absurd rfl hside
      obtain ⟨hprice, hvolume⟩ := updateQuoteFields_same hside msg s.cache hgot
      exact (hmatches side hside).congr hprice hvolume
  have hrecap := handleRecap_matches_iff hm h hmsg
  unfold handleByType
  cases msg.type with
  | initial | recap | preopening | snapshot => simpa [isRecap] using hrecap
  | quote => exact ⟨hquote.1, iff_of_true hquote.2 (by simp [isRecap])⟩
  | update | trade => exact ⟨hupdate.1, iff_of_true hupdate.2 (by simp [isRecap])⟩
  | _ => exact ⟨h, iff_of_true hmatches (by simp [isRecap])⟩

theorem onMsg_matches_iff (hm : 0 ≤ c.quoteSizeMultiplier) (h : Sane c s) (hmatches : Matches c s)
    (hqual : msg.msgQual = none) (hmsg : msg.NonNegative) :
    Sane c (s.onMsg c msg) ∧
      (Matches c (s.onMsg c msg) ↔
        (s.handles c msg.type → isRecap msg.type → Whole c msg .bid ∧ Whole c msg .ask)) := by
  rw [onMsg]
  cases hhandles : s.handles c msg.type with
  | false => exact ⟨h, iff_of_true hmatches nofun⟩
  | true =>
    rw [handleMessage_of_eval (evaluateMsgQual_of_none hqual s)]
    obtain ⟨hsane, hiff⟩ := handleByType_matches_iff
      (s := { s with toSession := { s.toSession.acquireLock with deltas := { s.deltas with count := 0 } } })
      hm { h with } hmatches hmsg
    exact ⟨{ hsane with }, hiff.trans ⟨fun hall _ => hall, fun hall => hall rfl⟩⟩

end State

/-- From an empty book on, after every message each side shows the cache exactly when every recap that is
handled gives each side a price and a size, or none of both. -/
theorem sides_show_cache_iff (c : Settings P) (hm : 0 ≤ c.quoteSizeMultiplier) (s : State P)
    (htidy : Tidy c.book s.book) (hempty : ∀ side p, levelAt s.book c.book side p = none)
    (hcache : s.cache = {}) (msgs : List (QuoteMsg P))
    (hmsgs : ∀ msg ∈ msgs, msg.msgQual = none ∧ msg.NonNegative) :
    (∀ n < msgs.length, Matches c ((msgs.take (n + 1)).foldl (onMsg c) s)) ↔
      Along (onMsg c)
        (fun s msg => s.handles c msg.type = true → isRecap msg.type = true →
          Whole c msg .bid ∧ Whole c msg .ask) s msgs := by
  have hblank : ∀ side, s.cache.quoted side = {} := by
    intro side
    rw [hcache]
    cases side <;> rfl
  have hsane : Sane c s := ⟨htidy, fun side => by rw [hblank]⟩
  have hstart : Matches c s := fun side _ p => by
    rw [hempty, hblank]
    rfl
  rw [← along_iff_forall_take]
  refine Along.congr_on (I := fun s => Sane c s ∧ Matches c s) ⟨hsane, hstart⟩ ?_ ?_
  · rintro s ⟨hsane, hmatches⟩ msg hmem
    exact (onMsg_matches_iff hm hsane hmatches (hmsgs msg hmem).1 (hmsgs msg hmem).2).2
  · rintro s ⟨hsane, hmatches⟩ msg hmem hafter
    exact ⟨(onMsg_matches_iff hm hsane hmatches (hmsgs msg hmem).1 (hmsgs msg hmem).2).1, hafter⟩

def newListener : State Int where
  book := World.init (fun _ => false) (fun _ => none)
  topOfBook := ()

def wholeUnits : Settings Int where
  book := 0
  isZero price := decide (price = 0)

theorem findLevel_newListener (side : Side) (p : Int) : findLevel newListener.book wholeUnits.book side p = none := by
  cases side <;> simp [newListener, World.init, findLevel, Book.levels]

theorem newListener_tidy : Tidy wholeUnits.book newListener.book := by
  refine ⟨(sound_init _ _).toWired, fun {s p l} hl => ?_⟩
  rw [findLevel_newListener] at hl
  cases hl

def quoteMsgs : List (QuoteMsg Int) :=
  [{ type := .recap, fields := [.bidPrice 10, .bidSize 5] }, { type := .quote, fields := [.bidPrice 11] },
    { type := .update, fields := [.bidSize 0] }]

theorem sides_show_cache_quoteMsgs :
    quoteMsgs.length = 3 ∧
      ∀ n < 3, Matches wholeUnits ((quoteMsgs.take (n + 1)).foldl (onMsg wholeUnits) newListener) := by
  refine ⟨rfl, (sides_show_cache_iff wholeUnits (by decide) newListener newListener_tidy (fun side p => ?_) rfl
    quoteMsgs ?_).mpr ?_⟩
  · rw [levelAt, findLevel_newListener]
    rfl
  · unfold QuoteMsg.NonNegative
    decide +kernel
  · unfold Whole
    decide +kernel

theorem recap_without_size_leaves_level :
    ¬ Matches wholeUnits (onMsg wholeUnits newListener { type := .recap, fields := [.bidPrice 10] }) ∧
      ¬ Matches wholeUnits
        (onMsg wholeUnits
          (onMsg wholeUnits newListener { type := .recap, fields := [.bidPrice 10] })
          { type := .quote, fields := [.bidPrice 11, .bidSize 5] }) := by
  constructor
  · intro h
    exact absurd (h .bid (by decide) 10) (by decide +kernel)
  · intro h
    exact absurd (h .bid (by decide) 10) (by decide +kernel)

end OpenMama.QuoteBook
