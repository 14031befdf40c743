import OpenMama.OrderBook.Book
import Mathlib.Data.List.Nodup
import Mathlib.Algebra.Order.Ring.Nat

/-!
# How the pointers hang together

`Wired` is what the pointers of the heap satisfy between calls: a level is stored in one place only, under its price
and side, and an entry object is listed at most once, by the level it points back to. It is preserved by every
primitive step. The placeholder of a level may be listed many times, by its own level only, and is blank.
-/

namespace OpenMama.OrderBook

open Book List PriceLevel EntryRef

variable {P : Type} [LinearOrder P]

/-- The level in a place of a book: under a price of a side, or the market orders of a side. -/
def stored (w : World P) (b : BookRef) (s : Side) : Option P → Option LevelRef
  | some p => findLevel w b s p
  | none => (w.book b).marketOrders s

structure SameContent (entry entry' : Entry) : Prop where
  id : entry'.id = entry.id
  size : entry'.size = entry.size
  sourceDeriv : entry'.sourceDeriv = entry.sourceDeriv

variable {w : World P} {b b' : BookRef} {side s : Side} {price p : P} {l : LevelRef} {q : Option P}

theorem SameContent.refl (entry : Entry) : SameContent entry entry := ⟨rfl, rfl, rfl⟩

theorem SameContent.trans {e₁ e₂ e₃ : Entry} (h₁ : SameContent e₁ e₂) (h₂ : SameContent e₂ e₃) : SameContent e₁ e₃ :=
  ⟨h₂.id.trans h₁.id, h₂.size.trans h₁.size, h₂.sourceDeriv.trans h₁.sourceDeriv⟩

/-- Levels and entries know their places, and no place or list shares them. -/
structure Wired (w : World P) : Prop where
  slot : ∀ {b s p l}, findLevel w b s p = some l → (w.level l).price = p ∧ (w.level l).side = s
  allocated : ∀ {b s q l}, stored w b s q = some l → l < w.nextLevel
  owner : ∀ {b b' s s' q q' l}, stored w b s q = some l → stored w b' s' q' = some l →
    b' = b ∧ s' = s ∧ q' = q
  listed : ∀ {l n}, .obj n ∈ (w.level l).entryList →
    n < w.nextEntry ∧ (w.entry (.obj n)).priceLevel = some l
  placeholder : ∀ {l k}, .reserved k ∈ (w.level l).entryList → k = l
  once : ∀ l n, (w.level l).entryList.count (.obj n) ≤ 1
  blank : ∀ l, SameContent {} (w.entry (.reserved l))

theorem findLevel_insertLevel (hside : side ≠ .unknown) :
    findLevel (insertLevel w b side price l) b' s p =
      if b' = b ∧ s = side ∧ p = price then some l else findLevel w b' s p := by
  by_cases hb : b' = b
  · subst hb
    by_cases hs : s = side
    · subst hs
      simp [findLevel, insertLevel, Book.levels_setLevels hside]
    · simp [findLevel, insertLevel, Book.levels_setLevels hside, hs]
  · simp [findLevel, insertLevel, hb]

theorem findLevel_eraseLevel :
    findLevel (eraseLevel w b side price) b' s p =
      if b' = b ∧ s = side ∧ p = price then none else findLevel w b' s p := by
  by_cases hb : b' = b
  · subst hb
    cases side <;> cases s <;> simp [findLevel, eraseLevel, Book.levels, Book.setLevels]
  · simp [findLevel, eraseLevel, hb]

theorem stored_insertLevel (hside : side ≠ .unknown) :
    stored (insertLevel w b side price l) b' s q =
      if b' = b ∧ s = side ∧ q = some price then some l else stored w b' s q := by
  cases q with
  | some p => simp [stored, findLevel_insertLevel hside]
  | none => by_cases hb : b' = b <;> simp [stored, insertLevel, hb]

theorem stored_eraseLevel :
    stored (eraseLevel w b side price) b' s q =
      if b' = b ∧ s = side ∧ q = some price then none else stored w b' s q := by
  cases q with
  | some p => simp [stored, findLevel_eraseLevel]
  | none => by_cases hb : b' = b <;> simp [stored, eraseLevel, hb]

theorem stored_setMarketOrders {l : Option LevelRef} (hside : side ≠ .unknown) :
    stored (w.modifyBook b (·.setMarketOrders side l)) b' s q =
      if b' = b ∧ s = side ∧ q = none then l else stored w b' s q := by
  by_cases hb : b' = b
  · subst hb
    cases q with
    | some p => simp [stored, findLevel]
    | none => simp [stored, Book.marketOrders_setMarketOrders hside]
  · cases q <;> simp [stored, findLevel, hb]

theorem stored_congr {w' : World P} (hbook : w'.book b = w.book b) (s : Side) (q : Option P) :
    stored w' b s q = stored w b s q := by
  cases q <;> simp only [stored, findLevel, hbook]

theorem side_ne_unknown (hl : findLevel w b s p = some l) : s ≠ .unknown := by
  rintro rfl
  simp [findLevel] at hl

@[simp] theorem PriceLevel.findLevel_eraseEntry (w : World P) (l : LevelRef) (e : EntryRef)
    (b : BookRef) (s : Side) (p : P) :
    findLevel (eraseEntry w l e) b s p = findLevel w b s p := by
  simp [findLevel]

@[simp] theorem PriceLevel.stored_eraseEntry (w : World P) (l : LevelRef) (e : EntryRef)
    (b : BookRef) (s : Side) (q : Option P) :
    stored (eraseEntry w l e) b s q = stored w b s q := by
  cases q <;> simp [stored]

namespace Wired

variable {w w' : World P}

variable {l : LevelRef} {e : EntryRef} {b : BookRef} {s : Side} {g : PriceLevel P → PriceLevel P} {side : Side}

theorem stored_modifyBook {f : Book P → Book P}
    (hlevels : ∀ {s : Side} {p : P} {l}, ((f (w.book b)).levels s)[p]? = some l → ((w.book b).levels s)[p]? = some l)
    (hmarket : ∀ {s : Side} {l}, (f (w.book b)).marketOrders s = some l → (w.book b).marketOrders s = some l)
    {b' : BookRef} {q : Option P} (hl : stored (w.modifyBook b f) b' s q = some l) : stored w b' s q = some l := by
  by_cases hb : b' = b
  · subst hb
    cases q with
    | some p =>
      simp only [stored, findLevel, World.modifyBook_book, if_true] at hl ⊢
      exact hlevels hl
    | none =>
      simp only [stored, World.modifyBook_book, if_true] at hl ⊢
      exact hmarket hl
  · cases q <;> simpa [stored, findLevel, hb] using hl

/-- An entry a level may list: its own placeholder, or an entry object that no level lists. -/
def Listable (w : World P) (l : LevelRef) (e : EntryRef) : Prop :=
  e = .reserved l ∨ ∃ n, e = .obj n ∧ n < w.nextEntry ∧ ∀ l', .obj n ∉ (w.level l').entryList

variable (h : Wired w)
include h

theorem freshEntry_not_mem (l : LevelRef) : w.freshEntry ∉ (w.level l).entryList := by
  intro he
  exact Nat.lt_irrefl _ (h.listed he).1

theorem not_mem_of_ne {l' : LevelRef} (he : e ∈ (w.level l).entryList) (hne : l' ≠ l) :
    e ∉ (w.level l').entryList := by
  intro he'
  cases e with
  | obj n =>
    have heq := (h.listed he').2.symm.trans (h.listed he).2
    exact hne (Option.some.inj heq)
  | reserved k => exact hne ((h.placeholder he').symm.trans (h.placeholder he))

theorem slot_inj {b' : BookRef} {s' : Side} {p p' : P} (hl : findLevel w b s p = some l)
    (hl' : findLevel w b' s' p' = some l) :
    b' = b ∧ s' = s ∧ p' = p := by
  have hstored : stored w b s (some p) = some l := hl
  have hstored' : stored w b' s' (some p') = some l := hl'
  obtain ⟨hb, hs, hp⟩ := h.owner hstored hstored'
  exact ⟨hb, hs, Option.some.inj hp⟩

theorem lt_nextLevel {p : P} (hl : findLevel w b s p = some l) :
    l < w.nextLevel := h.allocated (q := some p) hl

theorem congr (hfind : ∀ {b s q l}, stored w' b s q = some l → stored w b s q = some l)
    (hlevel : ∀ l, (w'.level l).price = (w.level l).price ∧ (w'.level l).side = (w.level l).side ∧
      (w'.level l).entryList = (w.level l).entryList)
    (hentry : ∀ n < w.nextEntry, (w'.entry (.obj n)).priceLevel = (w.entry (.obj n)).priceLevel)
    (hblank : ∀ k, SameContent (w.entry (.reserved k)) (w'.entry (.reserved k)))
    (hnextEntry : w.nextEntry ≤ w'.nextEntry) (hnextLevel : w.nextLevel ≤ w'.nextLevel) :
    Wired w' where
  slot {b s p l} hl := by
    obtain ⟨hprice, hside⟩ := h.slot (hfind (q := some p) hl)
    exact ⟨(hlevel _).1.trans hprice, (hlevel _).2.1.trans hside⟩
  allocated hl := (h.allocated (hfind hl)).trans_le hnextLevel
  owner hl hl' := h.owner (hfind hl) (hfind hl')
  listed he := by
    rw [(hlevel _).2.2] at he
    obtain ⟨hlt, hback⟩ := h.listed he
    exact ⟨hlt.trans_le hnextEntry, (hentry _ hlt).trans hback⟩
  placeholder he := h.placeholder ((hlevel _).2.2 ▸ he)
  once l n := (hlevel l).2.2 ▸ h.once l n
  blank k := (h.blank k).trans (hblank k)

theorem newEntry (entry : Entry) : Wired (w.newEntry entry) := by
  refine h.congr (fun hl => hl) (fun _ => ⟨rfl, rfl, rfl⟩) (fun n hn => ?_)
    (fun _ => SameContent.refl _) (Nat.le_succ _) le_rfl
  have hne : obj n ≠ w.freshEntry := fun heq => Nat.ne_of_lt hn (obj.inj heq)
  simp [hne]

theorem modifyEntry (n : Nat) {f : Entry → Entry}
    (hf : (f (w.entry (.obj n))).priceLevel = (w.entry (.obj n)).priceLevel) :
    Wired (w.modifyEntry (.obj n) f) := by
  refine h.congr (fun hl => hl) (fun _ => ⟨rfl, rfl, rfl⟩) (fun m _ => ?_) (fun _ => SameContent.refl _) le_rfl le_rfl
  by_cases hm : m = n
  · subst hm
    simp [hf]
  · simp [hm]

theorem rewriteLevel
    (hslot : ∀ {b s p}, findLevel w b s p = some l → (g (w.level l)).price = p ∧ (g (w.level l)).side = s)
    (hlist : (g (w.level l)).entryList.Sublist (w.level l).entryList) : Wired (w.modifyLevel l g) := by
  have hlists : ∀ l', ((w.modifyLevel l g).level l').entryList.Sublist (w.level l').entryList := by
    intro l'
    by_cases hl : l' = l
    · subst hl
      simpa using hlist
    · simp [hl]
  refine { slot := ?_, allocated := h.allocated, owner := fun h₁ h₂ => h.owner h₁ h₂,
           listed := fun he => h.listed ((hlists _).subset he), blank := h.blank,
           placeholder := fun he => h.placeholder ((hlists _).subset he),
           once := fun l n => ((hlists l).count_le _).trans (h.once l n) }
  intro b s p l' hl'
  by_cases hl : l' = l
  · subst hl
    simpa using hslot hl'
  · simpa [hl] using h.slot hl'

theorem modifyLevel {l : LevelRef} {g : PriceLevel P → PriceLevel P}
    (hg : (g (w.level l)).price = (w.level l).price ∧ (g (w.level l)).side = (w.level l).side ∧
      (g (w.level l)).entryList = (w.level l).entryList) : Wired (w.modifyLevel l g) := by
  refine h.rewriteLevel (fun hl => ?_) (by rw [hg.2.2])
  rw [hg.1, hg.2.1]
  exact h.slot hl

theorem modifyBook {f : Book P → Book P}
    (hlevels : ∀ {s : Side} {p : P} {l}, ((f (w.book b)).levels s)[p]? = some l → ((w.book b).levels s)[p]? = some l)
    (hmarket : ∀ {s : Side} {l}, (f (w.book b)).marketOrders s = some l → (w.book b).marketOrders s = some l) :
    Wired (w.modifyBook b f) := by
  exact h.congr (stored_modifyBook hlevels hmarket) (fun _ => ⟨rfl, rfl, rfl⟩) (fun _ _ => rfl)
    (fun _ => SameContent.refl _) le_rfl le_rfl

theorem eraseLevel (b : BookRef) (side : Side) (price : P) : Wired (eraseLevel w b side price) := by
  refine h.congr ?_ (fun _ => ⟨rfl, rfl, rfl⟩) (fun _ _ => rfl) (fun _ => SameContent.refl _) le_rfl le_rfl
  intro _ s q l hl
  rw [stored_eraseLevel] at hl
  split at hl
  · cases hl
  · exact hl

theorem newLevel {lev : PriceLevel P} (hlev : lev.entryList = []) : Wired (w.newLevel lev) := by
  have hmem : ∀ {l e}, e ∈ ((w.newLevel lev).level l).entryList → e ∈ (w.level l).entryList := by
    intro l e he
    by_cases hl : l = w.nextLevel
    · simp [hl, hlev] at he
    · simpa [hl] using he
  refine { slot := ?_, allocated := fun hl => Nat.lt_succ_of_lt (h.allocated hl),
           owner := fun hl hl' => h.owner hl hl', listed := fun he => h.listed (hmem he),
           placeholder := fun he => h.placeholder (hmem he), once := ?_, blank := h.blank }
  · intro b s p l hl
    obtain ⟨hprice, hside⟩ := h.slot hl
    simp [Nat.ne_of_lt (h.lt_nextLevel hl), hprice, hside]
  · intro l n
    by_cases hl : l = w.nextLevel
    · simp [hl, hlev]
    · simpa [hl] using h.once l n

/-! ### Steps that change the wiring -/

theorem relist (l : LevelRef) (hfind : ∀ {b s q l'}, stored w' b s q = some l' → stored w b s q = some l')
    (hlevel : ∀ l', (w'.level l').price = (w.level l').price ∧ (w'.level l').side = (w.level l').side)
    (hothers : ∀ l', l' ≠ l → (w'.level l').entryList = (w.level l').entryList)
    (hentry : ∀ l' n, l' ≠ l → .obj n ∈ (w.level l').entryList →
      (w'.entry (.obj n)).priceLevel = (w.entry (.obj n)).priceLevel)
    (hlisted : ∀ n, .obj n ∈ (w'.level l).entryList →
      n < w'.nextEntry ∧ (w'.entry (.obj n)).priceLevel = some l)
    (hplaceholder : ∀ k, .reserved k ∈ (w'.level l).entryList → k = l)
    (honce : ∀ n, (w'.level l).entryList.count (.obj n) ≤ 1)
    (hblank : ∀ k, SameContent (w.entry (.reserved k)) (w'.entry (.reserved k)))
    (hnextEntry : w.nextEntry ≤ w'.nextEntry) (hnextLevel : w.nextLevel ≤ w'.nextLevel) :
    Wired w' where
  slot {b s p l} hl := by
    obtain ⟨hprice, hside⟩ := h.slot (hfind (q := some p) hl)
    exact ⟨(hlevel _).1.trans hprice, (hlevel _).2.trans hside⟩
  allocated hl := (h.allocated (hfind hl)).trans_le hnextLevel
  owner hl hl' := h.owner (hfind hl) (hfind hl')
  listed {l' n} he := by
    by_cases hl : l' = l
    · subst hl
      exact hlisted n he
    · rw [hothers l' hl] at he
      obtain ⟨hlt, hback⟩ := h.listed he
      exact ⟨hlt.trans_le hnextEntry, (hentry l' n hl he).trans hback⟩
  placeholder {l' k} he := by
    by_cases hl : l' = l
    · subst hl
      exact hplaceholder k he
    · exact h.placeholder (hothers l' hl ▸ he)
  once l' n := by
    by_cases hl : l' = l
    · subst hl
      exact honce n
    · exact hothers l' hl ▸ h.once l' n
  blank k := (h.blank k).trans (hblank k)

theorem listEntry {l : LevelRef} {e : EntryRef} (he : Listable w l e)
    {f : Entry → Entry} {g : PriceLevel P → PriceLevel P}
    (hf : (f (w.entry e)).priceLevel = some l) (hcontent : SameContent (w.entry e) (f (w.entry e)))
    (hg : (g (w.level l)).price = (w.level l).price ∧ (g (w.level l)).side = (w.level l).side)
    (hmem : ∀ x ∈ (g (w.level l)).entryList, x = e ∨ x = .reserved l ∨ x ∈ (w.level l).entryList)
    (hcount : ∀ n, (g (w.level l)).entryList.count (.obj n) ≤
      (w.level l).entryList.count (.obj n) + if e = .obj n then 1 else 0) :
    Wired ((w.modifyEntry e f).modifyLevel l g) := by
  set w' := (w.modifyEntry e f).modifyLevel l g with hw'
  have hself : w'.level l = g (w.level l) := by simp [hw']
  have hother : ∀ l', l' ≠ l → w'.level l' = w.level l' := fun l' hl => by simp [hw', hl]
  have hentry : ∀ x, w'.entry x = if x = e then f (w.entry e) else w.entry x := fun x => by simp [hw']
  have hfresh : ∀ {l' n}, .obj n ∈ (w.level l').entryList → obj n ≠ e := by
    rintro l' n hn rfl
    rcases he with hres | ⟨m, hm, -, hnot⟩
    · cases hres
    · cases hm
      exact hnot l' hn
  refine h.relist l (fun hl => hl) ?_ (fun l' hl => by rw [hother l' hl]) ?_ ?_ ?_ ?_ ?_ le_rfl le_rfl
  · intro l'
    by_cases hl : l' = l
    · subst hl
      rw [hself]
      exact hg
    · rw [hother l' hl]
      exact ⟨rfl, rfl⟩
  · intro _ n _ hn
    rw [hentry, if_neg (hfresh hn)]
  · intro n hn
    rw [hself] at hn
    rcases hmem _ hn with heq | hres | hold
    · rcases he with hres | ⟨m, hm, hlt, -⟩
      · cases heq.trans hres
      · have hnm : n = m := obj.inj (heq.trans hm)
        rw [hentry, if_pos heq, hnm]
        exact ⟨hlt, hf⟩
    · cases hres
    · rw [hentry, if_neg (hfresh hold)]
      exact h.listed hold
  · intro k hk
    rw [hself] at hk
    rcases hmem _ hk with heq | hres | hold
    · rcases he with hres | ⟨m, hm, -⟩
      · exact reserved.inj (heq.trans hres)
      · cases heq.trans hm
    · exact reserved.inj hres
    · exact h.placeholder hold
  · intro n
    rw [hself]
    apply (hcount n).trans
    by_cases hn : .obj n ∈ (w.level l).entryList
    · rw [if_neg fun heq => hfresh hn heq.symm]
      exact h.once l n
    · rw [count_eq_zero_of_not_mem hn]
      split <;> simp
  · intro k
    rw [hentry]
    split
    next hk =>
      rw [hk]
      exact hcontent
    · exact SameContent.refl _

theorem addEntry (he : Listable w l e) : Wired (addEntry w l e) := by
  unfold PriceLevel.addEntry
  refine h.listEntry he ?_ ?_ ?_ ?_ ?_
  · rfl
  · exact ⟨rfl, rfl, rfl⟩
  · exact ⟨rfl, rfl⟩
  · intro x hx
    rcases mem_append.mp hx with hold | hnew
    · exact .inr (.inr hold)
    · exact .inl (mem_singleton.mp hnew)
  · intro n
    change ((w.level l).entryList ++ [e]).count (.obj n) ≤ _
    simp [count_append, count_singleton]

theorem addEntryAt (he : Listable w l e) (entryPosition : Nat) : Wired (addEntryAt w l e entryPosition) := by
  unfold PriceLevel.addEntryAt
  refine h.listEntry he ?_ ?_ ?_ ?_ ?_
  · rfl
  · exact ⟨rfl, rfl, rfl⟩
  · exact ⟨rfl, rfl⟩
  · exact fun x hx => mem_insertAt hx
  · exact fun n => count_insertAt l (w.level l).entryList e entryPosition n

theorem eraseEntry (l : LevelRef) (e : EntryRef) : Wired (eraseEntry w l e) := by
  have hlevel := fun l' => eraseEntry_level w l l' e
  have hlist : ((PriceLevel.eraseEntry w l e).level l).entryList = (w.level l).entryList.erase e := by
    rw [hlevel, if_pos rfl]
    rfl
  refine h.relist l ?_ ?_ ?_ ?_ ?_ ?_ ?_ (fun k => by simpa using SameContent.refl _) (by simp) (by simp)
  · intro b s q _ hl'
    rwa [stored_eraseEntry] at hl'
  · intro _
    rw [hlevel]
    split
    next hl =>
      subst hl
      exact ⟨rfl, rfl⟩
    · exact ⟨rfl, rfl⟩
  · intro _ hl
    rw [hlevel, if_neg hl]
  · simp
  · intro n hn
    rw [hlist] at hn
    simpa using h.listed (mem_of_mem_erase hn)
  · intro k hk
    rw [hlist] at hk
    exact h.placeholder (mem_of_mem_erase hk)
  · intro n
    rw [hlist]
    exact (erase_sublist.count_le _).trans (h.once l n)

theorem place {q : Option P} (hlt : l < w.nextLevel) (hfree : ∀ b s q, stored w b s q ≠ some l)
    (hslot : ∀ p, q = some p → (w.level l).price = p ∧ (w.level l).side = side) (hlevel : w'.level = w.level)
    (hentry : w'.entry = w.entry) (hnextEntry : w'.nextEntry = w.nextEntry) (hnextLevel : w'.nextLevel = w.nextLevel)
    (hstored : ∀ b' s' q', stored w' b' s' q' = if b' = b ∧ s' = side ∧ q' = q then some l else stored w b' s' q') :
    Wired w' := by
  -- A level stored afterwards is the new one in its place, or an old one.
  have hcases : ∀ {b' s q' l'}, stored w' b' s q' = some l' →
      (b' = b ∧ s = side ∧ q' = q ∧ l' = l) ∨ (stored w b' s q' = some l' ∧ l' ≠ l) := by
    intro b' s q' _ hl'
    rw [hstored] at hl'
    split at hl'
    next hplace => exact .inl ⟨hplace.1, hplace.2.1, hplace.2.2, (Option.some.inj hl').symm⟩
    · exact .inr ⟨hl', fun heq => hfree b' s q' (heq ▸ hl')⟩
  constructor
  · intro b' s p l' hl'
    rw [hlevel]
    change stored w' b' s (some p) = some l' at hl'
    rcases hcases hl' with ⟨-, rfl, hp, rfl⟩ | ⟨hold, -⟩
    · exact hslot p hp.symm
    · exact h.slot hold
  · intro _ s _ _ hl'
    rw [hnextLevel]
    rcases hcases hl' with ⟨-, -, -, rfl⟩ | ⟨hold, -⟩
    · exact hlt
    · exact h.allocated hold
  · intro _ _ _ _ _ _ _ h₁ h₂
    rcases hcases h₁ with ⟨rfl, rfl, rfl, rfl⟩ | ⟨hold₁, hne₁⟩ <;>
      rcases hcases h₂ with ⟨rfl, rfl, rfl, heq⟩ | ⟨hold₂, hne₂⟩
    · exact ⟨rfl, rfl, rfl⟩
    · exact absurd rfl hne₂
    · exact absurd heq hne₁
    · exact h.owner hold₁ hold₂
  · intro _ n he
    rw [hlevel] at he
    rw [hentry, hnextEntry]
    exact h.listed he
  · intro _ k he
    rw [hlevel] at he
    exact h.placeholder he
  · intro l' n
    rw [hlevel]
    exact h.once l' n
  · intro k
    rw [hentry]
    exact h.blank k

theorem insertLevel (b : BookRef) {price : P} (hside : side ≠ .unknown) (hlt : l < w.nextLevel)
    (hl : (w.level l).price = price ∧ (w.level l).side = side) (hfree : ∀ b s q, stored w b s q ≠ some l) :
    Wired (insertLevel w b side price l) := by
  refine h.place hlt hfree (fun p hp => ?_) rfl rfl rfl rfl fun b' s' q' => stored_insertLevel hside
  cases hp
  exact hl

theorem insertMarketOrders (b : BookRef) (hside : side ≠ .unknown) (hlt : l < w.nextLevel)
    (hfree : ∀ b s q, stored w b s q ≠ some l) : Wired (w.modifyBook b (·.setMarketOrders side (some l))) := by
  refine h.place (q := none) hlt hfree (fun p hp => ?_) rfl rfl rfl rfl fun b' s' q' => stored_setMarketOrders hside
  cases hp

end Wired

end OpenMama.OrderBook
