import OpenMama.OrderBook.Tally
import OpenMama.Lib.Run

/-!
# A level's figures are those of its entries

The entry operations of a book, run one after the other on any number of books. Each keeps `Sound`, provided that an
entry whose size is updated is still in the book: `updateEntry` of an entry that was deleted moves the size of a level
that no longer lists it.
-/

namespace OpenMama.OrderBook

open Book PriceLevel Outcome World OrderedMap

variable {P : Type} [LinearOrder P]

inductive EntryOp (P : Type) where
  | addEntry (b : BookRef) (entry : Entry) (price : P) (side : Side) (eventTime : DateTime)
  | updateEntry (b : BookRef) (e : EntryRef) (size : Int) (eventTime : DateTime)
  | deleteEntry (b : BookRef) (e : EntryRef) (eventTime : DateTime)
  | addEntriesFromBook (b source : BookRef) (filter : Option (Entry → Bool))
  | addPriceLevelsFromBookAsEntries (b source : BookRef) (sourceId : Option String)
  | deleteEntriesFromSource (b : BookRef) (source : Nat)

namespace EntryOp

/-- The heap after a call, whether it returned or threw. `addEntry` is given an entry object of its
own. -/
def apply (w : World P) : EntryOp P → World P
  | addEntry b entry price side eventTime =>
    (Book.addEntry (w.newEntry entry) b w.freshEntry price side eventTime {}).1
  | updateEntry b e size eventTime => (Book.updateEntry w b e size eventTime {}).state.1
  | deleteEntry b e eventTime => (Book.deleteEntry w b e eventTime {}).state.1
  | addEntriesFromBook b source filter => (Book.addEntriesFromBook w b source filter).1
  | addPriceLevelsFromBookAsEntries b source sourceId => (Book.addPriceLevelsFromBookAsEntries w b source sourceId).1
  | deleteEntriesFromSource b source => (Book.deleteEntriesFromSource w b source).state.1

/-- Sizes are not negative, and a book is not added to itself (the loop over a level's entries would meet those it adds,
and not end). -/
def Admissible : EntryOp P → Prop
  | addEntry _ entry _ _ _ => 0 ≤ entry.size
  | updateEntry _ _ size _ => 0 ≤ size
  | addEntriesFromBook b source _ => source ≠ b
  | _ => True

instance : DecidablePred (Admissible : EntryOp P → Prop)
  | addEntry _ entry _ _ _ => inferInstanceAs (Decidable (0 ≤ entry.size))
  | updateEntry _ _ size _ => inferInstanceAs (Decidable (0 ≤ size))
  | addEntriesFromBook b source _ => inferInstanceAs (Decidable (source ≠ b))
  | deleteEntry .. | addPriceLevelsFromBookAsEntries .. | deleteEntriesFromSource .. => isTrue trivial

end EntryOp

def Holds (w : World P) (b : BookRef) (e : EntryRef) : Prop :=
  ∃ s p l, findLevel w b s p = some l ∧ e ∈ (w.level l).entryList

/-- The entry an `updateEntry` is given is in the book, or was never in a level (and the call throws).
-/
def EntryOp.UpdatesHeld (w : World P) : EntryOp P → Prop
  | updateEntry b e _ _ => (w.entry e).priceLevel = none ∨ Holds w b e
  | _ => True

/-- Every level is stored under its own price and side, its figures are those of its list, and the entries of its list
point back to it. -/
def LevelsAddUp (w : World P) (b : BookRef) : Prop :=
  ∀ s p l, findLevel w b s p = some l →
    ((w.level l).price = p ∧ (w.level l).side = s) ∧ Tally w l ∧
      ∀ e ∈ (w.level l).entryList, (w.entry e).priceLevel = some l

variable {w : World P} {b : BookRef} {side : Side} {l : LevelRef} {s : PriceLevel.Recorded P}

theorem Sound.levelsAddUp (h : Sound w) (b : BookRef) : LevelsAddUp w b := by
  intro s p l hl
  exact ⟨h.slot hl, h.tally l, fun e he => h.priceLevel he⟩

theorem sound_init [Inhabited P] (check : BookRef → Bool)
    (source : BookRef → Option SourceDerivative) : Sound (init check source : World P) := by
  have hstored : ∀ b s q, stored (init check source : World P) b s q = none := by
    intro b s q
    cases q <;> cases s <;> simp [stored, findLevel, init, levels, marketOrders]
  have hfind : ∀ b s p, findLevel (init check source : World P) b s p = none := fun b s p => hstored b s (some p)
  have hlist : ∀ l, ((init check source : World P).level l).entryList = [] := fun _ => rfl
  refine { slot := ?_, allocated := ?_, owner := ?_, listed := ?_, placeholder := ?_, once := ?_,
           blank := fun _ => SameContent.refl _, book := ?_, objects := ?_, nonneg := ?_, tally := ?_ }
  · intro b s p l hl
    simp [hfind] at hl
  · intro b s q l hl
    simp [hstored] at hl
  · intro b _ s _ q _ l hl
    simp [hstored] at hl
  · intro l n he
    simp [hlist] at he
  · intro l k he
    simp [hlist] at he
  · simp [hlist]
  · intro b s p l hl
    simp [hfind] at hl
  · intro l e he
    simp [hlist] at he
  · simp [init]
  · intro l
    constructor <;> simp [countedEntries, hlist] <;> rfl

theorem Sound.findOrCreateLevel {w' : World P} (h : Sound w) {price : P} {a : Action} (hside : side ≠ .unknown)
    (hfoc : findOrCreateLevel w b side price side = (w', l, a)) :
    Sound w' ∧ findLevel w' b side price = some l ∧ w'.entry = w.entry ∧
      w'.nextEntry = w.nextEntry ∧
      ∀ l' e, e ∈ (w'.level l').entryList → e ∈ (w.level l').entryList := by
  unfold Book.findOrCreateLevel at hfoc
  split at hfoc
  next _ hl₀ =>
    cases hfoc
    exact ⟨h, hl₀, rfl, rfl, fun _ _ he => he⟩
  · cases hfoc
    refine ⟨h.insertNewLevel hside, ?_, rfl, rfl, ?_⟩
    · simp [findLevel_insertLevel hside]
    · intro l' e he
      by_cases hl : l' = w.nextLevel
      · simp [insertLevel, hl, entryList] at he
      · simpa [insertLevel, hl] using he

theorem Sound.addEntrySide (h : Sound w) (price : P) (eventTime : DateTime) {n : Nat} (hside : side ≠ .unknown)
    (hn : n < w.nextEntry) (hfresh : ∀ l, .obj n ∉ (w.level l).entryList) :
    Sound (addEntrySide w b side (.obj n) price side eventTime).1 := by
  rcases hfoc : Book.findOrCreateLevel w b side price side with ⟨_, l, a⟩
  obtain ⟨hw', hfind, -, hnext, hlists⟩ := h.findOrCreateLevel hside hfoc
  simp only [Book.addEntrySide, hfoc]
  refine Sound.addEntry (hw'.modifyLevel ?_) l ?_ ?_
  · exact ⟨rfl, rfl, (hw'.book hfind).symm, rfl, rfl, rfl, rfl⟩
  · simpa [hnext] using hn
  · intro l' he
    refine hfresh l' (hlists l' _ ?_)
    by_cases hl : l' = l
    · subst hl
      simpa [entryList] using he
    · simpa [hl] using he

theorem Sound.updateEntry (h : Sound w) {e : EntryRef} {size : Int} (eventTime : DateTime) (delta : BasicDelta)
    (hsize : 0 ≤ size) (htarget : (w.entry e).priceLevel = none ∨ Holds w b e) :
    Sound (updateEntry w b e size eventTime delta).state.1 := by
  rcases htarget with hnone | ⟨s, p, l, hl, he⟩
  · simpa only [Book.updateEntry, hnone, throw_state] using h
  · have hcheck : w.checkState l = (w.book b).checkVisibility := by simp only [checkState, h.book hl]
    simp only [Book.updateEntry, h.priceLevel he, ok_state]
    by_cases hchanged : size = (w.entry e).size
    · simpa [hchanged] using h
    · by_cases hcounted : w.counted (w.book b).checkVisibility e
      · simp only [hchanged, hcounted, ne_eq, not_false_eq_true, decide_true, Bool.and_self, if_true]
        refine h.resizeEntry he hsize eventTime ⟨rfl, rfl, rfl, rfl, ?_, rfl, rfl⟩
        have hnonneg := (h.tally l).resize_nonneg (h.nodup l) (fun x _ => h.nonneg x) he hsize (hcheck ▸ hcounted)
        simp [setSize, hcheck, hcounted, hnonneg]
      · simp only [hchanged, hcounted, ne_eq, not_false_eq_true, decide_true, Bool.and_false,
          if_true, Bool.false_eq_true, if_false]
        have hsame := h.resizeEntry (g := id) he hsize eventTime
          ⟨rfl, rfl, rfl, rfl, by simp [hcheck, hcounted], rfl, rfl⟩
        simpa [World.modifyLevel] using hsame

theorem Sound.detach (h : Sound w) (b : BookRef) (l : LevelRef) : Sound (detach w b l) := by
  unfold Book.detach
  dsimp only
  split
  · refine h.modifyBook (fun hl => by simpa using hl) (fun {s l'} hl => ?_) (by simp)
    revert hl
    cases (w.level l).side <;> cases s <;> simp [marketOrders, setMarketOrders]
  · split
    · have herase : Sound (eraseLevel w b (w.level l).side (w.level l).price) := by
        refine h.congr ?_ ?_ (fun l => SameLevel.refl _) (fun _ _ => ⟨rfl, rfl, rfl⟩)
          (fun _ => SameContent.refl _) h.nonneg le_rfl le_rfl
        · intro _ s q _ hl'
          rw [stored_eraseLevel] at hl'
          split at hl'
          · cases hl'
          · exact hl'
        · intro b'
          by_cases hb : b' = b <;> simp [eraseLevel, hb]
      refine herase.modifyBook (fun {s p l'} hl' => ?_) (fun {s l'} hl' => ?_) rfl
      · cases s <;> exact hl'
      · cases s <;> exact hl'
    · exact h

theorem Sound.deleteEntry (h : Sound w) (b : BookRef) (e : EntryRef) (eventTime : DateTime) (delta : BasicDelta) :
    Sound (deleteEntry w b e eventTime delta).state.1 := by
  unfold Book.deleteEntry
  cases hback : (w.entry e).priceLevel with
  | none => exact h
  | some l =>
    dsimp only [ok_state]
    set w' := w.modifyLevel l fun lev =>
      { lev with time := if w.counted (w.book b).checkVisibility e then eventTime else lev.time }
    have hw' : Sound w' := h.modifyLevel ⟨rfl, rfl, rfl, rfl, rfl, rfl, rfl⟩
    have hremoved : Sound (removeEntry w' l e) := by
      unfold removeEntry
      split
      next he => exact hw'.eraseEntry he
      · exact hw'
    split
    · exact hremoved.detach b l
    · exact hremoved

/-! ### The bulk operations -/

theorem Sound.addEntryFromLevel (h : Sound s.1) (l : LevelRef) (filter : Option (Entry → Bool)) (e : EntryRef) :
    Sound (addEntryFromLevel l filter s e).1 := by
  have hnew : Sound (s.1.newEntry (s.1.entry e).copy) := h.newEntry (h.nonneg e)
  simp only [PriceLevel.addEntryFromLevel]
  split
  · exact hnew
  · have hadded : Sound ((s.1.newEntry (s.1.entry e).copy).modifyEntry s.1.freshEntry
        fun x => { x with action := .add }) := hnew.modifyEntry _ rfl rfl rfl
    exact hadded.addEntry l (Nat.lt_succ_self _) h.freshEntry_not_mem

theorem Sound.addEntriesFromLevel (h : Sound s.1) (l src : LevelRef) (filter : Option (Entry → Bool)) :
    Sound (addEntriesFromLevel l src filter s).1 ∧
      (addEntriesFromLevel l src filter s).1.book = s.1.book := by
  unfold PriceLevel.addEntriesFromLevel
  split
  next es _ =>
    dsimp only
    obtain ⟨hsound, hbook⟩ := List.foldlRecOn
      (motive := fun (r : PriceLevel.Recorded P) => Sound r.1 ∧ r.1.book = s.1.book) es
      (PriceLevel.addEntryFromLevel l filter) ⟨h, rfl⟩ fun r hr e _ =>
        ⟨hr.1.addEntryFromLevel l filter e, by unfold PriceLevel.addEntryFromLevel; split <;> exact hr.2⟩
    exact ⟨hsound.modifyLevel ⟨rfl, rfl, rfl, rfl, rfl, rfl, rfl⟩, hbook⟩
  · exact ⟨h, rfl⟩

theorem findOrCreateLevel_book_of_ne {w' : World P} {b' : BookRef} (hb : b' ≠ b) {bookSide : Side} {price : P}
    {a : Action} (hfoc : findOrCreateLevel w b bookSide price side = (w', l, a)) : w'.book b' = w.book b' := by
  unfold findOrCreateLevel at hfoc
  split at hfoc <;> cases hfoc
  · rfl
  · simp [insertLevel, hb]

private theorem Sound.addEntriesFromBookSide (h : Sound s.1) {source : BookRef} (hne : source ≠ b)
    (hside : side ≠ .unknown) (filter : Option (Entry → Bool)) :
    let r := (iterate ((s.1.book source).levels side)).foldl
      (addEntriesFromBookLevel b side filter) s
    Sound r.1 ∧ r.1.book source = s.1.book source := by
  refine List.foldlRecOn
    (motive := fun (r : PriceLevel.Recorded P) => Sound r.1 ∧ r.1.book source = s.1.book source) _
    (addEntriesFromBookLevel b side filter) ⟨h, rfl⟩ ?_
  rintro r ⟨hr, hbook⟩ src hsrc
  obtain ⟨p, hp⟩ := mem_iterate.mp hsrc
  have hfind : findLevel r.1 source side p = some src := by rw [findLevel, hbook, hp]
  obtain ⟨-, hsrcSide⟩ := hr.slot hfind
  simp only [addEntriesFromBookLevel, hsrcSide]
  rcases hfoc : Book.findOrCreateLevel r.1 b side (r.1.level src).price side with ⟨w', l, a⟩
  obtain ⟨hw', -⟩ := hr.findOrCreateLevel hside hfoc
  obtain ⟨hsound, hkept⟩ := Sound.addEntriesFromLevel (s := (w', r.2)) hw' l src filter
  refine ⟨hsound, ?_⟩
  rw [hkept]
  exact (findOrCreateLevel_book_of_ne hne hfoc).trans hbook

theorem Sound.addEntriesFromBook (h : Sound w) {source : BookRef} (hne : source ≠ b) (filter : Option (Entry → Bool)) :
    Sound (addEntriesFromBook w b source filter).1 := by
  obtain ⟨hbids, hbook⟩ := Sound.addEntriesFromBookSide (s := (w, [])) h hne (show Side.bid ≠ .unknown by decide) filter
  have hasks := Sound.addEntriesFromBookSide hbids hne (show Side.ask ≠ .unknown by decide) filter
  rw [hbook] at hasks
  exact hasks.1

theorem Sound.addPriceLevelAsEntry {r : PriceLevel.Recorded P} (h : Sound r.1) (b source : BookRef)
    (hside : side ≠ .unknown) (sourceId : Option String) {src : LevelRef} (hsrc : (r.1.level src).side = side) :
    Sound (addPriceLevelAsEntry b source side sourceId r src).1 := by
  have hsize : 0 ≤ (r.1.level src).size := by
    rw [(h.tally src).size]
    refine List.sum_nonneg fun q hq => ?_
    obtain ⟨x, -, rfl⟩ := List.mem_map.mp hq
    exact h.nonneg x
  simp only [Book.addPriceLevelAsEntry, hsrc]
  apply Sound.addEntrySide (h.newEntry hsize) _ _ hside (Nat.lt_succ_self _)
  exact h.freshEntry_not_mem

def KeepsSides (w w' : World P) : Prop :=
  ∀ l < w.nextLevel, l < w'.nextLevel ∧ (w'.level l).side = (w.level l).side

theorem KeepsSides.trans {w₁ w₂ w₃ : World P} (h₁ : KeepsSides w₁ w₂) (h₂ : KeepsSides w₂ w₃) : KeepsSides w₁ w₃ := by
  intro l hl
  obtain ⟨hl₂, hside₂⟩ := h₁ l hl
  obtain ⟨hl₃, hside₃⟩ := h₂ l hl₂
  exact ⟨hl₃, hside₃.trans hside₂⟩

theorem keepsSides_addPriceLevelAsEntry (b source : BookRef) (bookSide : Side)
    (sourceId : Option String) (r : PriceLevel.Recorded P) (src : LevelRef) :
    KeepsSides r.1 (addPriceLevelAsEntry b source bookSide sourceId r src).1 := by
  intro l hl
  have hne : l ≠ r.1.nextLevel := Nat.ne_of_lt hl
  simp only [addPriceLevelAsEntry, addEntrySide, findOrCreateLevel]
  split
  next l' _ =>
    by_cases heq : l = l'
    · subst heq
      simpa using hl
    · simpa [heq] using hl
  · simp [insertLevel, hne, Nat.lt_succ_of_lt hl]

private theorem Sound.addPriceLevelsSide (h : Sound s.1) (b source : BookRef) (hside : side ≠ .unknown)
    (sourceId : Option String) {levels : List LevelRef}
    (hlevels : ∀ src ∈ levels, src < s.1.nextLevel ∧ (s.1.level src).side = side) :
    let r := levels.foldl (Book.addPriceLevelAsEntry b source side sourceId) s
    Sound r.1 ∧ KeepsSides s.1 r.1 := by
  induction levels generalizing s with
  | nil => exact ⟨h, fun l hl => ⟨hl, rfl⟩⟩
  | cons src _ ih =>
    have hkept := keepsSides_addPriceLevelAsEntry b source side sourceId s src
    have hnext := h.addPriceLevelAsEntry b source hside sourceId (hlevels src (by simp)).2
    obtain ⟨hsound, hrest⟩ := ih hnext fun l hl => by
      obtain ⟨hlt, hl'⟩ := hlevels l (by simp [hl])
      exact ⟨(hkept l hlt).1, (hkept l hlt).2.trans hl'⟩
    exact ⟨hsound, hkept.trans hrest⟩

theorem Sound.stored (h : Sound w) (hl : l ∈ iterate ((w.book b).levels side)) :
    l < w.nextLevel ∧ (w.level l).side = side := by
  obtain ⟨p, hp⟩ := mem_iterate.mp hl
  exact ⟨h.lt_nextLevel hp, (h.slot hp).2⟩

theorem Sound.addPriceLevelsFromBookAsEntries (h : Sound w) (b source : BookRef) (sourceId : Option String) :
    Sound (Book.addPriceLevelsFromBookAsEntries w b source sourceId).1 := by
  have hbids := Sound.addPriceLevelsSide (s := (w, [])) h b source
    (show Side.bid ≠ .unknown by decide) sourceId
    fun src (hsrc : src ∈ iterate ((w.book source).levels .bid)) => h.stored hsrc
  refine (Sound.addPriceLevelsSide hbids.1 b source (show Side.ask ≠ .unknown by decide) sourceId ?_).1
  intro src (hsrc : src ∈ iterate ((w.book source).levels .ask))
  obtain ⟨hlt, hask⟩ := h.stored hsrc
  exact ⟨(hbids.2 src hlt).1, (hbids.2 src hlt).2.trans hask⟩

theorem Sound.deleteEntryFromSource (h : Sound s.1) (source : Nat) {e : EntryRef} (he : e ∈ (s.1.level l).entryList) :
    Sound (deleteEntryFromSource source l e s).state.1 := by
  unfold PriceLevel.deleteEntryFromSource
  split
  · exact h
  · split
    · exact h.eraseEntry he
    · exact h

private theorem Sound.deleteEntriesLoop (h : Sound s.1) (source : Nat) (l : LevelRef) {es : List EntryRef}
    (hnodup : es.Nodup) (hes : ∀ e ∈ es, e ∈ (s.1.level l).entryList) :
    Sound (each (PriceLevel.deleteEntryFromSource source l) es s).state.1 := by
  induction es generalizing s with
  | nil => exact h
  | cons e _ ih =>
    obtain ⟨hnot, hnodup⟩ := List.nodup_cons.mp hnodup
    have hstep := h.deleteEntryFromSource source (hes e (by simp))
    rw [each]
    cases herr : (PriceLevel.deleteEntryFromSource source l e s).error with
    | some _ => simpa only [andThen, herr] using hstep
    | none =>
      rw [andThen_of_ok herr]
      refine ih hstep hnodup fun x hx => ?_
      have hne : x ≠ e := fun heq => hnot (heq ▸ hx)
      have hlisted := hes x (by simp [hx])
      unfold PriceLevel.deleteEntryFromSource
      split
      · exact hlisted
      · split
        · rw [ok_state, eraseEntry_level, if_pos rfl]
          exact (List.mem_erase_of_ne hne).mpr hlisted
        · exact hlisted

theorem Sound.deleteEntriesFromSource (h : Sound w) (b : BookRef) (source : Nat) :
    Sound (deleteEntriesFromSource w b source).state.1 := by
  have hlevel : ∀ l (s : PriceLevel.Recorded P), Sound s.1 →
      Sound (PriceLevel.deleteEntriesFromSource source l s).state.1 := fun l s hs =>
    hs.deleteEntriesLoop source l (hs.nodup l) fun _ he => he
  have hside : ∀ ls (s : PriceLevel.Recorded P), Sound s.1 →
      Sound (each (PriceLevel.deleteEntriesFromSource source) ls s).state.1 := fun ls s hs =>
    each_invariant (I := fun (s : PriceLevel.Recorded P) => Sound s.1) hs
      fun l _ s hs => hlevel l s hs
  exact andThen_invariant (I := fun (s : PriceLevel.Recorded P) => Sound s.1)
    (hside _ (w, []) h) fun s hs => hside _ s hs

theorem Sound.apply (h : Sound w) {op : EntryOp P} (hop : op.Admissible) (htarget : op.UpdatesHeld w) :
    Sound (op.apply w) := by
  cases op with
  | addEntry b _ price side eventTime =>
    have hnew := h.newEntry hop
    cases side with
    | bid | ask => exact hnew.addEntrySide price eventTime (by decide) (Nat.lt_succ_self _) h.freshEntry_not_mem
    | unknown => exact hnew
  | updateEntry b e _ eventTime => exact h.updateEntry eventTime {} hop htarget
  | deleteEntry b e eventTime => exact h.deleteEntry b e eventTime {}
  | addEntriesFromBook b _ filter => exact h.addEntriesFromBook hop filter
  | addPriceLevelsFromBookAsEntries b source sourceId => exact h.addPriceLevelsFromBookAsEntries b source sourceId
  | deleteEntriesFromSource b source => exact h.deleteEntriesFromSource b source

/-- From empty books, after any run of entry operations in which updates are given entries of the book,
the levels of every book add up. -/
theorem levels_add_up_of_updates_held [Inhabited P] (check : BookRef → Bool)
    (source : BookRef → Option SourceDerivative) (ops : List (EntryOp P))
    (hops : Along EntryOp.apply (fun w op => op.Admissible ∧ op.UpdatesHeld w)
      (init check source) ops) (b : BookRef) :
    LevelsAddUp (ops.foldl EntryOp.apply (init check source)) b := by
  refine Sound.levelsAddUp ?_ b
  exact hops.invariant (sound_init check source) fun w op hw hop => hw.apply hop.1 hop.2

def updateThenDelete : List (EntryOp Int) :=
  [.addEntry 0 { id := some "a", size := 5 } 10 .bid {}, .addEntry 0 { id := some "b", size := 3 } 10 .bid {},
    .updateEntry 0 (.obj 0) 7 {}, .deleteEntry 0 (.obj 0) {}]

theorem levels_add_up_updateThenDelete :
    LevelsAddUp (updateThenDelete.foldl EntryOp.apply (init (fun _ => false) fun _ => none)) 0 := by
  refine levels_add_up_of_updates_held (fun _ => false) (fun _ => none) updateThenDelete ?_ 0
  refine ⟨⟨by decide, trivial⟩, ⟨by decide, trivial⟩, ⟨by decide, ?_⟩, ⟨trivial, trivial⟩, trivial⟩
  exact .inr ⟨.bid, 10, 0, by decide, by decide⟩

def deleteThenUpdate : List (EntryOp Int) :=
  [.addEntry 0 { id := some "a", size := 5 } 10 .bid {}, .addEntry 0 { id := some "b", size := 3 } 10 .bid {},
    .deleteEntry 0 (.obj 0) {}, .updateEntry 0 (.obj 0) 7 {}]

theorem not_levels_add_up_deleteThenUpdate :
    (∀ op ∈ deleteThenUpdate, op.Admissible) ∧
    ¬ LevelsAddUp (deleteThenUpdate.foldl EntryOp.apply (init (fun _ => false) fun _ => none)) 0 := by
  constructor
  · decide
  · intro h
    have hsize := (h .bid 10 0 (by decide)).2.1.size
    revert hsize
    decide

end OpenMama.OrderBook
