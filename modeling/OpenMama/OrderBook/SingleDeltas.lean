import OpenMama.OrderBook.EntryCalls
import OpenMama.OrderBook.Aggregates

/-!
# The delta of a single call

A book is built by single-entry calls, a copy of it is taken, one more call is made, and its delta is applied to the
copy. If every call that updates or deletes is given an entry the book holds, the copy is then the book. A deleted
entry keeps its pointer to the level, so a call that is given one is not refused.
-/

namespace OpenMama.OrderBook

open Book

variable {P : Type} [LinearOrder P]

inductive EntryCall (P : Type) where
  | addEntry (entry : Entry) (price : P) (side : Side) (eventTime : DateTime)
  | updateEntry (e : EntryRef) (size : Int) (eventTime : DateTime)
  | deleteEntry (e : EntryRef) (eventTime : DateTime)

namespace EntryCall

/-- The call, with the delta object it fills in. `addEntry` is given an entry object of its own. -/
def run (b : BookRef) (w : World P) : EntryCall P → Outcome (World P × BasicDelta) (BookException P)
  | addEntry entry price side eventTime =>
    .ok (Book.addEntry (w.newEntry entry) b w.freshEntry price side eventTime {})
  | updateEntry e size eventTime => Book.updateEntry w b e size eventTime {}
  | deleteEntry e eventTime => Book.deleteEntry w b e eventTime {}

def apply (b : BookRef) (w : World P) (call : EntryCall P) : World P := (call.run b w).state.1

def build [Inhabited P] (source : BookRef → Option SourceDerivative) (b : BookRef)
    (calls : List (EntryCall P)) : World P :=
  calls.foldl (apply b) (World.init (fun _ => false) source)

def Admissible (w : World P) (b : BookRef) : EntryCall P → Prop
  | addEntry entry price side _ => side ≠ .unknown ∧ 0 < entry.size ∧ entry.id ≠ none ∧
      ∀ l ∈ findLevel w b side price, ∀ e ∈ (w.level l).entryList, (w.entry e).id ≠ entry.id
  | updateEntry _ size _ => 0 < size
  | deleteEntry _ _ => True

instance (w : World P) (b : BookRef) : DecidablePred (Admissible w b)
  | addEntry _ _ _ _ => inferInstanceAs (Decidable (_ ∧ _ ∧ _ ∧ _))
  | updateEntry _ size _ => inferInstanceAs (Decidable (0 < size))
  | deleteEntry _ _ => isTrue trivial

def target : EntryCall P → Option EntryRef
  | addEntry _ _ _ _ => none
  | updateEntry e _ _ => some e
  | deleteEntry e _ => some e

def TargetHeld (w : World P) (b : BookRef) (call : EntryCall P) : Prop :=
  ∀ e, call.target = some e → Holds w b e

def Refused (w : World P) (call : EntryCall P) : Prop :=
  ∃ e, call.target = some e ∧ (w.entry e).priceLevel = none

end EntryCall

section Call

variable {w : World P} {b : BookRef} {call : EntryCall P}

theorem EntryCall.apply_of_refused (h : call.Refused w) : call.apply b w = w := by
  obtain ⟨e, he, hnone⟩ := h
  cases call with
  | addEntry => cases he
  | updateEntry =>
    cases he
    simp [EntryCall.apply, EntryCall.run, Book.updateEntry, hnone]
  | deleteEntry =>
    cases he
    simp [EntryCall.apply, EntryCall.run, Book.deleteEntry, hnone]

theorem EntryBook.run (h : EntryBook w b) (hcall : call.Admissible w b) (htarget : call.TargetHeld w b) :
    let o := call.run b w
    o.error = none ∧ ∃ s p l, Called b s p l w o.state.1 o.state.2 := by
  cases call with
  | addEntry entry price side eventTime =>
    obtain ⟨hside, hsize, hid, hnew⟩ := hcall
    have hnew' : ∀ l, findLevel w b side price = some l → ∀ v ∈ entryViews w l, v.id ≠ entry.id := by
      intro l hl v hv
      obtain ⟨e, he, rfl⟩ := List.mem_map.mp hv
      exact hnew l hl e he
    obtain ⟨l, hcalled, -⟩ := h.addEntrySide hside eventTime hid hsize hnew'
    refine ⟨rfl, side, price, l, ?_⟩
    cases side with
    | bid => exact hcalled
    | ask => exact hcalled
    | unknown => exact absurd rfl hside
  | updateEntry e _ eventTime =>
    obtain ⟨s, p, l, hl, he⟩ := htarget e rfl
    obtain ⟨hok, hcalled⟩ := h.updateEntry hl he hcall eventTime {}
    exact ⟨hok, s, p, l, hcalled⟩
  | deleteEntry e eventTime =>
    obtain ⟨s, p, l, hl, he⟩ := htarget e rfl
    obtain ⟨hok, hcalled⟩ := h.deleteEntry hl he eventTime {}
    exact ⟨hok, s, p, l, hcalled⟩

theorem EntryBook.apply (h : EntryBook w b) (hcall : call.Admissible w b)
    (htarget : call.TargetHeld w b ∨ call.Refused w) : EntryBook (call.apply b w) b := by
  rcases htarget with hheld | hrefused
  · obtain ⟨-, s, p, l, hcalled⟩ := h.run hcall hheld
    exact h.called hcalled
  · rwa [EntryCall.apply_of_refused hrefused]

end Call

/-! ### A copy and one more call -/

section Copy

variable {w w' : World P} {b c : BookRef}

theorem EntryBook.copied (h : EntryBook w b) (hne : b ≠ c) (hcopy : BookCopied c b w w') : EntryBook w' b where
  wired := hcopy.wired
  unchecked b' := (hcopy.check b').trans (h.unchecked _)
  regular {s p l} hl := by
    have hold : findLevel w b s p = some l := (hcopy.stored b s (some p) hne).symm.trans hl
    refine (h.regular hold).untouched (hcopy.untouched l (h.wired.lt_nextLevel hold)) fun b' => ?_
    rw [hcopy.check, h.unchecked, h.unchecked]
  market s := (hcopy.stored b s none hne).trans (h.market s)

theorem BookCopied.holds (hcopy : BookCopied c b w w') (hw : Wired w) (hne : b ≠ c) {e : EntryRef}
    (h : Holds w b e) : Holds w' b e := by
  obtain ⟨s, p, l, hl, he⟩ := h
  refine ⟨s, p, l, (hcopy.stored b s (some p) hne).trans hl, ?_⟩
  rwa [(hcopy.untouched l (hw.lt_nextLevel hl)).level]

theorem BookCopied.admissible (hcopy : BookCopied c b w w') (hw : Wired w) (hne : b ≠ c)
    {call : EntryCall P} (h : call.Admissible w b) : call.Admissible w' b := by
  cases call with
  | addEntry _ price side _ =>
    refine ⟨h.1, h.2.1, h.2.2.1, fun l hl e he => ?_⟩
    have hold : findLevel w b side price = some l := (hcopy.stored b side (some price) hne).symm.trans hl
    have hl' := hcopy.untouched l (hw.lt_nextLevel hold)
    rw [hl'.level] at he
    rw [hl'.entry e he]
    exact h.2.2.2 l hold e he
  | updateEntry => exact h
  | deleteEntry => exact h

end Copy

theorem entryBook_init [Inhabited P] (source : BookRef → Option SourceDerivative) (b : BookRef) :
    EntryBook (World.init (fun _ => false) source : World P) b where
  wired := (sound_init _ _).toWired
  unchecked _ := rfl
  regular {s p l} hl := by cases s <;> simp [findLevel, World.init, Book.levels] at hl
  market s := by cases s <;> rfl

theorem entryBook_build [Inhabited P] {source : BookRef → Option SourceDerivative} {b : BookRef}
    {calls : List (EntryCall P)}
    (hcalls : Along (EntryCall.apply b)
      (fun w call => call.Admissible w b ∧ (call.TargetHeld w b ∨ call.Refused w))
      (World.init (fun _ => false) source) calls) : EntryBook (EntryCall.build source b calls) b :=
  hcalls.invariant (I := fun w => EntryBook w b) (entryBook_init source b)
    fun _ _ hw hcall => hw.apply hcall.1 hcall.2

/-- `call` is made on `b`, and its delta is applied to a copy of `b` from before: nothing throws, and the copy looks
like `b` then. -/
def Replays (w : World P) (b c : BookRef) (call : EntryCall P) : Prop :=
  let copied := Book.copy w c b
  let called := call.run b copied.state
  let replayed := applyDelta c called.state.2 called.state.1
  copied.error = none ∧ called.error = none ∧ replayed.error = none ∧
    ∀ s p, bookView replayed.state c s p = bookView called.state.1 b s p

/-- After calls for entries of the book, or for detached ones, which are refused, the delta of a call for an entry of
the book does on a copy what the call did. -/
theorem replays_of_targets_held [Inhabited P] (source : BookRef → Option SourceDerivative)
    {b c : BookRef} (hne : b ≠ c) (calls : List (EntryCall P)) (call : EntryCall P)
    (hcalls : Along (EntryCall.apply b)
      (fun w call => call.Admissible w b ∧ (call.TargetHeld w b ∨ call.Refused w))
      (World.init (fun _ => false) source) calls)
    (hcall : call.Admissible (EntryCall.build source b calls) b)
    (htarget : call.TargetHeld (EntryCall.build source b calls) b) :
    Replays (EntryCall.build source b calls) b c call := by
  have hbook := entryBook_build hcalls
  set w := EntryCall.build source b calls
  obtain ⟨hok, hcopy⟩ := Book.copied hbook.wired hne hbook.duplicable
  have hcopied := hbook.copied hne hcopy
  obtain ⟨hok', s, p, l, hcalled⟩ := hcopied.run (hcopy.admissible hbook.wired hne hcall)
    fun e he => hcopy.holds hbook.wired hne (htarget e he)
  -- The copy looks like the book, which the copying left as it was.
  have hsame : ∀ s q, placeView (Book.copy w c b).state c s q = placeView (Book.copy w c b).state b s q := by
    intro s q
    rw [hcopy.view]
    refine (Untouched.placeView (hcopy.stored b s q hne) fun l hl => ?_).symm
    exact hcopy.untouched l (hbook.wired.allocated hl)
  obtain ⟨hok'', hview⟩ := hcalled.replay hcopied.wired hne.symm hsame
  exact ⟨hok, hok', hok'', fun s p => hview s (some p)⟩

def twoEntries : List (EntryCall Int) :=
  [.addEntry { id := some "a", size := 5 } 10 .bid {}, .addEntry { id := some "b", size := 3 } 10 .bid {},
    .updateEntry (.obj 0) 7 {}]

theorem replays_delete_of_twoEntries :
    Replays (EntryCall.build (fun _ => none) 0 twoEntries) 0 1 (.deleteEntry (.obj 0) {}) := by
  refine replays_of_targets_held (fun _ => none) (by decide) twoEntries (.deleteEntry (.obj 0) {}) ?_ trivial ?_
  · refine ⟨⟨by decide, .inl (by rintro e ⟨⟩)⟩, ⟨by decide, .inl (by rintro e ⟨⟩)⟩, ⟨by decide, .inl ?_⟩, trivial⟩
    rintro e ⟨⟩
    exact ⟨.bid, 10, 0, by decide, by decide⟩
  · rintro e ⟨⟩
    exact ⟨.bid, 10, 0, by decide, by decide⟩

def addThenDelete : List (EntryCall Int) :=
  [.addEntry { id := some "a", size := 5 } 10 .bid {}, .deleteEntry (.obj 0) {}]

theorem not_replays_update_of_addThenDelete :
    let w := EntryCall.build (fun _ => none) 0 addThenDelete
    let copied := Book.copy w 1 0
    let called := (EntryCall.updateEntry (.obj 0) 7 {}).run 0 copied.state
    Along (EntryCall.apply 0) (fun w call => call.Admissible w 0)
        (World.init (fun _ => false) fun _ => none) addThenDelete ∧
      (EntryCall.updateEntry (.obj 0) 7 {}).Admissible w 0 ∧
      copied.error = none ∧ called.error = none ∧
      (applyDelta 1 called.state.2 called.state.1).error =
        some (.atPrice (.levelMissing "applyLevel" "" 10) 10) ∧
      ¬ Replays w 0 1 (.updateEntry (.obj 0) 7 {}) := by
  refine ⟨⟨by decide, trivial, trivial⟩, by decide, by decide, by decide, by decide, ?_⟩
  exact fun h => nomatch h.2.2.1

end OpenMama.OrderBook
