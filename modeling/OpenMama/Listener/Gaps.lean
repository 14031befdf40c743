import OpenMama.Listener.Locking
import Mathlib.Data.UInt

/-!
# Gaps in the sequence numbers of a listener

The listener keeps one number: that of the last message, which is 0 when that message had none. So a number after an
unnumbered message is compared with 0, a second unnumbered update in a row is taken for a repetition, and a late
number is reported as a gap. `Numbers` says what is to be reported, and `detects_iff` for which messages the listener
does that.
-/

namespace OpenMama.Listener

open OrderBook List

variable {B M P T : Type} [LinearOrder P]

/-! ### What the numbers say -/

/-- The number of the last message, 0 if it had none; the last number there was; and whether numbers
were skipped since the last recap or clear. -/
structure Numbers where
  last : UInt32 := 0
  lastNumbered : Option UInt32 := none
  gap : Bool := false
deriving DecidableEq

namespace Numbers

variable (x : Numbers) (seqNum : UInt32)

def skipped : Option (UInt32 × UInt32) :=
  match x.lastNumbered with
  | some n => if n.toNat + 1 < seqNum.toNat then some (n + 1, seqNum - 1) else none
  | none => none

def repeats : Bool := seqNum != 0 && seqNum == x.last

def after (gap : Bool) : Numbers where
  last := seqNum
  lastNumbered := if seqNum = 0 then x.lastNumbered else some seqNum
  gap := gap

def next : Event M → Numbers
  | .recap msg => x.after msg.header.seqNum false
  | .clear msg => x.after msg.header.seqNum false
  | .update msg => x.after msg.header.seqNum (x.gap || (x.skipped msg.header.seqNum).isSome)
  | .timer => x

/-- An update without a number does not follow a message without one; the number after such a message is 1; and numbers
do not decrease. -/
def Orderly : Event M → Prop
  | .update msg =>
    if msg.header.seqNum = 0 then x.last ≠ 0
    else if x.last = 0 then msg.header.seqNum = 1
    else x.last ≤ msg.header.seqNum
  | _ => True

instance (x : Numbers) (event : Event M) : Decidable (x.Orderly event) := by
  cases event <;> unfold Orderly <;> infer_instance

structure Coherent (x : Numbers) : Prop where
  last : x.last ≠ 0 → x.lastNumbered = some x.last
  lastNumbered : x.lastNumbered ≠ some 0

variable {x : Numbers} {n : UInt32}

theorem Coherent.after (hx : x.Coherent) (seqNum : UInt32) (gap : Bool) : (x.after seqNum gap).Coherent := by
  refine ⟨fun h => if_neg h, ?_⟩
  by_cases h : seqNum = 0
  · simpa only [Numbers.after, if_pos h] using hx.lastNumbered
  · simpa only [Numbers.after, if_neg h, ne_eq, Option.some.injEq] using h

theorem Coherent.next (hx : x.Coherent) (event : Event M) : (x.next event).Coherent := by
  cases event with
  | recap | clear | update => exact hx.after _ _
  | timer => exact hx

def reported (last seqNum : UInt32) : Option (UInt32 × UInt32) :=
  if seqNum ≠ last ∧ seqNum ≠ 0 ∧ seqNum ≠ last + 1 then some (last + 1, seqNum - 1) else none

theorem eq_succ_iff {p : UInt32} (h : p < n) : n = p + 1 ↔ n.toNat = p.toNat + 1 := by
  have hlt := UInt32.lt_iff_toNat_lt.mp h
  have hn := n.toNat_lt
  rw [← UInt32.toNat_inj, UInt32.toNat_add]
  simp only [UInt32.reduceToNat]
  omega

theorem ne_succ {p : UInt32} (hn : n ≠ 0) (h : n < p) : n ≠ p + 1 := by
  have hlt := UInt32.lt_iff_toNat_lt.mp h
  have hp := p.toNat_lt
  rw [ne_eq, ← UInt32.toNat_inj] at hn ⊢
  rw [UInt32.toNat_add]
  simp only [UInt32.reduceToNat] at hn ⊢
  omega

theorem reported_eq_skipped (hx : x.Coherent) (hlast : x.last ≠ 0) (hn : n = 0 ∨ x.last ≤ n) :
    reported x.last n = x.skipped n := by
  rw [skipped, hx.last hlast]
  refine if_congr ?_ rfl rfl
  rcases hn with rfl | hn
  · simp
  · by_cases hne : n = x.last
    · simp [hne]
    · have hlt : x.last < n := UInt32.lt_of_le_of_ne hn (Ne.symm hne)
      have hn0 : n ≠ 0 := fun h => by simp [h] at hlt
      have := UInt32.lt_iff_toNat_lt.mp hlt
      rw [ne_eq n (x.last + 1), eq_succ_iff hlt]
      constructor
      · omega
      · intro h
        exact ⟨hne, hn0, by omega⟩

theorem reported_late (hx : x.Coherent) (hn : n ≠ 0) (hlt : n < x.last) : reported x.last n ≠ x.skipped n := by
  have hlast : x.last ≠ 0 := fun h => by simp [h] at hlt
  have := UInt32.lt_iff_toNat_lt.mp hlt
  rw [reported, skipped, hx.last hlast, if_pos ⟨UInt32.ne_of_lt hlt, hn, ne_succ hn hlt⟩]
  simp only
  rw [if_neg (by omega)]
  exact Option.some_ne_none _

theorem reported_after_unnumbered (hx : x.Coherent) (hlast : x.last = 0) (hn : n ≠ 0) :
    reported x.last n = x.skipped n ↔ n = 1 := by
  rw [reported, skipped, hlast]
  constructor
  · intro h
    by_contra hone
    rw [if_pos ⟨hn, hn, hone⟩] at h
    split at h
    next m hm =>
      split at h
      · have hm0 : m = 0 := by simpa using h.symm
        exact hx.lastNumbered (hm0 ▸ hm)
      · exact Option.some_ne_none _ h
    · exact Option.some_ne_none _ h
  · rintro rfl
    rw [if_neg (by decide)]
    split
    · rw [if_neg (by simp)]
    · rfl

theorem orderly_iff (hx : x.Coherent) (msg : Message M) :
    x.Orderly (.update msg) ↔ reported x.last msg.header.seqNum = x.skipped msg.header.seqNum
      ∧ (msg.header.seqNum = x.last ↔ x.repeats msg.header.seqNum) := by
  rw [Orderly]
  generalize msg.header.seqNum = n
  by_cases hn : n = 0
  · rw [if_pos hn]
    constructor
    · intro hlast
      exact ⟨reported_eq_skipped hx hlast (Or.inl hn), by simp [repeats, hn, Ne.symm hlast]⟩
    · rintro ⟨-, h⟩ hlast
      simp [repeats, hn, hlast] at h
  · have hrepeats : (n = x.last ↔ x.repeats n) := by simp [repeats, hn]
    rw [if_neg hn, and_iff_left hrepeats]
    split
    next hlast => exact (reported_after_unnumbered hx hlast hn).symm
    next hlast =>
      refine ⟨fun h => reported_eq_skipped hx hlast (Or.inr h), fun h => ?_⟩
      by_contra hlt
      exact reported_late hx hn (UInt32.not_le.mp hlt) h

end Numbers

open Numbers

namespace Session

def gapOf : Call → Option (UInt32 × UInt32)
  | .gap first final => some (first, final)
  | _ => none

def gaps (l : Session B P T) : List (UInt32 × UInt32) := l.log.filterMap gapOf

def applied (l : Session B P T) : Nat := l.log.count .createDelta

structure Kept (l r : Session B P T) : Prop where
  eventSeqNum : r.eventSeqNum = l.eventSeqNum
  prevSenderId : r.prevSenderId = l.prevSenderId
  gotInitial : r.gotInitial = l.gotInitial
  ignoreUpdate : r.ignoreUpdate = l.ignoreUpdate
  isConsistent : r.isConsistent = l.isConsistent
  gaps : r.gaps = l.gaps
  applied : r.applied = l.applied

variable {l : Session B P T} {msg : Message M} {header : Header} {E : Engine B M P T} {x : Numbers} {event : Event M}
  {sender : UInt64}

theorem Kept.refl (l : Session B P T) : Kept l l := ⟨rfl, rfl, rfl, rfl, rfl, rfl, rfl⟩

theorem Kept.trans {r s : Session B P T} (h : Kept l r) (h' : Kept r s) : Kept l s :=
  ⟨h'.1.trans h.1, h'.2.trans h.2, h'.3.trans h.3, h'.4.trans h.4, h'.5.trans h.5, h'.6.trans h.6,
    h'.7.trans h.7⟩

theorem call_kept (l : Session B P T) {calls : List Call} (hgaps : calls.filterMap gapOf = [])
    (happlied : calls.count .createDelta = 0) : Kept l (l.call calls) := by
  refine ⟨rfl, rfl, rfl, rfl, rfl, ?_, ?_⟩
  · rw [gaps, call, filterMap_append, hgaps, append_nil]
    rfl
  · rw [applied, call, count_append, happlied]
    rfl

theorem invokeDeltaHandler_kept (l : Session B P T) (handler : Handler) : Kept l (invokeDeltaHandler l handler) := by
  unfold invokeDeltaHandler
  split
  · exact Kept.refl l
  · exact call_kept l rfl rfl
  · have htold : Kept l (l.call [.onBookComplexDelta handler l.deltas.complex.iterate]) := call_kept l rfl rfl
    exact { htold with }

theorem invokeDeltaHandlers_kept (E : Engine B M P T) (l : Session B P T) : Kept l (l.invokeDeltaHandlers E) := by
  have htold : Kept l (l.handlers.foldl invokeDeltaHandler l) :=
    foldlRecOn l.handlers _ (Kept.refl l) fun r h handler _ => h.trans (invokeDeltaHandler_kept r handler)
  unfold invokeDeltaHandlers
  split
  · exact Kept.refl l
  · exact { htold with }

theorem armTimer_kept (l : Session B P T) : Kept l l.armTimer := by
  unfold armTimer
  split <;> exact { Kept.refl l with }

variable (E)

theorem conflateUpdate_kept (l : Session B P T) : Kept l (l.conflateUpdate E) := by
  unfold conflateUpdate
  split
  · have hsent := invokeDeltaHandlers_kept E { l with topOfBook := E.top l.book }
    refine Kept.trans (r := { l with topOfBook := E.top l.book }) { Kept.refl l with } ?_
    dsimp only
    split
    · exact { hsent with }
    · exact hsent.trans (armTimer_kept _)
  · exact armTimer_kept l

theorem deliverUpdate_kept (l : Session B P T) : Kept l (l.deliverUpdate E) := by
  unfold deliverUpdate
  split
  · exact { Kept.refl l with }
  · split
    · split
      · exact conflateUpdate_kept E l
      · exact { invokeDeltaHandlers_kept E l with }
    · exact { Kept.refl l with }

theorem onTimer_kept (l : Session B P T) : Kept l (l.onTimer E) := by
  have hlocked : Kept l l.acquireLock := { Kept.refl l with }
  have hsent := hlocked.trans (invokeDeltaHandlers_kept E l.acquireLock)
  unfold onTimer
  dsimp only
  split
  · exact { Kept.refl l with }
  · split
    · exact { hsent with }
    · exact { Kept.refl l with }

variable {E}

/-! ### Each event -/

/-- The listener has the number, the sender and the flags that the numbers give. -/
structure Follows (sender : UInt64) (x : Numbers) (l : Session B P T) : Prop where
  coherent : x.Coherent
  eventSeqNum : l.eventSeqNum = x.last
  isConsistent : l.isConsistent = !x.gap
  prevSenderId : l.prevSenderId = sender
  gotInitial : l.gotInitial
  ignoreUpdate : l.ignoreUpdate = false

/-- An event reports the gap that it reveals, and is applied unless it repeats. -/
structure Detects (E : Engine B M P T) (x : Numbers) (l : Session B P T) (event : Event M) : Prop where
  gaps : (l.handle E event).gaps = l.gaps ++ match event with
    | .update msg => (x.skipped msg.header.seqNum).toList
    | _ => []
  applied : ∀ msg, event = .update msg →
    (l.handle E event).applied = l.applied + if x.repeats msg.header.seqNum then 0 else 1
  isConsistent : (l.handle E event).isConsistent = !(x.next event).gap

/-- The message is one of the sender, and a recap can be read, or is the first of its set. -/
def Sound (E : Engine B M P T) (sender : UInt64) : Event M → Prop
  | .recap msg => msg.header.senderId = sender
      ∧ (msg.header.msgNum = 1 ∨ ∀ book, (E.createDelta true msg book).complete ≠ none)
  | .clear msg => msg.header.senderId = sender
  | .update msg => msg.header.senderId = sender
  | .timer => True

structure Restarts (l : Session B P T) (header : Header) (r : Session B P T) : Prop where
  eventSeqNum : r.eventSeqNum = header.seqNum
  prevSenderId : r.prevSenderId = header.senderId
  gotInitial : r.gotInitial
  ignoreUpdate : r.ignoreUpdate = l.ignoreUpdate
  isConsistent : r.isConsistent
  gaps : r.gaps = l.gaps

theorem startMessage_kept (E : Engine B M P T) (l : Session B P T) (header : Header) :
    Kept l (startMessage E l header false) := by
  unfold startMessage
  split <;> exact ⟨rfl, rfl, rfl, rfl, rfl, rfl, rfl⟩

theorem startMessage_recap (E : Engine B M P T) (l : Session B P T) (header : Header) :
    ∃ book deltas consistent, startMessage E l header true
        = { l with book := book, deltas := deltas, isConsistent := consistent }
      ∧ (header.msgNum = 1 → consistent) := by
  unfold startMessage
  split
  · exact ⟨_, _, _, rfl, fun _ => rfl⟩
  next hfirst => exact ⟨_, _, _, rfl, fun h => absurd h hfirst⟩

theorem filterMap_gapOf_map {call : Handler → Call} (hcall : ∀ handler, gapOf (call handler) = none)
    (handlers : List Handler) : (handlers.map call).filterMap gapOf = [] := by
  rw [filterMap_eq_nil_iff]
  intro c hc
  obtain ⟨handler, -, rfl⟩ := mem_map.mp hc
  exact hcall handler

theorem handleClear_restarts (E : Engine B M P T) (l : Session B P T) (msg : Message M) :
    Restarts l msg.header (l.handleClear E msg) := by
  obtain ⟨_, _, _, hstart, -⟩ := startMessage_recap E l.acquireLock msg.header
  unfold handleClear
  rw [processBookMessage, hstart]
  refine ⟨rfl, rfl, rfl, rfl, rfl, ?_⟩
  show (l.log ++ l.handlers.map Call.onBookClear).filterMap gapOf = l.log.filterMap gapOf
  rw [filterMap_append, filterMap_gapOf_map (fun _ => rfl), append_nil]

theorem finishRecap_restarts {r : Session B P T} (complete : Option Bool)
    (hr : Restarts l header { r with gotInitial := true, isConsistent := true })
    (hconsistent : complete = none → r.isConsistent) :
    Restarts l header { (r.finishRecap header complete).releaseLock with gotInitial := true } := by
  unfold finishRecap
  split
  · exact ⟨hr.1, hr.2, rfl, hr.4, hconsistent rfl, hr.6⟩
  · exact ⟨hr.1, rfl, rfl, hr.4, rfl, hr.6⟩
  · refine ⟨hr.1, rfl, rfl, hr.4, rfl, Eq.trans ?_ hr.6⟩
    show (r.log ++ r.handlers.map Call.onBookRecap).filterMap gapOf = r.log.filterMap gapOf
    rw [filterMap_append, filterMap_gapOf_map (fun _ => rfl), append_nil]

theorem handleRecap_restarts (E : Engine B M P T) (l : Session B P T)
    (hmsg : msg.header.msgNum = 1 ∨ ∀ book, (E.createDelta true msg book).complete ≠ none) :
    Restarts l msg.header (l.handleRecap E msg) := by
  obtain ⟨_, _, _, hstart, hfirst⟩ := startMessage_recap E l.acquireLock msg.header
  unfold handleRecap
  rw [processBookMessage, hstart]
  refine finishRecap_restarts _ ⟨rfl, rfl, rfl, rfl, rfl, ?_⟩ fun hthrew => ?_
  · show (l.log ++ [Call.createDelta]).filterMap gapOf = l.log.filterMap gapOf
    rw [filterMap_append]
    exact append_nil _
  · rcases hmsg with hmsg | hmsg
    · exact hfirst hmsg
    · exact absurd hthrew (hmsg _)

/-- What the check of a number leaves. -/
structure Compared (l : Session B P T) (header : Header) (r : Session B P T) : Prop where
  eventSeqNum : r.eventSeqNum = header.seqNum
  prevSenderId : r.prevSenderId = header.senderId
  gotInitial : r.gotInitial = l.gotInitial
  ignoreUpdate : r.ignoreUpdate ↔ header.seqNum = l.eventSeqNum
  isConsistent : r.isConsistent
    = (l.isConsistent && !(reported l.eventSeqNum header.seqNum).isSome)
  gaps : r.gaps = l.gaps ++ (reported l.eventSeqNum header.seqNum).toList
  applied : r.applied = l.applied

theorem checkNumber_compared (hsender : header.senderId = l.prevSenderId) (hl : l.ignoreUpdate = false) :
    Compared l header
      { l.checkNumber header with prevSenderId := header.senderId, eventSeqNum := header.seqNum } := by
  unfold checkNumber
  by_cases hseq : header.seqNum = l.eventSeqNum
  · have hreported : reported l.eventSeqNum header.seqNum = none := if_neg fun h => h.1 hseq
    rw [if_pos hseq]
    exact ⟨rfl, rfl, rfl, iff_of_true rfl hseq, by simp [hreported], by simp [hreported, gaps], rfl⟩
  · rw [if_neg hseq]
    by_cases hgap : isGap l.eventSeqNum header
    · have hreported : reported l.eventSeqNum header.seqNum
          = some (l.eventSeqNum + 1, header.seqNum - 1) := if_pos (by simpa [isGap, and_assoc] using hgap)
      rw [if_pos hgap]
      refine ⟨rfl, rfl, rfl, iff_of_false (by simp [reportGap, call, hl]) hseq, ?_, ?_, ?_⟩
      · simp [reportGap, hreported, hsender]
      · have htold : (l.handlers.map Call.onBookGap).filterMap gapOf = [] :=
          filterMap_gapOf_map (fun _ => rfl) l.handlers
        rw [hreported]
        simp [gaps, reportGap, call, filterMap_append, gapOf, htold]
      · simp [applied, reportGap, call, count_append, count_eq_zero]
    · have hreported : reported l.eventSeqNum header.seqNum = none :=
        if_neg fun h => hgap (by simpa [isGap, and_assoc] using h)
      rw [if_neg hgap]
      exact ⟨rfl, rfl, rfl, iff_of_false (by simp [hl]) hseq, by simp [hreported], by simp [hreported, gaps], rfl⟩

theorem processBookMessage_compared (E : Engine B M P T) (hsender : header.senderId = l.prevSenderId)
    (hl : l.ignoreUpdate = false) :
    Compared l header (l.processBookMessage E header false) := by
  have hstart := startMessage_kept E l header
  have h := checkNumber_compared (hsender.trans hstart.prevSenderId.symm) (hstart.ignoreUpdate.trans hl)
  refine ⟨h.1, h.2, h.3.trans hstart.gotInitial, ?_, ?_, ?_, h.7.trans hstart.applied⟩
  · rw [← hstart.eventSeqNum]
    exact h.ignoreUpdate
  · rw [← hstart.eventSeqNum, ← hstart.isConsistent]
    exact h.isConsistent
  · rw [← hstart.eventSeqNum, ← hstart.gaps]
    exact h.gaps

structure Updated (l : Session B P T) (header : Header) (r : Session B P T) : Prop where
  eventSeqNum : r.eventSeqNum = header.seqNum
  prevSenderId : r.prevSenderId = header.senderId
  gotInitial : r.gotInitial = l.gotInitial
  ignoreUpdate : r.ignoreUpdate = false
  isConsistent : r.isConsistent
    = (l.isConsistent && !(reported l.eventSeqNum header.seqNum).isSome)
  gaps : r.gaps = l.gaps ++ (reported l.eventSeqNum header.seqNum).toList
  applied : r.applied = l.applied + if header.seqNum = l.eventSeqNum then 0 else 1

theorem handleUpdate_updated (E : Engine B M P T) (hsender : msg.header.senderId = l.prevSenderId)
    (hinitial : l.gotInitial) (hl : l.ignoreUpdate = false) : Updated l msg.header (l.handle E (.update msg)) := by
  have hcompared : Compared l msg.header (l.acquireLock.processBookMessage E msg.header false) :=
    { processBookMessage_compared E (l := l.acquireLock) hsender hl with }
  rw [handle, handleUpdate, if_pos hinitial, applyUpdate]
  generalize l.acquireLock.processBookMessage E msg.header false = r at hcompared ⊢
  obtain ⟨h1, h2, h3, h4, h5, h6, h7⟩ := hcompared
  by_cases hseq : msg.header.seqNum = l.eventSeqNum
  · rw [if_pos (h4.mpr hseq)]
    exact ⟨h1, h2, h3, rfl, h5, h6, by rw [if_pos hseq]; exact h7⟩
  · have hr : r.ignoreUpdate = false := Bool.eq_false_iff.mpr fun h => hseq (h4.mp h)
    have hdelivered := deliverUpdate_kept E (r.createDelta E msg false)
    rw [if_neg (fun h => hseq (h4.mp h))]
    refine ⟨hdelivered.1.trans h1, hdelivered.2.trans h2, hdelivered.3.trans h3, hdelivered.4.trans hr,
      hdelivered.5.trans h5, hdelivered.6.trans ?_, hdelivered.7.trans ?_⟩
    · rw [← h6]
      show (r.log ++ [Call.createDelta]).filterMap gapOf = r.log.filterMap gapOf
      rw [filterMap_append]
      exact append_nil _
    · rw [if_neg hseq, ← h7]
      show (r.log ++ [Call.createDelta]).count .createDelta = r.log.count .createDelta + 1
      rw [count_append]
      rfl

/-! ### Runs -/

def track (E : Engine B M P T) (s : Numbers × Session B P T) (event : Event M) : Numbers × Session B P T :=
  (s.1.next event, s.2.handle E event)

theorem Restarts.detects (h : Restarts l header (l.handle E event)) (hevent : ∀ msg, event ≠ .update msg)
    (hnext : (x.next event).gap = false) : Detects E x l event := by
  refine ⟨?_, fun msg hmsg => absurd hmsg (hevent msg), ?_⟩
  · rw [h.gaps]
    cases event with
    | update msg => exact absurd rfl (hevent msg)
    | _ => exact (append_nil _).symm
  · rw [hnext]
    exact h.isConsistent

theorem Restarts.follows (h : Restarts l header (l.handle E event)) (hl : Follows sender x l)
    (hsender : header.senderId = sender) (hnext : (x.next event).last = header.seqNum ∧ (x.next event).gap = false) :
    Follows sender (x.next event) (l.handle E event) := by
  refine ⟨hl.coherent.next event, h.eventSeqNum.trans hnext.1.symm, ?_, h.prevSenderId.trans hsender,
    h.gotInitial, h.ignoreUpdate.trans hl.ignoreUpdate⟩
  rw [hnext.2]
  exact h.isConsistent

theorem update_detects_iff (hl : Follows sender x l) (hmsg : msg.header.senderId = sender) :
    Detects E x l (.update msg) ↔ x.Orderly (.update msg) := by
  have h := handleUpdate_updated E (hmsg.trans hl.prevSenderId.symm) hl.gotInitial hl.ignoreUpdate
  have happlied : (l.handle E (.update msg)).applied = l.applied + (if x.repeats msg.header.seqNum then 0 else 1)
      ↔ (msg.header.seqNum = x.last ↔ x.repeats msg.header.seqNum) := by
    rw [h.applied, hl.eventSeqNum]
    by_cases hlast : msg.header.seqNum = x.last <;> by_cases hrepeats : x.repeats msg.header.seqNum
      <;> simp [hlast, hrepeats]
  rw [orderly_iff hl.coherent]
  constructor
  · intro hdetects
    have hgaps := h.gaps.symm.trans hdetects.gaps
    rw [hl.eventSeqNum] at hgaps
    have hlist := congrArg List.head? (append_cancel_left hgaps)
    simp only [Option.head?_toList] at hlist
    exact ⟨hlist, happlied.mp (hdetects.applied msg rfl)⟩
  · rintro ⟨hreported, hrepeats⟩
    constructor
    · rw [h.gaps, hl.eventSeqNum, hreported]
    · rintro _ heq
      obtain rfl := Event.update.inj heq
      exact happlied.mpr hrepeats
    · rw [h.isConsistent, hl.isConsistent, hl.eventSeqNum, hreported, Numbers.next, Numbers.after, Bool.not_or]

theorem event_detects_iff (hl : Follows sender x l) (hevent : Sound E sender event) :
    Detects E x l event ↔ x.Orderly event := by
  cases event with
  | recap _ => exact iff_of_true ((handleRecap_restarts E l hevent.2).detects nofun rfl) trivial
  | clear msg => exact iff_of_true ((handleClear_restarts E l msg).detects nofun rfl) trivial
  | update _ => exact update_detects_iff hl hevent
  | timer =>
    have hkept := onTimer_kept E l
    exact iff_of_true ⟨hkept.gaps.trans (append_nil _).symm, nofun,
      hkept.isConsistent.trans hl.isConsistent⟩ trivial

theorem Follows.handle (hl : Follows sender x l) (hevent : Sound E sender event) (hdetects : Detects E x l event) :
    Follows sender (x.next event) (l.handle E event) := by
  cases event with
  | recap _ => exact (handleRecap_restarts E l hevent.2).follows hl hevent.1 ⟨rfl, rfl⟩
  | clear msg => exact (handleClear_restarts E l msg).follows hl hevent ⟨rfl, rfl⟩
  | update _ =>
    have h := handleUpdate_updated E (Eq.trans hevent hl.prevSenderId.symm) hl.gotInitial hl.ignoreUpdate
    exact ⟨hl.coherent.next _, h.eventSeqNum, hdetects.isConsistent, h.prevSenderId.trans hevent,
      h.gotInitial.trans hl.gotInitial, h.ignoreUpdate⟩
  | timer =>
    have hkept := onTimer_kept E l
    exact ⟨hl.coherent, hkept.eventSeqNum.trans hl.eventSeqNum, hdetects.isConsistent,
      hkept.prevSenderId.trans hl.prevSenderId, hkept.gotInitial.trans hl.gotInitial,
      hkept.ignoreUpdate.trans hl.ignoreUpdate⟩

/-- After an initial recap, every message of the sender is reported as its number says, exactly when
the numbers are orderly. -/
theorem detects_iff (E : Engine B M P T) (l : Session B P T) (initial : Message M)
    (events : List (Event M)) (hl : l.ignoreUpdate = false)
    (hinitial : Sound E initial.header.senderId (.recap initial))
    (hevents : ∀ event ∈ events, Sound E initial.header.senderId event) :
    Along (track E) (fun s event => Detects E s.1 s.2 event)
        (next {} (.recap initial), l.handle E (.recap initial)) events
      ↔ Along next Numbers.Orderly (next {} (.recap initial)) events := by
  have hrestarts := handleRecap_restarts E l hinitial.2
  have hfollows : Follows initial.header.senderId (next {} (.recap initial)) (l.handle E (.recap initial)) := by
    have hempty : Numbers.Coherent {} := ⟨absurd rfl, nofun⟩
    exact ⟨hempty.next _, hrestarts.eventSeqNum, hrestarts.isConsistent, hrestarts.prevSenderId,
      hrestarts.gotInitial, hrestarts.ignoreUpdate.trans hl⟩
  have hcongr : Along (track E) (fun s event => Detects E s.1 s.2 event)
        (next {} (.recap initial), l.handle E (.recap initial)) events
      ↔ Along (track E) (fun s event => s.1.Orderly event)
        (next {} (.recap initial), l.handle E (.recap initial)) events :=
    Along.congr_on (I := fun s => Follows initial.header.senderId s.1 s.2) hfollows
      (fun _ hs event hevent => event_detects_iff hs (hevents event hevent))
      (fun _ hs event hevent hdetects => hs.handle (hevents event hevent) hdetects)
  exact hcongr.trans (Along.map (f := Prod.fst) (fun _ _ => rfl) _ events)

theorem detects_orderly :
    Along (track idle) (fun s event => Detects idle s.1 s.2 event)
      (next {} (.recap (numbered 5)), conflating.handle idle (.recap (numbered 5)))
      [.update (numbered 6), .update (numbered 6), .update (numbered 9), .update (numbered 0),
        .recap (numbered 12), .update (numbered 13), .timer, .clear (numbered 0), .update (numbered 1)] :=
  (detects_iff idle conflating (numbered 5) _ rfl ⟨rfl, Or.inl rfl⟩
    (by simp [Sound, numbered])).mpr (by decide)

theorem not_detects_disorderly :
    let start := conflating.handle idle (.recap (numbered 5))
    let unnumbered := start.handle idle (.update (numbered 0))
    (unnumbered.handle idle (.update (numbered 0))).applied = unnumbered.applied
      ∧ (unnumbered.handle idle (.update (numbered 6))).gaps = [(1, 5)]
      ∧ (unnumbered.handle idle (.update (numbered 6))).isConsistent = false
      ∧ (start.handle idle (.update (numbered 3))).gaps = [(6, 2)] := by
  decide

end Session

end OpenMama.Listener
