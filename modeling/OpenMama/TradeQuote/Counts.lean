import OpenMama.TradeQuote.Trade
import OpenMama.TradeQuote.Quote

/-!
# Trade counts and quote counts

A count of a message is compared with the count of the record: a gap is reported when it is too high, and the message
is ignored when it is the same. `expected` is what the handler is to hear, in terms of the last count received. A
closing trade stores its count without comparing it, and the message that reveals a gap is taken for a duplicate of
itself.
-/

namespace OpenMama.TradeQuote

open DataQuality (MsgType)

section

variable {Field : Type} {kind : Field → Kind}

namespace Msg

/-- A message that is neither transient nor a duplicate, with counts in range. -/
structure InOrder (carried : Msg kind → Option Nat) (msg : Msg kind) : Prop where
  isTransient : msg.isTransient = false
  isDuplicate : msg.isDuplicate = false
  carried_mem : ∀ c ∈ carried msg, 1 ≤ c ∧ c < 2 ^ 31
  conflateCount_mem : ∀ k ∈ msg.conflateCount, 1 ≤ k ∧ k < 2 ^ 16

theorem InOrder.conflateCount_lt {carried : Msg kind → Option Nat} {msg : Msg kind}
    (h : msg.InOrder carried) : msg.conflateCount.getD 1 < 2 ^ 16 := by
  cases hk : msg.conflateCount with
  | none => decide
  | some k => exact (h.conflateCount_mem k hk).2

theorem InOrder.evaluateMsgQual_eq {carried : Msg kind → Option Nat} {msg : Msg kind}
    (h : msg.InOrder carried) (cfg : Settings) (seqNum : Option Nat) (eventTime : Option DateTime)
    (lastSeqNum : Nat) (lastTime : DateTime) :
    evaluateMsgQual cfg msg.msgQual seqNum eventTime lastSeqNum lastTime =
      (msg.msgQual.getD {}, false, false) := by
  have htransient := h.isTransient
  have hduplicate := h.isDuplicate
  unfold Msg.isTransient at htransient
  unfold Msg.isDuplicate at hduplicate
  cases hqual : msg.msgQual with
  | none => rfl
  | some q =>
    rw [hqual] at htransient hduplicate
    simp only [hduplicate, Bool.not_false, Bool.true_and, Bool.or_eq_false_iff] at htransient
    simp [evaluateMsgQual, hduplicate, htransient]

variable [DecidableEq Field]

theorem foldl_last? {C W : Type} {onField : C → Sent kind → C} (view : C → W) (field : Field)
    (store : W → (kind field).Carrier → W) (hstore : ∀ w v v', store (store w v) v' = store w v')
    (hfield : ∀ c sent, view (onField c sent) = (last? field [sent]).elim (view c) (store (view c)))
    (c : C) (fields : List (Sent kind)) :
    view (fields.foldl onField c) = (last? field fields).elim (view c) (store (view c)) := by
  induction fields generalizing c with
  | nil => rfl
  | cons sent fields ih =>
    rw [List.foldl_cons, ih, hfield]
    have hlast : last? field (sent :: fields) = (last? field fields <|> last? field [sent]) := rfl
    rw [hlast]
    cases last? field fields with
    | none => rfl
    | some v =>
      cases last? field [sent] with
      | none => rfl
      | some _ => exact hstore _ _ _

end Msg

end

/-- The count compared last, and the one received last. -/
structure LastCounts where
  compared : Nat := 0
  received : Nat := 0
deriving DecidableEq

section

variable {Field : Type} {kind : Field → Kind} {handles compares : MsgType → Bool}
  {carried : Msg kind → Option Nat}

def LastCounts.next (handles compares : MsgType → Bool) (carried : Msg kind → Option Nat)
    (last : LastCounts) (msg : Msg kind) : LastCounts :=
  if handles msg.type then
    { received := (carried msg).getD last.received
      compared := if compares msg.type then (carried msg).getD last.received else last.compared }
  else last

def lastCounts (handles compares : MsgType → Bool) (carried : Msg kind → Option Nat)
    (msgs : List (Msg kind)) : LastCounts :=
  msgs.foldl (LastCounts.next handles compares carried) {}

def LastCounts.Small (last : LastCounts) : Prop := last.compared < 2 ^ 31 ∧ last.received < 2 ^ 31

theorem LastCounts.Small.next {last : LastCounts} (h : last.Small) {msg : Msg kind}
    (hmsg : msg.InOrder carried) : (last.next handles compares carried msg).Small := by
  have hreceived : (carried msg).getD last.received < 2 ^ 31 := by
    cases hc : carried msg with
    | none => exact h.2
    | some c => exact (hmsg.carried_mem c hc).2
  unfold LastCounts.next
  split
  · refine ⟨?_, hreceived⟩
    split
    · exact hreceived
    · exact h.1
  · exact h

theorem foldl_lastCounts {σ : Type} {step : σ → Msg kind → σ} {view : σ → LastCounts}
    (hstep : ∀ s msg, msg.InOrder carried → view (step s msg) = (view s).next handles compares carried msg)
    {s : σ} {last : LastCounts} (hview : view s = last) (hsmall : last.Small) {msgs : List (Msg kind)}
    (hmsgs : ∀ msg ∈ msgs, msg.InOrder carried) :
    view (msgs.foldl step s) = msgs.foldl (LastCounts.next handles compares carried) last ∧
      (msgs.foldl (LastCounts.next handles compares carried) last).Small := by
  induction msgs generalizing s last with
  | nil => exact ⟨hview, hsmall⟩
  | cons msg _ ih =>
    have hmsg := hmsgs msg List.mem_cons_self
    refine ih ?_ (hsmall.next hmsg) fun m hm => hmsgs m (List.mem_cons_of_mem _ hm)
    rw [hstep s msg hmsg, hview]

theorem compared_eq_received (msgs : List (Msg kind)) :
    (lastCounts handles (fun _ => true) carried msgs).compared =
      (lastCounts handles (fun _ => true) carried msgs).received := by
  apply List.foldlRecOn msgs (motive := fun last : LastCounts => last.compared = last.received) _ rfl
  intro _ h _ _
  unfold LastCounts.next
  split
  · rfl
  · exact h

end

section

variable {N : Type}

/-- The callbacks that a message is to cause after the count `p`: a gap if its count leaves one, and its
own callback unless its count is `p` again. -/
def expected (p : Nat) (carried conflateCount : Option Nat) (call : N) : List (Call N) :=
  (match carried with
    | some c => if p + conflateCount.getD 1 < c then [.gap (p + conflateCount.getD 1) (c - 1)] else []
    | none => []) ++ if carried = some p then [] else [.normal call]

def CountCheck.calls (check : CountCheck) (call : N) : List (Call N) :=
  (match check.gap with
    | some (gapBegin, gapEnd) => [.gap gapBegin gapEnd]
    | none => []) ++ if check.ignore then [] else [.normal call]

theorem checkCount_eq {q r : Nat} {carried conflateCount : Option Nat} (hq : q < 2 ^ 31)
    (hcarried : ∀ c ∈ carried, 1 ≤ c ∧ c < 2 ^ 31) (hk : conflateCount.getD 1 < 2 ^ 16) :
    checkCount true carried.isSome q (carried.getD r) conflateCount =
      match carried with
      | none => {}
      | some c =>
        if 0 < q ∧ q + conflateCount.getD 1 < c then
          { gap := some (q + conflateCount.getD 1, c - 1), ignore := true }
        else { gap := none, ignore := decide (c = q) } := by
  have hmod : (q + conflateCount.getD 1) % 2 ^ 32 = q + conflateCount.getD 1 := Nat.mod_eq_of_lt (by omega)
  cases carried with
  | none => simp [checkCount]
  | some c =>
    have hc : 0 < c := (hcarried c rfl).1
    rw [checkCount]
    rw [hmod]
    by_cases hgap : 0 < q ∧ q + conflateCount.getD 1 < c
    · simp [hgap, hc]
    · have hgap' : (decide (0 < q) && decide (q + conflateCount.getD 1 < c)) = false := by simpa using hgap
      simp [hgap', hgap, hc]

theorem withheld_iff (call : N) (a b : Prop) [Decidable a] [Decidable b] :
    ((if a then ([] : List (Call N)) else [.normal call]) = if b then [] else [.normal call]) ↔ (a ↔ b) := by
  by_cases ha : a <;> by_cases hb : b <;> simp [ha, hb]

/-- A count that leaves no gap after the count received last, nor after the one compared last, and repeats
both or none of the two. -/
def LastCounts.Continued (last : LastCounts) (carried conflateCount : Option Nat) : Prop :=
  ∀ c ∈ carried, c ≤ last.received + conflateCount.getD 1 ∧
    (last.compared = 0 ∨ c ≤ last.compared + conflateCount.getD 1) ∧
    (c = last.compared ↔ c = last.received)

theorem calls_eq_expected_iff {last : LastCounts} (hlast : last.Small) {carried conflateCount : Option Nat}
    (hcarried : ∀ c ∈ carried, 1 ≤ c ∧ c < 2 ^ 31) (hk : conflateCount.getD 1 < 2 ^ 16) (call : N) :
    (checkCount true carried.isSome last.compared (carried.getD last.received) conflateCount).calls call =
        expected last.received carried conflateCount call ↔
      last.Continued carried conflateCount := by
  rw [checkCount_eq hlast.1 hcarried hk, LastCounts.Continued]
  obtain ⟨q, p⟩ := last
  cases carried with
  | none => simp [CountCheck.calls, expected]
  | some c =>
    obtain ⟨k, hkeq⟩ : ∃ k, conflateCount.getD 1 = k := ⟨_, rfl⟩
    simp only [expected, hkeq, Option.mem_some_iff, forall_eq', Option.some_inj]
    split
    · have hfalse : ¬ (q = 0 ∨ c ≤ q + k) := by omega
      by_cases hexp : p + k < c
      · have hne : c ≠ p := by omega
        simp [CountCheck.calls, hexp, hne, hfalse]
      · rw [if_neg hexp]
        by_cases hp : c = p
        · simp [CountCheck.calls, hp, hp ▸ hfalse]
        · simp [CountCheck.calls, hp, hfalse]
    · have htrue : q = 0 ∨ c ≤ q + k := by omega
      by_cases hexp : p + k < c
      · have hne : c ≠ p := by omega
        by_cases hq' : c = q <;> simp [CountCheck.calls, hexp, hne, hq']
      · have hle : c ≤ p + k := by omega
        rw [if_neg hexp]
        simp only [CountCheck.calls, List.nil_append, decide_eq_true_eq, withheld_iff, hle, htrue, true_and]

end

namespace Counter

variable {C N : Type} (k : Counter C) {cfg : Settings} {s : Listener C} {conflateCount : Option Nat}
  {rest : Listener C → Listener C × List (Call N)}

def lastCountsOf (s : Listener C) : LastCounts := ⟨k.count s.regularCache, k.tmpCount s.regularCache⟩

variable {k}

section

variable (hs : s.isTransientMsg = false)
include hs

theorem check_counts (cfg : Settings) (checkForGap : Bool) :
    k.lastCountsOf (k.check (N := N) cfg s conflateCount checkForGap).1 =
      ⟨k.tmpCount s.regularCache, k.tmpCount s.regularCache⟩ := by
  rw [check, hs, if_neg Bool.false_ne_true]
  simp only [lastCountsOf, k.count_setCount, k.tmpCount_setCount, LastCounts.mk.injEq, true_and]
  split
  · exact k.tmpCount_setGap _ _ _
  · rfl

theorem counted_counts (hrest : ∀ s, k.lastCountsOf (rest s).1 = k.lastCountsOf s) :
    k.lastCountsOf (k.counted cfg s conflateCount rest).1 =
      ⟨k.tmpCount s.regularCache, k.tmpCount s.regularCache⟩ := by
  rw [counted]
  dsimp only
  split
  · exact check_counts hs cfg true
  · rw [hrest]
    exact check_counts hs cfg true

theorem counted_calls (hhandler : cfg.hasHandler) {call : N}
    (hrest : (rest (k.check (N := N) cfg s conflateCount true).1).2 = [.normal call]) :
    (k.counted cfg s conflateCount rest).2 =
      (checkCount true (k.got s.regularCache) (k.count s.regularCache) (k.tmpCount s.regularCache)
        conflateCount).calls call := by
  unfold counted CountCheck.calls
  dsimp only
  rw [hrest]
  unfold check
  rw [hs, if_neg Bool.false_ne_true, hhandler]
  dsimp only
  split
  · rw [List.append_nil]
    rfl
  · rfl

end

theorem isTransientMsg_check (checkForGap : Bool) :
    (k.check (N := N) cfg s conflateCount checkForGap).1.isTransientMsg = s.isTransientMsg := by
  unfold check
  dsimp only
  split
  · rfl
  · rfl

end Counter

theorem invoke_of_not_transient {C N : Type} {cfg : Settings} {s : Listener C} (hhandler : cfg.hasHandler)
    (hs : s.isTransientMsg = false) (call : N) : invoke cfg s call = [.normal call] := by
  simp [invoke, hhandler, hs]

/-! ### The trade listener -/

namespace Trade

def carried (msg : TradeMsg) : Option Nat := Msg.last? Field.tradeCount msg.fields

def compares : MsgType → Bool
  | .closing => false
  | _ => true

def normalCall : MsgType → Option TradeCall
  | .trade => some .onTradeReport
  | .cancel | .error => some .onTradeCancelOrError
  | .correction => some .onTradeCorrection
  | _ => none

def counts (c : TradeCache) : Nat × Nat × Bool := (c.tradeCount, c.tmpTradeCount, c.gotTradeCount)

variable {s : TradeListener} {msg : TradeMsg} {call : TradeCall}

section

variable (c : TradeCache)

theorem counts_regular : counts (regular c) = counts c := by
  unfold regular
  split
  · rfl
  · rfl

theorem counts_irregular (blank : Bool) : counts (irregular c blank) = counts c := by
  unfold irregular
  split
  · rfl
  · rfl

theorem counts_onField (sent : Sent Field.kind) :
    counts (onField c sent) = (Msg.last? Field.tradeCount [sent]).elim (counts c)
      fun n => ((counts c).1, n, true) := by
  rcases sent with ⟨⟨⟩, v⟩
  case tradePrice => exact counts_regular _
  case tradeSize => exact counts_regular _
  case tradePartId => exact counts_regular _
  case irregPrice | irregSize | irregPartId | irregTime => exact counts_irregular _ _
  case tradeTime | shortSaleCircuitBreaker | origShortSaleCircuitBreaker | corrShortSaleCircuitBreaker =>
    exact (apply_ite counts _ _ _).trans (ite_self _)
  all_goals rfl

theorem counts_setSymbols (symbols : Symbols) : counts (setSymbols c symbols) = counts c := by
  unfold setSymbols storeSymbols
  rcases symbols.getSymbolAndPartId with ⟨symbol | _, partId | _⟩ <;> rfl

theorem counts_setTrade : counts (setTrade c) = counts c := by
  unfold setTrade
  split
  · rfl
  · rfl

theorem counts_updateTradeFields (msg : TradeMsg) :
    counts (updateTradeFields c msg) =
      (c.tradeCount, (carried msg).getD c.tmpTradeCount, (carried msg).isSome) := by
  have hread := Msg.foldl_last? counts Field.tradeCount
    (fun (w : Nat × Nat × Bool) (n : Field.tradeCount.kind.Carrier) => (w.1, n, true)) (fun _ _ _ => rfl)
    counts_onField (setSymbols c msg.symbols).resetFlags msg.fields
  have hsymbols := counts_setSymbols c msg.symbols
  have hblank : counts (setSymbols c msg.symbols).resetFlags = (c.tradeCount, c.tmpTradeCount, false) := by
    simp only [counts, Prod.mk.injEq] at hsymbols
    exact Prod.ext hsymbols.1 (Prod.ext hsymbols.2.1 rfl)
  calc counts (updateTradeFields c msg)
    _ = counts (setTrade (msg.fields.foldl onField (setSymbols c msg.symbols).resetFlags)) := rfl
    _ = _ := by
      rw [counts_setTrade, hread, hblank, carried]
      cases Msg.last? Field.tradeCount msg.fields <;> rfl

end

variable {cfg : Settings}

theorem lastCountsOf_eventAt (s : TradeListener) (c : TradeCache) (time : DateTime) :
    tradeCounter.lastCountsOf { s with regularCache := eventAt c time } = ⟨c.tradeCount, c.tmpTradeCount⟩ := by
  unfold eventAt
  split
  · rfl
  · rfl

theorem handleByType_counts (hs : s.isTransientMsg = false) (htype : handles cfg msg.type) :
    tradeCounter.lastCountsOf (handleByType cfg msg s).1 =
      (tradeCounter.lastCountsOf s).next (handles cfg) compares carried msg := by
  have hread := counts_updateTradeFields s.regularCache.updateFieldStates msg
  simp only [counts, Prod.mk.injEq] at hread
  obtain ⟨hcount, htmp, -⟩ := hread
  unfold handleByType
  generalize updateTradeFields s.regularCache.updateFieldStates msg = c at hcount htmp ⊢
  have hmsg : ({ s with regularCache := c } : TradeListener).isTransientMsg = false := hs
  have hnext : (tradeCounter.lastCountsOf s).next (handles cfg) compares carried msg =
      ⟨if compares msg.type then c.tmpTradeCount else c.tradeCount, c.tmpTradeCount⟩ := by
    rw [LastCounts.next, if_pos htype, hcount, htmp]
    rfl
  rw [hnext]
  cases hty : msg.type with
  | initial | recap | preopening | snapshot => exact Counter.check_counts hmsg cfg false
  | trade | update => exact Counter.counted_counts hmsg fun _ => rfl
  | cancel | error => exact Counter.counted_counts hmsg fun s => lastCountsOf_eventAt s (s.regularCache.put _ _) _
  | correction => exact Counter.counted_counts hmsg fun s => lastCountsOf_eventAt s s.regularCache _
  | closing => rfl
  | _ => simp [hty, handles] at htype

theorem onMsg_inOrder (hmsg : msg.InOrder carried) (s : TradeListener) :
    onMsg cfg s msg =
      if handles cfg msg.type then
        handleByType cfg msg
          { s with
            regularCache := { s.regularCache with isSnapshot := isImage msg.type }
            msgQual := msg.msgQual.getD {}
            isTransientMsg := false }
      else ({ s with regularCache := { s.regularCache with isSnapshot := isImage msg.type } }, []) := by
  have heval := hmsg.evaluateMsgQual_eq cfg (Msg.get? Field.tradeSeqnum msg.fields)
    (Msg.get? Field.tradeTime msg.fields) (s.regularCache.record.value .eventSeqNum)
    (s.regularCache.record.value .eventTime)
  rw [onMsg]
  split
  · rw [handleTradeMessage]
    rw [heval]
    rfl
  · rfl

theorem lastCountsOf_step (s : TradeListener) (msg : TradeMsg) (hmsg : msg.InOrder carried) :
    tradeCounter.lastCountsOf (step cfg s msg) =
      (tradeCounter.lastCountsOf s).next (handles cfg) compares carried msg := by
  rw [step, onMsg_inOrder hmsg]
  split
  case isTrue htype => exact handleByType_counts rfl htype
  case isFalse htype => exact (if_neg htype).symm

theorem handleByType_calls (hhandler : cfg.hasHandler) (hs : s.isTransientMsg = false)
    (hcall : normalCall msg.type = some call) :
    (handleByType cfg msg s).2 =
      (checkCount true (carried msg).isSome (tradeCounter.lastCountsOf s).compared
        ((carried msg).getD (tradeCounter.lastCountsOf s).received) msg.conflateCount).calls call := by
  have hread := counts_updateTradeFields s.regularCache.updateFieldStates msg
  simp only [counts, Prod.mk.injEq] at hread
  obtain ⟨hcount, htmp, hgot⟩ := hread
  rw [handleByType]
  generalize updateTradeFields s.regularCache.updateFieldStates msg = c at hcount htmp hgot ⊢
  have hmsg : ({ s with regularCache := c } : TradeListener).isTransientMsg = false := hs
  have hchecked : checkCount true (carried msg).isSome (tradeCounter.lastCountsOf s).compared
      ((carried msg).getD (tradeCounter.lastCountsOf s).received) msg.conflateCount =
        checkCount true c.gotTradeCount c.tradeCount c.tmpTradeCount msg.conflateCount := by
    rw [hcount, htmp, hgot]
    rfl
  rw [hchecked]
  cases hty : msg.type with
  | trade | cancel | error | correction =>
    obtain rfl := Option.some.inj ((congrArg normalCall hty).symm.trans hcall)
    refine Counter.counted_calls hmsg hhandler (invoke_of_not_transient hhandler ?_ _)
    exact (Counter.isTransientMsg_check true).trans hmsg
  | _ => simp [hty, normalCall] at hcall

theorem handles_of_normalCall {type : MsgType} (h : normalCall type = some call) : handles cfg type := by
  unfold normalCall at h
  split at h <;> first | rfl | cases h

theorem lastCountsOf_run (cfg : Settings) {msgs : List TradeMsg} (hmsgs : ∀ m ∈ msgs, m.InOrder carried) :
    tradeCounter.lastCountsOf (msgs.foldl (step cfg) new) = lastCounts (handles cfg) compares carried msgs ∧
      (lastCounts (handles cfg) compares carried msgs).Small := by
  refine foldl_lastCounts lastCountsOf_step ?_ ?_ hmsgs
  · rfl
  · exact ⟨by decide, by decide⟩

theorem onMsg_expected_iff (hhandler : cfg.hasHandler) {msgs : List TradeMsg}
    (hmsgs : ∀ m ∈ msgs, m.InOrder carried) (hmsg : msg.InOrder carried) (hcall : normalCall msg.type = some call) :
    (onMsg cfg (msgs.foldl (step cfg) new) msg).2 =
        expected (lastCounts (handles cfg) compares carried msgs).received (carried msg) msg.conflateCount
          call ↔
      (lastCounts (handles cfg) compares carried msgs).Continued (carried msg) msg.conflateCount := by
  obtain ⟨hview, hsmall⟩ := lastCountsOf_run cfg hmsgs
  rw [← calls_eq_expected_iff hsmall hmsg.carried_mem hmsg.conflateCount_lt call, onMsg_inOrder hmsg,
    if_pos (handles_of_normalCall hcall), handleByType_calls hhandler rfl hcall, ← hview]
  rfl

end Trade

/-! ### The quote listener -/

namespace Quote

def carried (msg : QuoteMsg) : Option Nat := Msg.last? Field.quoteCount msg.fields

def callOf (quoteQual : String) : QuoteCall := if quoteQual = "Closing" then .onQuoteClosing else .onQuoteUpdate

/-- The callback of a quote. The qualifier is that of the message or, if it has none, that of the record. -/
def normalCall (s : QuoteListener) (msg : QuoteMsg) : QuoteCall :=
  callOf ((Msg.last? Field.quoteQual msg.fields).getD (s.regularCache.record.value .quoteQualStr))

def counts (c : QuoteListenerCache) : Nat × Nat × Bool := (c.quoteCount, c.tmpQuoteCount, c.gotQuoteCount)

variable {s : QuoteListener} {msg : QuoteMsg}

section

variable (c : QuoteListenerCache)

theorem counts_onField (sent : Sent Field.kind) :
    counts (onField c sent) = (Msg.last? Field.quoteCount [sent]).elim (counts c)
      fun n => ((counts c).1, n, true) := by
  rw [counts, QuoteListenerCache.quoteCount, QuoteListenerCache.tmpQuoteCount, value_onField, gotQuoteCount_onField]
  rcases sent with ⟨field, v⟩
  cases field <;> rfl

theorem quoteQualStr_onField (sent : Sent Field.kind) :
    (onField c sent).record.value .quoteQualStr =
      (Msg.last? Field.quoteQual [sent]).elim (c.record.value .quoteQualStr) id := by
  rw [value_onField]
  rcases sent with ⟨field, v⟩
  cases field <;> rfl

theorem counts_updateQuoteFields (msg : QuoteMsg) :
    counts (updateQuoteFields c msg) =
      (c.quoteCount, (carried msg).getD c.tmpQuoteCount, (carried msg).isSome) := by
  have hread := Msg.foldl_last? counts Field.quoteCount
    (fun (w : Nat × Nat × Bool) (n : Field.quoteCount.kind.Carrier) => (w.1, n, true)) (fun _ _ _ => rfl)
    counts_onField (setSymbols c msg.symbols).resetFlags msg.fields
  have hblank : counts (setSymbols c msg.symbols).resetFlags = (c.quoteCount, c.tmpQuoteCount, false) := by
    unfold setSymbols storeSymbols
    rcases msg.symbols.getSymbolAndPartId with ⟨symbol | _, partId | _⟩ <;> rfl
  calc counts (updateQuoteFields c msg)
    _ = counts (msg.fields.foldl onField (setSymbols c msg.symbols).resetFlags) := rfl
    _ = _ := by
      rw [hread, hblank, carried]
      cases Msg.last? Field.quoteCount msg.fields <;> rfl

theorem quoteQualStr_updateQuoteFields (msg : QuoteMsg) :
    (updateQuoteFields c msg).record.value .quoteQualStr =
      (Msg.last? Field.quoteQual msg.fields).getD (c.record.value .quoteQualStr) := by
  have hread := Msg.foldl_last? (fun c : QuoteListenerCache => c.record.value .quoteQualStr) Field.quoteQual
    (fun _ v => v) (fun _ _ _ => rfl) quoteQualStr_onField (setSymbols c msg.symbols).resetFlags msg.fields
  have hblank : (setSymbols c msg.symbols).resetFlags.record.value .quoteQualStr = c.record.value .quoteQualStr := by
    unfold setSymbols storeSymbols
    rcases msg.symbols.getSymbolAndPartId with ⟨symbol | _, partId | _⟩ <;> rfl
  rw [hblank] at hread
  rw [updateQuoteFields]
  rw [hread]
  cases Msg.last? Field.quoteQual msg.fields <;> rfl

end

variable {cfg : Settings}

theorem handleByType_counts (hs : s.isTransientMsg = false) (htype : handles msg.type) :
    quoteCounter.lastCountsOf (handleByType cfg msg s).1 =
      (quoteCounter.lastCountsOf s).next handles (fun _ => true) carried msg := by
  have hread := counts_updateQuoteFields s.regularCache.updateFieldStates msg
  simp only [counts, Prod.mk.injEq] at hread
  obtain ⟨-, htmp, -⟩ := hread
  have hupdate : ∀ t : QuoteListener,
      quoteCounter.lastCountsOf (if cfg.hasHandler && t.regularCache.lastGenericMsgWasQuote then
          (({ t with regularCache := { t.regularCache with lastGenericMsgWasQuote := false } },
            invoke cfg t .onQuoteUpdate) : Result)
        else (t, [])).1 = quoteCounter.lastCountsOf t := by
    intro t
    split
    · rfl
    · rfl
  unfold handleByType
  generalize updateQuoteFields s.regularCache.updateFieldStates msg = c at htmp ⊢
  have hmsg : ({ s with regularCache := c } : QuoteListener).isTransientMsg = false := hs
  have hnext : (quoteCounter.lastCountsOf s).next handles (fun _ => true) carried msg =
      ⟨c.tmpQuoteCount, c.tmpQuoteCount⟩ := by
    rw [LastCounts.next, if_pos htype, htmp]
    rfl
  rw [hnext]
  cases hty : msg.type with
  | initial | recap | preopening | snapshot => exact Counter.check_counts hmsg cfg false
  | quote => exact Counter.counted_counts hmsg fun _ => rfl
  | update | trade => exact Counter.counted_counts hmsg hupdate
  | _ => simp [hty, handles] at htype

theorem onMsg_inOrder (hmsg : msg.InOrder carried) (s : QuoteListener) :
    onMsg cfg s msg =
      if handles msg.type then
        handleByType cfg msg { s with msgQual := msg.msgQual.getD {}, isTransientMsg := false }
      else (s, []) := by
  have heval := hmsg.evaluateMsgQual_eq cfg (Msg.get? Field.quoteSeqNum msg.fields)
    (Msg.get? Field.quoteTime msg.fields) (s.regularCache.record.value .eventSeqNum)
    (s.regularCache.record.value .eventTime)
  rw [onMsg]
  split
  · rw [handleQuoteMessage, heval]
    rfl
  · rfl

theorem lastCountsOf_step (s : QuoteListener) (msg : QuoteMsg) (hmsg : msg.InOrder carried) :
    quoteCounter.lastCountsOf (step cfg s msg) =
      (quoteCounter.lastCountsOf s).next handles (fun _ => true) carried msg := by
  rw [step, onMsg_inOrder hmsg]
  split
  case isTrue htype => exact handleByType_counts rfl htype
  case isFalse htype => exact (if_neg htype).symm

theorem quoteQualStr_checkQuoteCount (cfg : Settings) (s : QuoteListener) (msg : QuoteMsg) (checkForGap : Bool) :
    (checkQuoteCount cfg s msg checkForGap).1.regularCache.record.value .quoteQualStr =
      s.regularCache.record.value .quoteQualStr := by
  unfold checkQuoteCount Counter.check
  dsimp only
  split
  · rfl
  · cases (checkCount checkForGap _ _ _ msg.conflateCount).gap <;> rfl

theorem callOf_value (r : Record Slot.kind) :
    (if r.holds .quoteQualStr "Closing" then QuoteCall.onQuoteClosing else .onQuoteUpdate) =
      callOf (r.value .quoteQualStr) := by
  split
  case isTrue h => exact (if_pos (Record.holds_iff.mp h)).symm
  case isFalse h => exact (if_neg fun heq => h (Record.holds_iff.mpr heq)).symm

theorem handleQuote_calls (hhandler : cfg.hasHandler) (hs : s.isTransientMsg = false) (msg : QuoteMsg) :
    (handleQuote cfg s msg).2 =
      (checkCount true s.regularCache.gotQuoteCount s.regularCache.quoteCount s.regularCache.tmpQuoteCount
        msg.conflateCount).calls (callOf (s.regularCache.record.value .quoteQualStr)) := by
  have hchecked : (checkQuoteCount cfg s msg true).1.isTransientMsg = false :=
    (Counter.isTransientMsg_check true).trans hs
  have hqual := quoteQualStr_checkQuoteCount cfg s msg true
  rw [← hqual, ← callOf_value]
  exact Counter.counted_calls hs hhandler (invoke_of_not_transient hhandler hchecked _)

theorem handleByType_calls (hhandler : cfg.hasHandler) (hs : s.isTransientMsg = false)
    (htype : msg.type = .quote) :
    (handleByType cfg msg s).2 =
      (checkCount true (carried msg).isSome (quoteCounter.lastCountsOf s).compared
        ((carried msg).getD (quoteCounter.lastCountsOf s).received) msg.conflateCount).calls (normalCall s msg) := by
  have hread := counts_updateQuoteFields s.regularCache.updateFieldStates msg
  have hqual := quoteQualStr_updateQuoteFields s.regularCache.updateFieldStates msg
  simp only [counts, Prod.mk.injEq] at hread
  obtain ⟨hcount, htmp, hgot⟩ := hread
  rw [handleByType, htype]
  refine (handleQuote_calls hhandler ?_ msg).trans ?_
  · exact hs
  · rw [hcount, htmp, hgot, hqual]
    rfl

theorem lastCountsOf_run (cfg : Settings) {msgs : List QuoteMsg} (hmsgs : ∀ m ∈ msgs, m.InOrder carried) :
    quoteCounter.lastCountsOf (msgs.foldl (step cfg) new) = lastCounts handles (fun _ => true) carried msgs ∧
      (lastCounts handles (fun _ => true) carried msgs).Small := by
  refine foldl_lastCounts lastCountsOf_step ?_ ?_ hmsgs
  · rfl
  · exact ⟨by decide, by decide⟩

theorem onMsg_expected_iff (hhandler : cfg.hasHandler) {msgs : List QuoteMsg}
    (hmsgs : ∀ m ∈ msgs, m.InOrder carried) (hmsg : msg.InOrder carried) (htype : msg.type = .quote) :
    let last := lastCounts handles (fun _ => true) carried msgs
    (onMsg cfg (msgs.foldl (step cfg) new) msg).2 = expected last.received (carried msg) msg.conflateCount
        (normalCall (msgs.foldl (step cfg) new) msg) ↔
      ∀ c ∈ carried msg, c ≤ last.received + msg.conflateCount.getD 1 := by
  intro last
  obtain ⟨hview, hsmall⟩ : _ = last ∧ last.Small := lastCountsOf_run cfg hmsgs
  have hhandles : handles msg.type := by rw [htype]; rfl
  have hcontinued : last.Continued (carried msg) msg.conflateCount ↔
      ∀ c ∈ carried msg, c ≤ last.received + msg.conflateCount.getD 1 := by
    rw [LastCounts.Continued, compared_eq_received]
    exact forall₂_congr fun c _ => ⟨fun h => h.1, fun h => ⟨h, .inr h, Iff.rfl⟩⟩
  rw [← hcontinued, ← calls_eq_expected_iff hsmall hmsg.carried_mem hmsg.conflateCount_lt, onMsg_inOrder hmsg,
    if_pos hhandles, handleByType_calls hhandler rfl htype, ← hview]
  rfl

end Quote

/-- After messages in order with a last count `p > 0`, a message that reports or changes a trade has the
callbacks that `p` calls for exactly when it continues the counts, and a quote exactly when its count
reveals no gap. -/
theorem counts_expected_iff (cfg : Settings) (hhandler : cfg.hasHandler = true) :
    (∀ (msgs : List Trade.TradeMsg) (msg : Trade.TradeMsg) (call : Trade.TradeCall),
      (∀ m ∈ msgs, m.InOrder Trade.carried) → msg.InOrder Trade.carried →
      Trade.normalCall msg.type = some call →
      0 < (lastCounts (Trade.handles cfg) Trade.compares Trade.carried msgs).received →
      ((Trade.onMsg cfg (msgs.foldl (Trade.step cfg) Trade.new) msg).2 =
          expected (lastCounts (Trade.handles cfg) Trade.compares Trade.carried msgs).received
            (Trade.carried msg) msg.conflateCount call ↔
        (lastCounts (Trade.handles cfg) Trade.compares Trade.carried msgs).Continued (Trade.carried msg)
          msg.conflateCount)) ∧
    ∀ (msgs : List Quote.QuoteMsg) (msg : Quote.QuoteMsg),
      (∀ m ∈ msgs, m.InOrder Quote.carried) → msg.InOrder Quote.carried → msg.type = .quote →
      0 < (lastCounts Quote.handles (fun _ => true) Quote.carried msgs).received →
      ((Quote.onMsg cfg (msgs.foldl (Quote.step cfg) Quote.new) msg).2 =
          expected (lastCounts Quote.handles (fun _ => true) Quote.carried msgs).received
            (Quote.carried msg) msg.conflateCount
            (Quote.normalCall (msgs.foldl (Quote.step cfg) Quote.new) msg) ↔
        ∀ c ∈ Quote.carried msg, c ≤
          (lastCounts Quote.handles (fun _ => true) Quote.carried msgs).received +
            msg.conflateCount.getD 1) :=
  ⟨fun _ _ _ hmsgs hmsg hcall _ => Trade.onMsg_expected_iff hhandler hmsgs hmsg hcall,
    fun _ _ hmsgs hmsg htype _ => Quote.onMsg_expected_iff hhandler hmsgs hmsg htype⟩

variable (type : MsgType)

def tradeWithCount (n : Nat) : Trade.TradeMsg where
  type := type
  fields := [⟨.tradeCount, n⟩]

def quoteWithCount (n : Nat) : Quote.QuoteMsg where
  type := type
  fields := [⟨.quoteCount, n⟩]

theorem Msg.InOrder.of_unqualified {Field : Type} {kind : Field → Kind} {carried : Msg kind → Option Nat}
    {msg : Msg kind} (hqual : msg.msgQual = none) (hconflate : msg.conflateCount = none)
    (hcarried : ∀ c ∈ carried msg, 1 ≤ c ∧ c < 2 ^ 31) : msg.InOrder carried where
  isTransient := by simp [Msg.isTransient, hqual]
  isDuplicate := by simp [Msg.isDuplicate, hqual]
  carried_mem := hcarried
  conflateCount_mem := by simp [hconflate]

theorem next_count_expected :
    (Trade.onMsg {} ([tradeWithCount .initial 5].foldl (Trade.step {}) Trade.new) (tradeWithCount .trade 6)).2 =
        expected 5 (some 6) none Trade.TradeCall.onTradeReport ∧
      (Quote.onMsg {} ([quoteWithCount .initial 5].foldl (Quote.step {}) Quote.new) (quoteWithCount .quote 6)).2 =
        expected 5 (some 6) none Quote.QuoteCall.onQuoteUpdate := by
  obtain ⟨htrade, hquote⟩ := counts_expected_iff {} rfl
  constructor
  · refine (htrade [tradeWithCount .initial 5] (tradeWithCount .trade 6) .onTradeReport ?_ ?_ rfl (by decide)).mpr ?_
    · rintro m hm
      obtain rfl := List.mem_singleton.mp hm
      exact .of_unqualified rfl rfl (by decide)
    · exact .of_unqualified rfl rfl (by decide)
    · rintro c ⟨⟩
      decide
  · refine (hquote [quoteWithCount .initial 5] (quoteWithCount .quote 6) ?_ ?_ rfl (by decide)).mpr ?_
    · rintro m hm
      obtain rfl := List.mem_singleton.mp hm
      exact .of_unqualified rfl rfl (by decide)
    · exact .of_unqualified rfl rfl (by decide)
    · decide

theorem gap_withholds_message :
    (Trade.onMsg {} ([tradeWithCount .initial 5].foldl (Trade.step {}) Trade.new) (tradeWithCount .trade 7)).2 ≠
        expected 5 (some 7) none Trade.TradeCall.onTradeReport ∧
      (Trade.onMsg {} ([tradeWithCount .initial 5, tradeWithCount .closing 6].foldl (Trade.step {}) Trade.new)
          (tradeWithCount .trade 7)).2 ≠
        expected 6 (some 7) none Trade.TradeCall.onTradeReport ∧
      (Quote.onMsg {} ([quoteWithCount .initial 5].foldl (Quote.step {}) Quote.new) (quoteWithCount .quote 7)).2 ≠
        expected 5 (some 7) none Quote.QuoteCall.onQuoteUpdate := by
  decide +kernel

end OpenMama.TradeQuote
