import OpenMama.Lib.Purge
import OpenMama.TradeQuote.Counts

/-!
# Transient messages and the record

With `processPosDupAndOutOfSeqAsTransient` on, a message that is out of sequence or possibly a duplicate is to be kept
apart from the record. The listeners switch caches by an assignment that copies the transient cache over the regular
one, so that the record becomes what the message alone gives: the values of its fields, and blank ones elsewhere. A
sequence of messages leaves the same record with and without its transient messages exactly when each of them repeats,
value for value, the record that the other messages made.
-/

namespace OpenMama.TradeQuote

open DataQuality (MsgType)

open Function

theorem evaluateMsgQual_eq {Field : Type} {kind : Field → Kind} {cfg : Settings}
    (hresolve : cfg.resolvePossiblyDuplicate = false) (msg : Msg kind) (seqNum : Option Nat)
    (eventTime : Option DateTime) (lastSeqNum : Nat) (lastTime : DateTime) :
    evaluateMsgQual cfg msg.msgQual seqNum eventTime lastSeqNum lastTime =
      (msg.msgQual.getD {}, msg.isDuplicate, msg.isTransient) := by
  cases hqual : msg.msgQual with
  | none => simp [evaluateMsgQual, Msg.isDuplicate, Msg.isTransient, hqual]
  | some q => simp [evaluateMsgQual, Msg.isDuplicate, Msg.isTransient, hqual, hresolve]

theorem Msg.isDuplicate_of_isTransient {Field : Type} {kind : Field → Kind} {msg : Msg kind}
    (h : msg.isTransient) : msg.isDuplicate = false := by
  unfold isTransient at h
  unfold isDuplicate
  split at h <;> simp_all

section

variable {Slot : Type} {kind : Slot → Kind} [DecidableEq Slot]

abbrev Values (kind : Slot → Kind) := (slot : Slot) → (kind slot).Carrier

/-- The last value given to each slot, and where there is none the value of `blank`. -/
def carriedOver (blank : Values kind) (told : List (Sent kind)) : Values kind :=
  fun slot => (Msg.last? slot told).getD (blank slot)

theorem carriedOver_cons (v : Values kind) (slot : Slot) (val : (kind slot).Carrier) (told : List (Sent kind)) :
    carriedOver v (⟨slot, val⟩ :: told) = carriedOver (update v slot val) told := by
  funext slot'
  rw [carriedOver, carriedOver, Msg.last?]
  cases Msg.last? slot' told with
  | some _ => rfl
  | none =>
    by_cases h : slot = slot'
    · subst h
      simp
    · simp [h, update_of_ne (Ne.symm h)]

theorem carriedOver_append (v : Values kind) (told rest : List (Sent kind)) :
    carriedOver v (told ++ rest) = carriedOver (carriedOver v told) rest := by
  induction told generalizing v with
  | nil => rfl
  | cons sent _ ih =>
    obtain ⟨slot, val⟩ := sent
    rw [List.cons_append, carriedOver_cons, carriedOver_cons, ih]

/-- The fields of a message, one after the other, give what they give together. -/
theorem value_foldl {C Field : Type} {fieldKind : Field → Kind} {onField : C → Sent fieldKind → C}
    (value : C → Values kind) (gives : Sent fieldKind → List (Sent kind)) {I : C → Prop}
    (hfield : ∀ c sent, I c → value (onField c sent) = carriedOver (value c) (gives sent) ∧ I (onField c sent))
    (c : C) (hc : I c) (fields : List (Sent fieldKind)) :
    value (fields.foldl onField c) = carriedOver (value c) (fields.flatMap gives) := by
  induction fields generalizing c with
  | nil => rfl
  | cons sent _ ih =>
    obtain ⟨hvalue, hkept⟩ := hfield c sent hc
    rw [List.foldl_cons, ih _ hkept, hvalue, List.flatMap_cons, carriedOver_append]

def toldSymbols (giveSymbol givePartId : String → Sent kind) (symbols : Symbols) : List (Sent kind) :=
  (symbols.getSymbolAndPartId.1.map giveSymbol).toList ++ (symbols.getSymbolAndPartId.2.map givePartId).toList

theorem value_storeSymbols {C : Type} (value : C → Values kind) {setSymbol setPartId : C → String → C}
    {giveSymbol givePartId : String → Sent kind}
    (hsymbol : ∀ c symbol, value (setSymbol c symbol) = carriedOver (value c) [giveSymbol symbol])
    (hpartId : ∀ c partId, value (setPartId c partId) = carriedOver (value c) [givePartId partId]) (c : C)
    (symbols : Symbols) :
    value (storeSymbols setSymbol setPartId c symbols) =
      carriedOver (value c) (toldSymbols giveSymbol givePartId symbols) := by
  rw [toldSymbols, storeSymbols]
  rcases symbols.getSymbolAndPartId with ⟨symbol | symbol, partId | partId⟩
  · rfl
  · exact hpartId c partId
  · exact hsymbol c symbol
  · refine (hpartId _ partId).trans ?_
    rw [hsymbol]
    exact (carriedOver_append _ [giveSymbol symbol] [givePartId partId]).symm

end

namespace Counter

variable {C N V : Type} {k : Counter C} {value : C → V} {cfg : Settings} {s s' : Listener C}
  {conflateCount : Option Nat} {rest : Listener C → Listener C × List (Call N)}

theorem check_transient (hmsg : s.isTransientMsg) (checkForGap : Bool) :
    (k.check (N := N) cfg s conflateCount checkForGap) =
      ({ s with ignoreUpdate := false, regularCache := k.setCount s.regularCache (k.tmpCount s.regularCache) }, []) :=
  if_pos hmsg

theorem counted_transient (hmsg : s.isTransientMsg) :
    (k.counted cfg s conflateCount rest).1 =
      (rest { s with
        ignoreUpdate := false, regularCache := k.setCount s.regularCache (k.tmpCount s.regularCache) }).1 := by
  rw [counted, check_transient hmsg]
  rfl

theorem transientCache_check (cfg : Settings) (checkForGap : Bool) :
    (k.check (N := N) cfg s conflateCount checkForGap).1.transientCache = s.transientCache := by
  unfold check
  dsimp only
  split
  · rfl
  · rfl

theorem transientCache_counted (hrest : ∀ s, (rest s).1.transientCache = s.transientCache) :
    (k.counted cfg s conflateCount rest).1.transientCache = s.transientCache := by
  rw [counted]
  dsimp only
  split
  · exact transientCache_check cfg true
  · exact (hrest _).trans (transientCache_check cfg true)

/-- The counts are among the values, and what a check stores depends on nothing else. -/
structure Among (k : Counter C) (value : C → V) : Prop where
  count : ∀ {c c'}, value c = value c' → k.count c = k.count c'
  tmpCount : ∀ {c c'}, value c = value c' → k.tmpCount c = k.tmpCount c'
  setGap : ∀ {c c'} gapBegin gapEnd, value c = value c' →
    value (k.setGap c gapBegin gapEnd) = value (k.setGap c' gapBegin gapEnd)
  setCount : ∀ {c c'} n, value c = value c' → value (k.setCount c n) = value (k.setCount c' n)

section

variable {c c' : C} (hk : k.Among value) (hvalue : value c = value c') (hgot : k.got c = k.got c')
  (hmsg : s.isTransientMsg = s'.isTransientMsg)
include hk hvalue hgot hmsg

theorem check_congr (cfg : Settings) (conflateCount : Option Nat) (checkForGap : Bool) :
    let t := (k.check (N := N) cfg { s with regularCache := c } conflateCount checkForGap).1
    let t' := (k.check (N := N) cfg { s' with regularCache := c' } conflateCount checkForGap).1
    value t.regularCache = value t'.regularCache ∧ t.ignoreUpdate = t'.ignoreUpdate := by
  unfold check
  dsimp only
  rw [hmsg, hgot, hk.count hvalue, hk.tmpCount hvalue]
  split
  · exact ⟨hk.setCount _ hvalue, rfl⟩
  · refine ⟨hk.setCount _ ?_, rfl⟩
    split
    · exact hk.setGap _ _ hvalue
    · exact hvalue

theorem counted_congr (hrest : ∀ s s', value s.regularCache = value s'.regularCache →
      value (rest s).1.regularCache = value (rest s').1.regularCache) :
    value (k.counted cfg { s with regularCache := c } conflateCount rest).1.regularCache =
      value (k.counted cfg { s' with regularCache := c' } conflateCount rest).1.regularCache := by
  obtain ⟨hcheck, hignore⟩ := check_congr (N := N) hk hvalue hgot hmsg cfg conflateCount true
  unfold counted
  dsimp only
  rw [hignore]
  split
  · exact hcheck
  · exact hrest _ _ hcheck

end

end Counter

/-! ### Any listener -/

section

variable {C V Field : Type} {kind : Field → Kind}

/-- After every message the record, as far as `view` shows it, is the one without the transient messages
up to there. -/
def LeavesAlone (step : Listener C → Msg kind → Listener C) (view : Listener C → V) (start : Listener C)
    (msgs : List (Msg kind)) : Prop :=
  Unnoticed step (fun s s' => view s = view s') (fun msg => !msg.isTransient) start msgs

/-- A transient message of a type that the listener handles. -/
def Msg.isSetAside (handles : MsgType → Bool) (msg : Msg kind) : Bool := msg.isTransient && handles msg.type

/-- What each transient message of a handled type gives is, value for value, the record of the messages before it that
are not transient. It depends on whether it is the first of its sort. -/
def AllRepeat (step : Listener C → Msg kind → Listener C) (view : Listener C → V) (handles : MsgType → Bool)
    (given : Bool → Msg kind → V) (start : Listener C) (msgs : List (Msg kind)) : Prop :=
  ∀ before msg after, msgs = before ++ msg :: after → msg.isSetAside handles = true →
    given (before.any (Msg.isSetAside handles)) msg =
      view ((before.filter fun msg => !msg.isTransient).foldl step start)

end

/-- A listener past the judging of the qualifier: its caches, the types it handles, what it notes in the cache for every
message, and what it does with a message. -/
structure Handling (C N : Type) {Field : Type} (kind : Field → Kind) where
  newCache : C
  clearCache : C → C
  handles : MsgType → Bool
  prepare : MsgType → C → C
  handle : Msg kind → Listener C → Listener C × List (Call N)

namespace Handling

variable {C N V Field : Type} {kind : Field → Kind} (h : Handling C N kind) {cfg : Settings} {value : C → V}
  {given : Bool → Msg kind → V} {s s' : Listener C} {msg : Msg kind} {earlier : Bool}

def step (cfg : Settings) (s : Listener C) (msg : Msg kind) : Listener C :=
  if h.handles msg.type then
    (handleMessage cfg h.newCache h.clearCache msg.isDuplicate (h.handle msg)
      { s with
        regularCache := h.prepare msg.type s.regularCache
        msgQual := msg.msgQual.getD {}
        isTransientMsg := msg.isTransient }).1
  else { s with regularCache := h.prepare msg.type s.regularCache }

/-- The transient cache is made for the first transient message and cleared after each. -/
def spare (earlier : Bool) : Option C := if earlier then some (h.clearCache h.newCache) else none

/-- The values after a message depend on those before it; after a transient one, which finds a new or cleared cache, on
nothing else. -/
structure Shows (value : C → V) (given : Bool → Msg kind → V) : Prop where
  clear_clear : h.clearCache (h.clearCache h.newCache) = h.clearCache h.newCache
  value_prepare : ∀ type c, value (h.prepare type c) = value c
  transientCache : ∀ msg (s : Listener C), (h.handle msg s).1.transientCache = s.transientCache
  congr : ∀ msg (s s' : Listener C), value s.regularCache = value s'.regularCache → s.isTransientMsg = s'.isTransientMsg →
    value (h.handle msg { s with regularCache := h.prepare msg.type s.regularCache }).1.regularCache =
      value (h.handle msg { s' with regularCache := h.prepare msg.type s'.regularCache }).1.regularCache
  value_given : ∀ msg (s : Listener C) earlier, s.isTransientMsg → h.handles msg.type →
    s.regularCache = (h.spare earlier).getD h.newCache → value (h.handle msg s).1.regularCache = given earlier msg

variable {h}

theorem Shows.step_congr (hh : h.Shows value given) (hmsg : msg.isTransient = false)
    (hs : value s.regularCache = value s'.regularCache) :
    value (h.step cfg s msg).regularCache = value (h.step cfg s' msg).regularCache := by
  have hprepare : value (h.prepare msg.type s.regularCache) = value (h.prepare msg.type s'.regularCache) := by
    rw [hh.value_prepare, hh.value_prepare, hs]
  unfold step
  split
  · simp only [handleMessage, hmsg, Bool.false_and, Bool.false_eq_true, if_false]
    split
    · exact hprepare
    · exact hh.congr msg { s with msgQual := msg.msgQual.getD {}, isTransientMsg := false }
        { s' with msgQual := msg.msgQual.getD {}, isTransientMsg := false } hs rfl
  · exact hprepare

theorem Shows.step_other (hh : h.Shows value given) (htype : h.handles msg.type = false) :
    value (h.step cfg s msg).regularCache = value s.regularCache := by
  rw [step, htype]
  exact hh.value_prepare _ _

section

variable (hh : h.Shows value given) (hprocess : cfg.processPosDupAndOutOfSeqAsTransient)
  (hs : s.transientCache = h.spare earlier)
include hh hprocess hs

theorem Shows.transientCache_step :
    (h.step cfg s msg).transientCache = h.spare (earlier || msg.isSetAside h.handles) := by
  unfold step
  cases htype : h.handles msg.type with
  | false => simpa [Msg.isSetAside, htype] using hs
  | true =>
    cases hmsg : msg.isTransient with
    | false => cases hdup : msg.isDuplicate <;> simpa [handleMessage, Msg.isSetAside, hmsg, hh.transientCache] using hs
    | true =>
      rw [Msg.isDuplicate_of_isTransient hmsg]
      cases earlier <;>
        simp [handleMessage, Msg.isSetAside, hmsg, htype, hprocess, hh.transientCache, hs, spare, hh.clear_clear]

theorem Shows.value_step (hmsg : msg.isSetAside h.handles) :
    value (h.step cfg s msg).regularCache = given earlier msg := by
  obtain ⟨htransient, htype⟩ := Bool.and_eq_true_iff.mp hmsg
  rw [step, if_pos htype, Msg.isDuplicate_of_isTransient htransient]
  simp only [handleMessage, htransient, hprocess, Bool.false_eq_true, if_false, Bool.and_self, if_true]
  refine hh.value_given msg _ earlier ?_ htype ?_
  · rfl
  · rw [hs]

end

theorem transientCache_run (hh : h.Shows value given) (hprocess : cfg.processPosDupAndOutOfSeqAsTransient)
    (hs : s.transientCache = h.spare earlier) (msgs : List (Msg kind)) :
    (msgs.foldl (h.step cfg) s).transientCache = h.spare (earlier || msgs.any (Msg.isSetAside h.handles)) := by
  induction msgs generalizing s earlier with
  | nil => simpa using hs
  | cons msg _ ih =>
    rw [List.foldl_cons, ih (hh.transientCache_step hprocess hs), List.any_cons, Bool.or_assoc]

theorem leavesAlone_iff (hh : h.Shows value given) (hprocess : cfg.processPosDupAndOutOfSeqAsTransient)
    {start : Listener C} (hstart : start.transientCache = none) (msgs : List (Msg kind)) :
    LeavesAlone (h.step cfg) (fun s => value s.regularCache) start msgs ↔
      AllRepeat (h.step cfg) (fun s => value s.regularCache) h.handles given start msgs := by
  have hequiv : Equivalence fun s s' : Listener C => value s.regularCache = value s'.regularCache :=
    ⟨fun _ => rfl, Eq.symm, Eq.trans⟩
  have hkeep : ∀ (s s' : Listener C) (msg : Msg kind), (!msg.isTransient) = true →
      value s.regularCache = value s'.regularCache →
        value (h.step cfg s msg).regularCache = value (h.step cfg s' msg).regularCache :=
    fun s s' msg hmsg => hh.step_congr (by simpa using hmsg)
  have hharmless : ∀ (s : Listener C) (msg : Msg kind), (!h.handles msg.type) = true →
      value (h.step cfg s msg).regularCache = value s.regularCache :=
    fun s msg hmsg => hh.step_other (by simpa using hmsg)
  have hrun := unnoticed_iff (fun msg : Msg kind => !h.handles msg.type) hequiv hkeep hharmless start msgs
  refine hrun.trans (forall_congr' fun before => forall_congr' fun msg => forall_congr' fun after =>
    imp_congr_right fun _ => ?_)
  have hlast : msg.isSetAside h.handles → value ((before ++ [msg]).foldl (h.step cfg) start).regularCache =
      given (before.any (Msg.isSetAside h.handles)) msg := by
    intro hmsg
    rw [List.foldl_append]
    have hspare : start.transientCache = h.spare false := hstart
    exact hh.value_step hprocess (by simpa using transientCache_run hh hprocess hspare before) hmsg
  constructor
  · intro hall hmsg
    obtain ⟨htransient, htype⟩ := Bool.and_eq_true_iff.mp hmsg
    rw [← hlast hmsg]
    exact hall (by simp [htransient]) (by simp [htype])
  · intro hall htransient htype
    have hmsg : msg.isSetAside h.handles := by simpa [Msg.isSetAside] using And.intro htransient htype
    exact (hlast hmsg).trans (hall hmsg)

end Handling

namespace Trade

/-! ### The trade listener: what a message gives -/

/-- What a field gives: its value to its slot, and to `isIrregular` whether the trade is an irregular one, unless
the message is an image. A trade time without the time of day gives nothing. -/
def gives (isSnapshot : Bool) (sent : Sent Field.kind) : List (Sent Slot.kind) :=
  let official : List (Sent Slot.kind) := if isSnapshot then [] else [⟨.isIrregular, false⟩]
  let irregular (blank : Bool) : List (Sent Slot.kind) := if isSnapshot || blank then [] else [⟨.isIrregular, true⟩]
  match sent with
  | ⟨.tradePrice, v⟩ => ⟨.lastPrice, v⟩ :: official
  | ⟨.tradeSize, v⟩ => ⟨.lastVolume, v⟩ :: official
  | ⟨.tradePartId, v⟩ => ⟨.lastPartId, v⟩ :: official
  | ⟨.tradeTime, v⟩ => if hasTime v then [⟨.lastTime, v⟩] else []
  | ⟨.irregPrice, v⟩ => ⟨.irregPrice, v⟩ :: irregular (Kind.isZero .price v)
  | ⟨.irregSize, v⟩ => ⟨.irregVolume, v⟩ :: irregular (Kind.isZero .real v)
  | ⟨.irregPartId, v⟩ => ⟨.irregPartId, v⟩ :: irregular (Kind.isZero .text v)
  | ⟨.irregTime, v⟩ => ⟨.irregTime, v⟩ :: irregular (!hasTime v)
  | ⟨field, v⟩ => [⟨field.slot, v⟩]

def giveSymbol (symbol : String) : Sent Slot.kind := ⟨.symbol, symbol⟩

def givePartId (partId : String) : Sent Slot.kind := ⟨.partId, partId⟩

/-- What the symbols and the fields of a message give, in the order of the message. -/
def told (isSnapshot : Bool) (msg : TradeMsg) : List (Sent Slot.kind) :=
  toldSymbols giveSymbol givePartId msg.symbols ++ msg.fields.flatMap (gives isSnapshot)

def isIrregular (v : Values Slot.kind) : Bool := v .isIrregular

/-- The trade that the message reports is the irregular or the official one. -/
def reported (v : Values Slot.kind) : Values Slot.kind
  | .tradePrice => if isIrregular v then v .irregPrice else v .lastPrice
  | .tradeVolume => if isIrregular v then v .irregVolume else v .lastVolume
  | .tradePartId => if isIrregular v then v .irregPartId else v .lastPartId
  | .eventTime =>
    if isIrregular v then if DateTime.empty (v .irregTime) then v .lastTime else v .irregTime else v .lastTime
  | slot => v slot

/-- Every message but a closing one moves the count of the record to the count received last. -/
def countMoved (type : MsgType) (v : Values Slot.kind) : Values Slot.kind
  | .tradeCount => if type = .closing then v .tradeCount else v .tmpTradeCount
  | slot => v slot

/-- What the type of the message adds: whether and when a trade was cancelled or corrected. -/
def ended (type : MsgType) (v : Values Slot.kind) : Values Slot.kind
  | .isCancel => match type with
    | .cancel => true
    | .error => false
    | _ => v .isCancel
  | .eventTime => match type with
    | .cancel | .error => if DateTime.empty (v .cancelTime) then v .eventTime else v .cancelTime
    | .correction => if DateTime.empty (v .corrTime) then v .eventTime else v .corrTime
    | _ => v .eventTime
  | slot => v slot

/-- The values of a slot that a transient message gives nothing: those of a new cache for the first such message,
those of a cleared cache afterwards. -/
def blank (earlier : Bool) : Values Slot.kind :=
  fun slot => if earlier then TradeCache.cleared slot else slot.kind.zero

/-- The record that a transient message gives by itself. The flag that it is an image is lost in the switch. -/
def given (earlier : Bool) (msg : TradeMsg) : Values Slot.kind :=
  ended msg.type (countMoved msg.type (reported (carriedOver (blank earlier) (told false msg))))

section

variable (c : TradeCache)

theorem value_regular : (regular c).record.value =
    carriedOver c.record.value (if c.isSnapshot then [] else [⟨.isIrregular, false⟩]) := by
  unfold regular
  split
  · rfl
  · exact (carriedOver_cons c.record.value .isIrregular false []).symm

theorem value_irregular (isBlank : Bool) : (irregular c isBlank).record.value =
    carriedOver c.record.value (if c.isSnapshot || isBlank then [] else [⟨.isIrregular, true⟩]) := by
  have hset : carriedOver c.record.value [⟨.isIrregular, true⟩] = update c.record.value .isIrregular true :=
    carriedOver_cons c.record.value .isIrregular true []
  unfold irregular
  cases c.isSnapshot with
  | true => rfl
  | false =>
    cases isBlank with
    | true => rfl
    | false =>
      refine Eq.trans ?_ hset.symm
      cases hc : c.isIrregular with
      | true => exact (update_eq_self_iff.mpr hc.symm).symm
      | false => rfl

theorem isSnapshot_onField (sent : Sent Field.kind) : (onField c sent).isSnapshot = c.isSnapshot := by
  have hregular : ∀ c, (regular c).isSnapshot = c.isSnapshot := by
    intro c
    exact (apply_ite TradeCache.isSnapshot _ _ _).trans (ite_self _)
  have hirregular : ∀ c isBlank, (irregular c isBlank).isSnapshot = c.isSnapshot := by
    intro c isBlank
    exact (apply_ite TradeCache.isSnapshot _ _ _).trans (ite_self _)
  rcases sent with ⟨⟨⟩, v⟩
  case tradePrice | tradeSize | tradePartId => exact hregular _
  case irregPrice | irregSize | irregPartId | irregTime => exact hirregular _ _
  case tradeTime | shortSaleCircuitBreaker | origShortSaleCircuitBreaker | corrShortSaleCircuitBreaker =>
    exact (apply_ite TradeCache.isSnapshot _ _ _).trans (ite_self _)
  all_goals rfl

theorem value_onField (sent : Sent Field.kind) :
    (onField c sent).record.value = carriedOver c.record.value (gives c.isSnapshot sent) := by
  have hgiven (slot : Slot) (v : slot.kind.Carrier) (told : List (Sent Slot.kind)) :=
    (carriedOver_cons c.record.value slot v told).symm
  rcases sent with ⟨⟨⟩, v⟩
  case tradePrice => exact (value_regular _).trans (hgiven .lastPrice v _)
  case tradeSize => exact (value_regular _).trans (hgiven .lastVolume v _)
  case tradePartId => exact (value_regular _).trans (hgiven .lastPartId v _)
  case irregPrice => exact (value_irregular _ _).trans (hgiven .irregPrice v _)
  case irregSize => exact (value_irregular _ _).trans (hgiven .irregVolume v _)
  case irregPartId => exact (value_irregular _ _).trans (hgiven .irregPartId v _)
  case irregTime => exact (value_irregular _ _).trans (hgiven .irregTime v _)
  case tradeTime =>
    unfold onField gives
    dsimp only
    split
    · exact hgiven .lastTime v []
    · rfl
  case shortSaleCircuitBreaker | origShortSaleCircuitBreaker | corrShortSaleCircuitBreaker =>
    exact (Record.value_unlessHeld TradeCache.record id rfl).trans (hgiven (Field.slot _) v [])
  all_goals exact hgiven (Field.slot _) v []

theorem TradeCache.clearCache_clearCache : c.clearCache.clearCache = c.clearCache := by
  unfold clearCache
  congr
  funext slot
  dsimp only
  split
  · rfl
  · rfl

theorem value_setTrade : (setTrade c).record.value = reported c.record.value := by
  funext slot
  by_cases h : c.isIrregular
  · have hset : setTrade c = _ := if_pos h
    rw [hset]
    cases slot
    case tradePrice | tradeVolume | tradePartId | eventTime => exact (if_pos h).symm
    all_goals rfl
  · have hset : setTrade c = _ := if_neg h
    rw [hset]
    cases slot
    case tradePrice | tradeVolume | tradePartId | eventTime => exact (if_neg h).symm
    all_goals rfl

theorem value_updateTradeFields (msg : TradeMsg) :
    (updateTradeFields c msg).record.value =
      reported (carriedOver c.record.value (told c.isSnapshot msg)) := by
  have hsymbols : (setSymbols c msg.symbols).resetFlags.record.value =
      carriedOver c.record.value (toldSymbols giveSymbol givePartId msg.symbols) :=
    value_storeSymbols (fun c : TradeCache => c.record.value)
      (fun c symbol => (carriedOver_cons c.record.value .symbol symbol []).symm)
      (fun c partId => (carriedOver_cons c.record.value .partId partId []).symm) c msg.symbols
  have hsnapshot : (setSymbols c msg.symbols).resetFlags.isSnapshot = c.isSnapshot := by
    unfold setSymbols storeSymbols
    rcases msg.symbols.getSymbolAndPartId with ⟨symbol | symbol, partId | partId⟩ <;> rfl
  have hfield : ∀ (c' : TradeCache) (sent : Sent Field.kind), c'.isSnapshot = c.isSnapshot →
      (onField c' sent).record.value = carriedOver c'.record.value (gives c.isSnapshot sent) ∧
        (onField c' sent).isSnapshot = c.isSnapshot := by
    intro c' sent hc'
    exact ⟨hc' ▸ value_onField c' sent, (isSnapshot_onField c' sent).trans hc'⟩
  have hread := value_foldl (fun c' : TradeCache => c'.record.value) (gives c.isSnapshot) hfield _ hsnapshot msg.fields
  rw [told, carriedOver_append, ← hsymbols, ← hread]
  exact value_setTrade _

theorem gotTradeCount_updateTradeFields (msg : TradeMsg) :
    (updateTradeFields c msg).gotTradeCount = (carried msg).isSome :=
  congrArg (fun counts => counts.2.2) (counts_updateTradeFields c msg)

end

/-! ### The trade listener: whole messages -/

def recordOf (s : TradeListener) : Values Slot.kind := s.regularCache.record.value

theorem tradeCounter_among : tradeCounter.Among fun c => c.record.value where
  count h := congrFun h Slot.tradeCount
  tmpCount h := congrFun h Slot.tmpTradeCount
  setGap gapBegin gapEnd h := Record.value_set_congr (Record.value_set_congr h .gapBegin gapBegin) .gapEnd gapEnd
  setCount n h := Record.value_set_congr h .tradeCount n

theorem value_setCount {type : MsgType} (h : type ≠ .closing) (c : TradeCache) :
    (tradeCounter.setCount c (tradeCounter.tmpCount c)).record.value = countMoved type c.record.value := by
  funext slot
  cases slot
  case tradeCount => exact (if_neg h).symm
  all_goals rfl

theorem value_eventAt (c : TradeCache) (time : DateTime) : (eventAt c time).record.value =
    update c.record.value .eventTime (if time.empty then c.record.value .eventTime else time) := by
  by_cases h : time.empty
  · rw [eventAt, if_pos h]
    exact (update_eq_self_iff.mpr (if_pos h)).symm
  · rw [eventAt, if_neg h]
    exact congrArg (update c.record.value Slot.eventTime) (if_neg h).symm

theorem value_cancelOrError (c : TradeCache) (isCancel : Bool) :
    (eventAt (c.put .isCancel isCancel) (c.record.value .cancelTime)).record.value =
      ended (if isCancel then .cancel else .error) c.record.value := by
  refine (value_eventAt _ _).trans (funext fun slot => ?_)
  cases isCancel <;> cases slot <;> rfl

theorem value_correction (c : TradeCache) :
    (eventAt c (c.record.value .corrTime)).record.value = ended .correction c.record.value := by
  refine (value_eventAt _ _).trans (funext fun slot => ?_)
  cases slot <;> rfl

theorem ended_eq_self {type : MsgType} (hcancel : type ≠ .cancel) (herror : type ≠ .error)
    (hcorrection : type ≠ .correction) (v : Values Slot.kind) : ended type v = v := by
  funext slot
  cases slot
  case isCancel | eventTime => cases type <;> first | rfl | contradiction
  all_goals rfl

variable {cfg : Settings} {s s' : TradeListener} {msg : TradeMsg}

theorem handleByType_congr (hvalue : recordOf s = recordOf s')
    (hsnapshot : s.regularCache.isSnapshot = s'.regularCache.isSnapshot)
    (htransient : s.isTransientMsg = s'.isTransientMsg) :
    recordOf (handleByType cfg msg s).1 = recordOf (handleByType cfg msg s').1 := by
  have hread : (updateTradeFields s.regularCache.updateFieldStates msg).record.value =
      (updateTradeFields s'.regularCache.updateFieldStates msg).record.value := by
    rw [value_updateTradeFields, value_updateTradeFields]
    exact congrArg₂ (fun v b => reported (carriedOver v (told b msg))) hvalue hsnapshot
  have hgot : (updateTradeFields s.regularCache.updateFieldStates msg).gotTradeCount =
      (updateTradeFields s'.regularCache.updateFieldStates msg).gotTradeCount := by
    rw [gotTradeCount_updateTradeFields, gotTradeCount_updateTradeFields]
  unfold handleByType
  generalize updateTradeFields s.regularCache.updateFieldStates msg = c at hread hgot ⊢
  generalize updateTradeFields s'.regularCache.updateFieldStates msg = c' at hread hgot ⊢
  have hcounted {rest : TradeListener → Result} (hrest : ∀ s s', recordOf s = recordOf s' →
      recordOf (rest s).1 = recordOf (rest s').1) :
      recordOf (counted cfg { s with regularCache := c } msg rest).1 =
        recordOf (counted cfg { s' with regularCache := c' } msg rest).1 :=
    Counter.counted_congr tradeCounter_among hread hgot htransient hrest
  have hchecked : recordOf (checkTradeCount cfg { s with regularCache := c } msg false).1 =
      recordOf (checkTradeCount cfg { s' with regularCache := c' } msg false).1 :=
    (Counter.check_congr tradeCounter_among hread hgot htransient cfg msg.conflateCount false).1
  cases msg.type
  case trade | update => exact hcounted fun _ _ h => h
  case cancel =>
    refine hcounted fun s s' h => (value_cancelOrError s.regularCache true).trans ?_
    exact (congrArg (ended .cancel) h).trans (value_cancelOrError s'.regularCache true).symm
  case error =>
    refine hcounted fun s s' h => (value_cancelOrError s.regularCache false).trans ?_
    exact (congrArg (ended .error) h).trans (value_cancelOrError s'.regularCache false).symm
  case correction =>
    refine hcounted fun s s' h => (value_correction s.regularCache).trans ?_
    exact (congrArg (ended .correction) h).trans (value_correction s'.regularCache).symm
  case initial | recap | preopening | snapshot => exact hchecked
  all_goals exact hread

theorem transientCache_handleByType (cfg : Settings) (s : TradeListener) (msg : TradeMsg) :
    (handleByType cfg msg s).1.transientCache = s.transientCache := by
  unfold handleByType
  cases msg.type
  case trade | update | cancel | error | correction => exact Counter.transientCache_counted fun _ => rfl
  case initial | recap | preopening | snapshot => exact Counter.transientCache_check cfg false
  all_goals rfl

/-- A transient message leaves the record that its fields and its type make of the one it finds. -/
theorem handleByType_transient (hmsg : s.isTransientMsg) (hsnapshot : s.regularCache.isSnapshot = false)
    (htype : handles cfg msg.type) :
    recordOf (handleByType cfg msg s).1 =
      ended msg.type (countMoved msg.type (reported (carriedOver (recordOf s) (told false msg)))) := by
  have hread : (updateTradeFields s.regularCache.updateFieldStates msg).record.value =
      reported (carriedOver (recordOf s) (told false msg)) := by
    rw [value_updateTradeFields, ← hsnapshot]
    rfl
  unfold handleByType
  rw [← hread]
  generalize updateTradeFields s.regularCache.updateFieldStates msg = c
  have hcounted (rest : TradeListener → Result) :
      recordOf (counted cfg { s with regularCache := c } msg rest).1 =
        recordOf (rest { s with
          ignoreUpdate := false, regularCache := tradeCounter.setCount c (tradeCounter.tmpCount c) }).1 :=
    congrArg recordOf (Counter.counted_transient hmsg)
  have hchecked : recordOf (checkTradeCount cfg { s with regularCache := c } msg false).1 =
      (tradeCounter.setCount c (tradeCounter.tmpCount c)).record.value := by
    rw [checkTradeCount, Counter.check_transient]
    · rfl
    · exact hmsg
  cases hty : msg.type
  case trade | update =>
    refine (hcounted _).trans ?_
    rw [ended_eq_self (by decide) (by decide) (by decide)]
    exact value_setCount (by decide) c
  case cancel =>
    refine (hcounted _).trans ((value_cancelOrError _ true).trans ?_)
    exact congrArg (ended .cancel) (value_setCount (by decide) c)
  case error =>
    refine (hcounted _).trans ((value_cancelOrError _ false).trans ?_)
    exact congrArg (ended .error) (value_setCount (by decide) c)
  case correction =>
    refine (hcounted _).trans ((value_correction _).trans ?_)
    exact congrArg (ended .correction) (value_setCount (by decide) c)
  case initial | recap | preopening | snapshot =>
    refine hchecked.trans ?_
    rw [ended_eq_self (by decide) (by decide) (by decide)]
    exact value_setCount (by decide) c
  case closing =>
    rw [ended_eq_self (by decide) (by decide) (by decide)]
    funext slot
    cases slot <;> rfl
  all_goals simp [hty, handles] at htype

def handling (cfg : Settings) : Handling TradeCache TradeCall Field.kind where
  newCache := TradeCache.new
  clearCache := TradeCache.clearCache
  handles := handles cfg
  prepare type c := { c with isSnapshot := isImage type }
  handle := handleByType cfg

theorem step_eq (hresolve : cfg.resolvePossiblyDuplicate = false) : step cfg = (handling cfg).step cfg := by
  funext s msg
  have heval := evaluateMsgQual_eq hresolve msg (Msg.get? Field.tradeSeqnum msg.fields)
    (Msg.get? Field.tradeTime msg.fields) (s.regularCache.record.value .eventSeqNum)
    (s.regularCache.record.value .eventTime)
  rw [step, onMsg, Handling.step]
  refine (apply_ite Prod.fst _ _ _).trans ?_
  congr 1
  rw [handleTradeMessage]
  rw [heval]
  rfl

theorem handling_shows (cfg : Settings) : (handling cfg).Shows (fun c => c.record.value) given where
  clear_clear := TradeCache.clearCache_clearCache _
  value_prepare _ _ := rfl
  transientCache msg s := transientCache_handleByType cfg s msg
  congr _ _ _ hvalue hmsg := handleByType_congr hvalue rfl hmsg
  value_given msg s earlier hmsg htype hcache := by
    have hblank : recordOf s = blank earlier ∧ s.regularCache.isSnapshot = false := by
      rw [recordOf, hcache]
      cases earlier with
      | false => exact ⟨rfl, rfl⟩
      | true =>
        refine ⟨funext fun slot => ?_, rfl⟩
        cases slot <;> rfl
    refine (handleByType_transient hmsg hblank.2 htype).trans ?_
    rw [hblank.1]
    rfl

end Trade

namespace Quote

def giveSymbol (symbol : String) : Sent Slot.kind := ⟨.symbol, symbol⟩

def givePartId (partId : String) : Sent Slot.kind := ⟨.partId, partId⟩

/-- What a field gives: its value to its slot. -/
def gives (sent : Sent Field.kind) : List (Sent Slot.kind) := [⟨sent.field.slot, sent.value⟩]

/-- What the symbols and the fields of a message give, in the order of the message. -/
def told (msg : QuoteMsg) : List (Sent Slot.kind) :=
  toldSymbols giveSymbol givePartId msg.symbols ++ msg.fields.flatMap gives

/-- Every message moves the count of the record to the count received last. -/
def countMoved (v : Values Slot.kind) : Values Slot.kind
  | .quoteCount => v .tmpQuoteCount
  | slot => v slot

/-- The values of a slot that a transient message gives nothing: those of a new cache for the first such message,
those of a cleared cache afterwards. -/
def blank (earlier : Bool) : Values Slot.kind :=
  fun slot => if earlier then QuoteListenerCache.cleared slot else slot.kind.zero

/-- The record that a transient message gives by itself. -/
def given (earlier : Bool) (msg : QuoteMsg) : Values Slot.kind :=
  countMoved (carriedOver (blank earlier) (told msg))

theorem QuoteListenerCache.clearCache_clearCache (c : QuoteListenerCache) :
    c.clearCache.clearCache = c.clearCache := by
  unfold clearCache
  congr
  · funext slot
    dsimp only
    split
    · rfl
    · rfl
  · funext slot
    dsimp only
    split
    · rfl
    · rfl

theorem value_updateQuoteFields (c : QuoteListenerCache) (msg : QuoteMsg) :
    (updateQuoteFields c msg).record.value = carriedOver c.record.value (told msg) := by
  have hsymbols : (setSymbols c msg.symbols).resetFlags.record.value =
      carriedOver c.record.value (toldSymbols giveSymbol givePartId msg.symbols) :=
    value_storeSymbols (fun c : QuoteListenerCache => c.record.value)
      (fun c symbol => (carriedOver_cons c.record.value .symbol symbol []).symm)
      (fun c partId => (carriedOver_cons c.record.value .partId partId []).symm) c msg.symbols
  have hfield : ∀ (c : QuoteListenerCache) (sent : Sent Field.kind), True →
      (onField c sent).record.value = carriedOver c.record.value (gives sent) ∧ True := by
    intro c sent _
    exact ⟨(value_onField c sent).trans (carriedOver_cons c.record.value sent.field.slot sent.value []).symm, trivial⟩
  have hread := value_foldl (fun c : QuoteListenerCache => c.record.value) gives hfield
    (setSymbols c msg.symbols).resetFlags trivial msg.fields
  rw [told, carriedOver_append, ← hsymbols, ← hread]
  rfl

theorem gotQuoteCount_updateQuoteFields (c : QuoteListenerCache) (msg : QuoteMsg) :
    (updateQuoteFields c msg).gotQuoteCount = (carried msg).isSome :=
  congrArg (fun counts => counts.2.2) (counts_updateQuoteFields c msg)

/-! ### The quote listener: whole messages -/

def recordOf (s : QuoteListener) : Values Slot.kind := s.regularCache.record.value

theorem quoteCounter_among : quoteCounter.Among fun c => c.record.value where
  count h := congrFun h Slot.quoteCount
  tmpCount h := congrFun h Slot.tmpQuoteCount
  setGap gapBegin gapEnd h := Record.value_set_congr (Record.value_set_congr h .gapBegin gapBegin) .gapEnd gapEnd
  setCount n h := Record.value_set_congr h .quoteCount n

theorem value_setCount (c : QuoteListenerCache) :
    (quoteCounter.setCount c (quoteCounter.tmpCount c)).record.value = countMoved c.record.value := by
  funext slot
  cases slot <;> rfl

variable {cfg : Settings} {s s' : QuoteListener} {msg : QuoteMsg}

/-- The rest of `handleUpdate` leaves the record and the transient cache alone. -/
theorem update_rest (cfg : Settings) (s : QuoteListener) (call : QuoteCall) :
    let rest : Result := if cfg.hasHandler && s.regularCache.lastGenericMsgWasQuote then
        ({ s with regularCache := { s.regularCache with lastGenericMsgWasQuote := false } }, invoke cfg s call)
      else (s, [])
    recordOf rest.1 = recordOf s ∧ rest.1.transientCache = s.transientCache := by
  intro rest
  by_cases h : (cfg.hasHandler && s.regularCache.lastGenericMsgWasQuote) = true
  · have hrest : rest = _ := if_pos h
    rw [hrest]
    exact ⟨rfl, rfl⟩
  · have hrest : rest = _ := if_neg h
    rw [hrest]
    exact ⟨rfl, rfl⟩

theorem handleByType_congr (hvalue : recordOf s = recordOf s') (htransient : s.isTransientMsg = s'.isTransientMsg) :
    recordOf (handleByType cfg msg s).1 = recordOf (handleByType cfg msg s').1 := by
  have hread : (updateQuoteFields s.regularCache.updateFieldStates msg).record.value =
      (updateQuoteFields s'.regularCache.updateFieldStates msg).record.value := by
    rw [value_updateQuoteFields, value_updateQuoteFields]
    exact congrArg (carriedOver · (told msg)) hvalue
  have hgot : (updateQuoteFields s.regularCache.updateFieldStates msg).gotQuoteCount =
      (updateQuoteFields s'.regularCache.updateFieldStates msg).gotQuoteCount := by
    rw [gotQuoteCount_updateQuoteFields, gotQuoteCount_updateQuoteFields]
  unfold handleByType
  generalize updateQuoteFields s.regularCache.updateFieldStates msg = c at hread hgot ⊢
  generalize updateQuoteFields s'.regularCache.updateFieldStates msg = c' at hread hgot ⊢
  have hcounted {rest : QuoteListener → Result} (hrest : ∀ s, recordOf (rest s).1 = recordOf s) :
      recordOf (counted cfg { s with regularCache := c } msg rest).1 =
        recordOf (counted cfg { s' with regularCache := c' } msg rest).1 :=
    Counter.counted_congr quoteCounter_among hread hgot htransient
      fun s s' h => (hrest s).trans (h.trans (hrest s').symm)
  have hchecked : recordOf (checkQuoteCount cfg { s with regularCache := c } msg false).1 =
      recordOf (checkQuoteCount cfg { s' with regularCache := c' } msg false).1 :=
    (Counter.check_congr quoteCounter_among hread hgot htransient cfg msg.conflateCount false).1
  cases msg.type
  case quote => exact hcounted fun _ => rfl
  case update | trade => exact hcounted fun s => (update_rest cfg s _).1
  case initial | recap | preopening | snapshot => exact hchecked
  all_goals exact hread

theorem transientCache_handleByType (cfg : Settings) (s : QuoteListener) (msg : QuoteMsg) :
    (handleByType cfg msg s).1.transientCache = s.transientCache := by
  unfold handleByType
  cases msg.type
  case quote => exact Counter.transientCache_counted fun _ => rfl
  case update | trade => exact Counter.transientCache_counted fun s => (update_rest cfg s _).2
  case initial | recap | preopening | snapshot => exact Counter.transientCache_check cfg false
  all_goals rfl

/-- A transient message leaves the record that its fields make of the one it finds. -/
theorem handleByType_transient (hmsg : s.isTransientMsg) (htype : handles msg.type) :
    recordOf (handleByType cfg msg s).1 = countMoved (carriedOver (recordOf s) (told msg)) := by
  have hread : (updateQuoteFields s.regularCache.updateFieldStates msg).record.value =
      carriedOver (recordOf s) (told msg) := value_updateQuoteFields _ msg
  unfold handleByType
  rw [← hread]
  generalize updateQuoteFields s.regularCache.updateFieldStates msg = c
  have hcounted {rest : QuoteListener → Result} (hrest : ∀ s, recordOf (rest s).1 = recordOf s) :
      recordOf (counted cfg { s with regularCache := c } msg rest).1 = countMoved c.record.value := by
    rw [counted, Counter.counted_transient]
    · exact (hrest _).trans (value_setCount c)
    · exact hmsg
  have hchecked : recordOf (checkQuoteCount cfg { s with regularCache := c } msg false).1 =
      countMoved c.record.value := by
    rw [checkQuoteCount, Counter.check_transient]
    · exact value_setCount c
    · exact hmsg
  cases hty : msg.type
  case quote => exact hcounted fun _ => rfl
  case update | trade => exact hcounted fun s => (update_rest cfg s _).1
  case initial | recap | preopening | snapshot => exact hchecked
  all_goals simp [hty, handles] at htype

def handling (cfg : Settings) : Handling QuoteListenerCache QuoteCall Field.kind where
  newCache := QuoteListenerCache.new
  clearCache := QuoteListenerCache.clearCache
  handles := handles
  prepare _ c := c
  handle := handleByType cfg

theorem step_eq (hresolve : cfg.resolvePossiblyDuplicate = false) : step cfg = (handling cfg).step cfg := by
  funext s msg
  have heval := evaluateMsgQual_eq hresolve msg (Msg.get? Field.quoteSeqNum msg.fields)
    (Msg.get? Field.quoteTime msg.fields) (s.regularCache.record.value .eventSeqNum)
    (s.regularCache.record.value .eventTime)
  rw [step, onMsg, Handling.step]
  refine (apply_ite Prod.fst _ _ _).trans ?_
  congr 1
  rw [handleQuoteMessage, heval]
  rfl

theorem handling_shows (cfg : Settings) : (handling cfg).Shows (fun c => c.record.value) given where
  clear_clear := QuoteListenerCache.clearCache_clearCache _
  value_prepare _ _ := rfl
  transientCache msg s := transientCache_handleByType cfg s msg
  congr _ _ _ hvalue hmsg := handleByType_congr hvalue hmsg
  value_given msg s earlier hmsg htype hcache := by
    have hblank : recordOf s = blank earlier := by
      rw [recordOf, hcache]
      cases earlier with
      | false => rfl
      | true =>
        funext slot
        cases slot <;> rfl
    refine (handleByType_transient hmsg htype).trans ?_
    rw [hblank]
    rfl

end Quote

/-- With and without the transient messages the listeners have the same record, all along, exactly when every transient
message of a handled type repeats the record that the other messages made: the last value it carries for a slot, or else
the blank one, is the value of the record. -/
theorem transient_leavesAlone_iff (cfg : Settings) (hprocess : cfg.processPosDupAndOutOfSeqAsTransient = true)
    (hresolve : cfg.resolvePossiblyDuplicate = false) (trades : List Trade.TradeMsg)
    (quotes : List Quote.QuoteMsg) :
    (LeavesAlone (Trade.step cfg) Trade.recordOf Trade.new trades ↔
        AllRepeat (Trade.step cfg) Trade.recordOf (Trade.handles cfg) Trade.given Trade.new trades) ∧
      (LeavesAlone (Quote.step cfg) Quote.recordOf Quote.new quotes ↔
        AllRepeat (Quote.step cfg) Quote.recordOf Quote.handles Quote.given Quote.new quotes) := by
  rw [Trade.step_eq hresolve, Quote.step_eq hresolve]
  exact ⟨Handling.leavesAlone_iff (Trade.handling_shows cfg) hprocess rfl trades,
    Handling.leavesAlone_iff (Quote.handling_shows cfg) hprocess rfl quotes⟩

def sampleTrade (msgQual : Option MsgQual) : Trade.TradeMsg where
  type := .trade
  msgQual := msgQual
  fields := [⟨.tradePrice, (10 : Rat)⟩, ⟨.lastDirection, (99 : Nat)⟩, ⟨.stopStockInd, ' '⟩,
    ⟨.origStopStockInd, ' '⟩, ⟨.corrStopStockInd, ' '⟩, ⟨.shortSaleCircuitBreaker, ' '⟩,
    ⟨.origShortSaleCircuitBreaker, ' '⟩, ⟨.corrShortSaleCircuitBreaker, ' '⟩]

def sampleQuote (msgQual : Option MsgQual) : Quote.QuoteMsg where
  type := .quote
  msgQual := msgQual
  fields := [⟨.bidPrice, (10 : Rat)⟩, ⟨.shortSaleBidTick, 'Z'⟩, ⟨.shortSaleCircuitBreaker, ' '⟩]

theorem second_of_pair {α : Type} {p : α → Bool} {a b c : α} {before after : List α} (ha : p a = false)
    (hsplit : [a, b] = before ++ c :: after) (hc : p c) : before = [a] ∧ c = b := by
  rcases before with _ | ⟨x, _ | ⟨y, before⟩⟩
  · obtain ⟨rfl, -⟩ := List.cons.inj hsplit
    rw [ha] at hc
    cases hc
  · obtain ⟨rfl, hrest⟩ := List.cons.inj hsplit
    exact ⟨rfl, (List.cons.inj hrest).1.symm⟩
  · simp at hsplit

theorem possible_duplicate_leavesAlone :
    LeavesAlone (Trade.step { processPosDupAndOutOfSeqAsTransient := true }) Trade.recordOf Trade.new
        [sampleTrade none, sampleTrade (some ⟨1#16⟩)] ∧
      LeavesAlone (Quote.step { processPosDupAndOutOfSeqAsTransient := true }) Quote.recordOf Quote.new
        [sampleQuote none, sampleQuote (some ⟨1#16⟩)] := by
  obtain ⟨htrade, hquote⟩ := transient_leavesAlone_iff { processPosDupAndOutOfSeqAsTransient := true } rfl rfl
    [sampleTrade none, sampleTrade (some ⟨1#16⟩)] [sampleQuote none, sampleQuote (some ⟨1#16⟩)]
  refine ⟨htrade.mpr ?_, hquote.mpr ?_⟩
  · intro before msg after hsplit hmsg
    obtain ⟨rfl, rfl⟩ := second_of_pair (by rfl) hsplit hmsg
    funext slot
    cases slot <;> decide +kernel
  · intro before msg after hsplit hmsg
    obtain ⟨rfl, rfl⟩ := second_of_pair (by rfl) hsplit hmsg
    funext slot
    cases slot <;> decide +kernel

theorem out_of_sequence_overwrites_record :
    ¬ LeavesAlone (Trade.step { processPosDupAndOutOfSeqAsTransient := true }) Trade.recordOf Trade.new
        [sampleTrade none, { type := .trade, msgQual := some ⟨16#16⟩ }] ∧
      ¬ LeavesAlone (Quote.step { processPosDupAndOutOfSeqAsTransient := true }) Quote.recordOf Quote.new
        [sampleQuote none, { type := .quote, msgQual := some ⟨16#16⟩ }] := by
  constructor
  · intro h
    have hprice : (0 : Rat) = 10 := congrFun (h 2) .lastPrice
    cases hprice
  · intro h
    have hprice : (0 : Rat) = 10 := congrFun (h 2) .bidPrice
    cases hprice

end OpenMama.TradeQuote
