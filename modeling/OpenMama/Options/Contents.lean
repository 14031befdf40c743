import OpenMama.Options.Index
import OpenMama.Options.Listener
import Mathlib.Data.List.Induction

/-!
# The contents of a chain

`received` is what the messages told about a symbol; `recorded` is what its contract knows, which is less when a field
comes after the mandatory ones were complete. The sets and the index hold all contracts exactly when no two have the
same key. `faithful_iff` puts together what can go wrong.
-/

namespace OpenMama.Options

open Option Function Contract Chain Listener

/-! ### What messages tell -/

structure Known where
  expireDate : Bool := false
  strikePrice : Bool := false
  putCall : Bool := false
deriving DecidableEq

open Known

def Known.union (k k' : Known) : Known where
  expireDate := k.expireDate || k'.expireDate
  strikePrice := k.strikePrice || k'.strikePrice
  putCall := k.putCall || k'.putCall

def Known.all (k : Known) : Bool := k.expireDate && k.strikePrice && k.putCall

def OptionMsg.carried (msg : OptionMsg) : Known where
  expireDate := msg.expireDate.isSome
  strikePrice := msg.strikePrice.isSome
  putCall := msg.putCall.isSome

def Settings.complete (cfg : Settings) (k : Known) : Bool :=
  (!cfg.expireDateManditory || k.expireDate) && (!cfg.strikePriceManditory || k.strikePrice) &&
    (!cfg.putCallManditory || k.putCall)

theorem Settings.gotAllMandFields_eq (cfg : Settings) (date strike putCall : Bool) :
    cfg.gotAllMandFields date strike putCall = cfg.complete ⟨date, strike, putCall⟩ := by
  obtain ⟨md, ms, mp⟩ := cfg
  revert md ms mp date strike putCall
  decide

theorem Settings.complete_union {cfg : Settings} {k : Known} (h : cfg.complete k) (k' : Known) :
    cfg.complete (k.union k') := by
  simp only [complete, union, Bool.and_eq_true, Bool.or_eq_true] at h ⊢
  grind

theorem Settings.complete_of_all (cfg : Settings) {k : Known} (h : k.all) : cfg.complete k := by
  simp only [all, Bool.and_eq_true] at h
  simp [complete, h]

def receive (sym : String) (k : Option Known) (msg : OptionMsg) : Option Known :=
  if msg.contractSymbol = some sym then some ((k.getD {}).union msg.carried) else k

/-- What the messages told of a contract. -/
def received (sym : String) (msgs : List OptionMsg) : Option Known := msgs.foldl (receive sym) none

def record (cfg : Settings) (sym : String) (k : Option Known) (msg : OptionMsg) : Option Known :=
  if k.any cfg.complete then k else receive sym k msg

/-- What the listener took of it: nothing more once it was complete. -/
def recorded (cfg : Settings) (sym : String) (msgs : List OptionMsg) : Option Known :=
  msgs.foldl (record cfg sym) none

def Partly (cfg : Settings) (rec rcv : Option Known) : Prop :=
  rec = rcv ∨ ∃ k k', rec = some k ∧ rcv = some (k.union k') ∧ cfg.complete k = true

theorem Known.union_assoc (k k' k'' : Known) : (k.union k').union k'' = k.union (k'.union k'') := by
  simp [union, Bool.or_assoc]

theorem Known.union_empty (k : Known) : k.union {} = k := by simp [union]

theorem Partly.step {cfg : Settings} {rec rcv : Option Known} (h : Partly cfg rec rcv) (sym : String)
    (msg : OptionMsg) : Partly cfg (record cfg sym rec msg) (receive sym rcv msg) := by
  unfold record
  rcases h with rfl | ⟨k, k', rfl, rfl, hcomplete⟩
  · split
    next hany =>
      cases rec with
      | none => cases hany
      | some k =>
        refine .inr ⟨k, if msg.contractSymbol = some sym then msg.carried else {}, rfl, ?_, hany⟩
        unfold receive
        split
        · rfl
        · rw [union_empty]
    · exact .inl rfl
  · rw [if_pos (by simpa using hcomplete)]
    refine .inr ⟨k, k'.union (if msg.contractSymbol = some sym then msg.carried else {}), rfl, ?_, hcomplete⟩
    unfold receive
    split
    · rw [← union_assoc]
      rfl
    · rw [union_empty]

theorem partly_recorded (cfg : Settings) (sym : String) (msgs : List OptionMsg) :
    Partly cfg (recorded cfg sym msgs) (received sym msgs) := by
  induction msgs using List.reverseRecOn with
  | nil => exact .inl rfl
  | append_singleton _ msg ih =>
    rw [recorded, received, List.foldl_append, List.foldl_append]
    exact ih.step sym msg

structure Details where
  expireDate : ExpireDate
  strikePrice : Rat
  putCall : PutCall
deriving DecidableEq

def OptionMsg.Carries (details : String → Details) (msg : OptionMsg) : Prop :=
  ∀ sym, msg.contractSymbol = some sym →
    (∀ date ∈ msg.expireDate, date = (details sym).expireDate) ∧
    (∀ price ∈ msg.strikePrice, price = (details sym).strikePrice) ∧
    ∀ field ∈ msg.putCall, field.putCall = (details sym).putCall

def contractOf (cfg : Settings) (details : String → Details) (sym : String) (k : Known) : Contract :=
  { new (getSymbolAndExchange sym).1 (getSymbolAndExchange sym).2 with
    expireDate := if k.expireDate then some (details sym).expireDate else none
    strikePrice := if k.strikePrice then some (details sym).strikePrice else none
    putCall := if k.putCall then some (details sym).putCall else none
    recapRequired := !cfg.complete k }

def exchangeOf (sym : String) : String := (new "" (getSymbolAndExchange sym).2).exchange

section

variable {cfg : Settings} {details : String → Details} {sym : String} {msg : OptionMsg} {k : Known}

theorem orElse_ite {α : Type} {a : α} {o : Option α} (h : ∀ x ∈ o, x = a) (b : Bool) :
    ((if b then some a else none) <|> o) = if b || o.isSome then some a else none := by
  cases b with
  | true => rfl
  | false =>
    cases o with
    | none => rfl
    | some x => simp [h x rfl]

theorem fill_contractOf (hmsg : msg.Carries details) (hsym : msg.contractSymbol = some sym) :
    { (contractOf cfg details sym k).fill msg with recapRequired := !cfg.complete (k.union msg.carried) } =
      contractOf cfg details sym (k.union msg.carried) := by
  obtain ⟨hdate, hprice, hputCall⟩ := hmsg sym hsym
  have hputCall' : ∀ x ∈ msg.putCall.map PutCallField.putCall, x = (details sym).putCall := by
    intro x hx
    obtain ⟨field, hfield, rfl⟩ := mem_map.mp hx
    exact hputCall field hfield
  simp only [contractOf, fill, orElse_ite hdate, orElse_ite hprice, orElse_ite hputCall', union,
    OptionMsg.carried, isSome_map]
  rfl

theorem isComplete_contractOf (cfg' : Settings) : (contractOf cfg details sym k).isComplete cfg' = cfg'.complete k := by
  rw [isComplete, Settings.gotAllMandFields_eq]
  obtain ⟨date, strike, putCall⟩ := k
  cases date <;> cases strike <;> cases putCall <;> rfl

theorem contractOf_complete (h : cfg.complete k) :
    (contractOf cfg details sym k).recapRequired = false := by simp [contractOf, h]

end

def Chain.options {R : Type} (ch : Chain R) : PutCall → List R
  | .call => ch.callOptions
  | .put => ch.putOptions
  | .unknown => []

def Offered (cfg : Settings) (details : String → Details) (rec : String → Option Known) (side : PutCall)
    (sym : String) : Prop :=
  ∃ k, rec sym = some k ∧ cfg.complete k = true ∧ k.putCall = true ∧ (details sym).putCall = side

def Filed (rec : String → Option Known) (sym : String) : Prop := ∃ k, rec sym = some k ∧ k.all = true

def place (details : String → Details) (sym : String) : ExpireDate × Rat × PutCall × String :=
  ((details sym).expireDate, (details sym).strikePrice, (details sym).putCall, slot (exchangeOf sym))

/-- The chain holds the contracts that the messages told of. -/
structure Agrees (cfg : Settings) (details : String → Details) (rec : String → Option Known) (s : Listener) : Prop where
  contracts : ∀ sym, sym ∈ s.contracts ↔ (rec sym).isSome
  contract : ∀ sym k, rec sym = some k → s.chain.contract sym = contractOf cfg details sym k
  owned : s.chain.Owned
  sorted : ∀ side, side ≠ .unknown → (s.chain.options side).Pairwise fun sym sym' =>
    contractLessThan (s.chain.contract sym) (s.chain.contract sym') = true
  options : ∀ side, side ≠ .unknown →
    Covers (Offered cfg details rec side) (fun sym => (s.chain.contract sym).key) (· ∈ s.chain.options side)
  sound : ∀ date price side exchange sym, s.chain.contractAt date price side exchange = some sym →
    Filed rec sym ∧ place details sym = (date, price, side, slot exchange)
  covered : ∀ sym, Filed rec sym → ∃ sym', s.chain.contractAt (details sym).expireDate
    (details sym).strikePrice (details sym).putCall (exchangeOf sym) = some sym'
  known : ∀ sym, Filed rec sym → (details sym).putCall ≠ .unknown

section

variable {cfg : Settings} {details : String → Details} {rec : String → Option Known} {s : Listener}
  {sym : String} {msg : OptionMsg}

theorem onMsg_of_complete (h : Agrees cfg details rec s) (hsym : msg.contractSymbol = some sym)
    (hcomplete : (rec sym).any cfg.complete) : s.onMsg cfg msg = some s := by
  cases hrec : rec sym with
  | none => simp [hrec] at hcomplete
  | some k =>
    rw [hrec] at hcomplete
    have hmem : sym ∈ s.contracts := (h.contracts sym).mpr (by simp [hrec])
    simp [onMsg, hsym, hmem, completeContract, h.contract sym k hrec, contractOf_complete hcomplete]

theorem isComplete_fill {k : Known} (hmsg : msg.Carries details) (hsym : msg.contractSymbol = some sym) :
    ((contractOf cfg details sym k).fill msg).isComplete cfg = cfg.complete (k.union msg.carried) := by
  have hcomplete : (contractOf cfg details sym (k.union msg.carried)).isComplete cfg =
      cfg.complete (k.union msg.carried) := isComplete_contractOf cfg
  rw [← hcomplete, ← fill_contractOf hmsg hsym]
  rfl

theorem onMsg_of_incomplete (h : Agrees cfg details rec s) (hmsg : msg.Carries details)
    (hsym : msg.contractSymbol = some sym) (hincomplete : (rec sym).any cfg.complete = false) :
    s.onMsg cfg msg =
      ((s.setContract sym
        (contractOf cfg details sym (((rec sym).getD {}).union msg.carried))).chain.processNewContractDetails
          sym).map fun chain =>
            { contracts := if sym ∈ s.contracts then s.contracts else s.contracts ++ [sym], chain := chain } := by
  cases hrec : rec sym with
  | none =>
    have hmem : sym ∉ s.contracts := fun hmem => by simpa [hrec] using (h.contracts sym).mp hmem
    have hnew : (new (getSymbolAndExchange sym).1 (getSymbolAndExchange sym).2).fill msg =
        { (contractOf cfg details sym {}).fill msg with recapRequired := false } := rfl
    have hcomplete : ((new (getSymbolAndExchange sym).1
        (getSymbolAndExchange sym).2).fill msg).isComplete cfg =
          cfg.complete (({} : Known).union msg.carried) := by
      rw [← isComplete_fill hmsg hsym]
      rfl
    simp only [onMsg, hsym, hmem, if_false, createContract, hcomplete, getD_none]
    rw [hnew, ← fill_contractOf hmsg hsym]
  | some k =>
    rw [hrec, any_some] at hincomplete
    have hmem : sym ∈ s.contracts := (h.contracts sym).mpr (by simp [hrec])
    have hrecap : (contractOf cfg details sym k).recapRequired := by simp [contractOf, hincomplete]
    simp only [onMsg, hsym, hmem, if_true, completeContract, h.contract sym k hrec, hrecap,
      isComplete_fill hmsg hsym, getD_some]
    rw [← fill_contractOf hmsg hsym]
    cases hcomplete : cfg.complete (k.union msg.carried) with
    | true => rfl
    | false =>
      have hfill : ((contractOf cfg details sym k).fill msg).recapRequired := hrecap
      simp [processNewContractDetails, setContract, ← hfill]

/-! ### One message -/

variable {k : Known} {side : PutCall}

section

variable (hincomplete : (rec sym).any cfg.complete = false)
include hincomplete

theorem not_offered : ¬ Offered cfg details rec side sym := by
  rintro ⟨k, hk, hcomplete, -⟩
  simp [hk, hcomplete] at hincomplete

theorem not_filed : ¬ Filed rec sym := by
  rintro ⟨k, hk, hall⟩
  simp [hk, cfg.complete_of_all hall] at hincomplete

theorem offered_update (b : String) :
    Offered cfg details (update rec sym (some k)) side b ↔
      Offered cfg details rec side b ∨
        b = sym ∧ cfg.complete k ∧ k.putCall ∧ (details sym).putCall = side := by
  by_cases hb : b = sym
  · subst hb
    rw [or_iff_right (not_offered hincomplete)]
    simp [Offered]
  · simp [Offered, hb]

theorem filed_update (b : String) : Filed (update rec sym (some k)) b ↔ Filed rec b ∨ b = sym ∧ k.all := by
  by_cases hb : b = sym
  · subst hb
    rw [or_iff_right (not_filed hincomplete)]
    simp [Filed]
  · simp [Filed, hb]

end

theorem options_processed {ch ch' : Chain String} (h : Chain.Processed sym ch ch') (hside : side ≠ .unknown) :
    ch'.options side = if (ch.contract sym).putCall = some side then
      SortedSet.insert (fun r₁ r₂ => contractLessThan (ch.contract r₁) (ch.contract r₂)) sym (ch.options side)
      else ch.options side := by
  cases side with
  | call => exact h.callOptions
  | put => exact h.putOptions
  | unknown => exact absurd rfl hside

theorem Agrees.setContract (h : Agrees cfg details rec s) (hincomplete : (rec sym).any cfg.complete = false)
    (c : Contract) (hside : side ≠ .unknown) :
    (s.chain.options side).Pairwise (fun b b' =>
      contractLessThan (update s.chain.contract sym c b) (update s.chain.contract sym c b') =
        true) ∧
      Covers (Offered cfg details rec side) (fun b => (update s.chain.contract sym c b).key)
        (· ∈ s.chain.options side) := by
  have hsame : ∀ b, Offered cfg details rec side b → update s.chain.contract sym c b = s.chain.contract b := by
    intro b hb
    refine update_of_ne ?_ _ _
    rintro rfl
    exact not_offered hincomplete hb
  constructor
  · refine (h.sorted side hside).imp_of_mem fun hb hb' hless => ?_
    rwa [hsame _ ((h.options side hside).sound _ hb), hsame _ ((h.options side hside).sound _ hb')]
  · exact (h.options side hside).congr fun b hb => by rw [hsame b hb]

theorem contractOf_expireDate {d : ExpireDate} : (contractOf cfg details sym k).expireDate = some d ↔
    k.expireDate ∧ (details sym).expireDate = d := by
  simp [contractOf]

theorem contractOf_strikePrice {p : Rat} : (contractOf cfg details sym k).strikePrice = some p ↔
    k.strikePrice ∧ (details sym).strikePrice = p := by
  simp [contractOf]

theorem contractOf_putCall : (contractOf cfg details sym k).putCall = some side ↔
    k.putCall ∧ (details sym).putCall = side := by
  simp [contractOf]

structure Taken (cfg : Settings) (details : String → Details) (sym : String) (k : Known) (ch ch' : Chain String) :
    Prop where
  contract : ch'.contract = update ch.contract sym (contractOf cfg details sym k)
  owned : ch'.Owned
  options : ∀ side, side ≠ .unknown → ch'.options side =
    if cfg.complete k = true ∧ k.putCall = true ∧ (details sym).putCall = side then
      SortedSet.insert (fun b b' => contractLessThan (ch'.contract b) (ch'.contract b')) sym (ch.options side)
    else ch.options side
  contractAt : ∀ d p side exchange, ch'.contractAt d p side exchange =
    if k.all = true ∧ place details sym = (d, p, side, slot exchange) then some sym
    else ch.contractAt d p side exchange
  known : k.all = true → (details sym).putCall ≠ .unknown

theorem taken_of_incomplete (howned : s.chain.Owned) (hk : cfg.complete k = false) :
    Taken cfg details sym k s.chain (s.setContract sym (contractOf cfg details sym k)).chain := by
  have hall : ¬ k.all := fun hall => by simp [cfg.complete_of_all hall] at hk
  refine ⟨rfl, { howned with }, fun side _ => ?_, fun d p side exchange => ?_, fun h => absurd h hall⟩
  · rw [if_neg (by simp [hk])]
    cases side <;> rfl
  · rw [if_neg fun h => hall h.1]
    rfl

theorem taken_of_processed {ch : Chain String}
    (hch : Chain.Processed sym (s.setContract sym (contractOf cfg details sym k)).chain ch)
    (hk : cfg.complete k) (hknown : k.all → (details sym).putCall ≠ .unknown) :
    Taken cfg details sym k s.chain ch := by
  have hself : (s.setContract sym (contractOf cfg details sym k)).chain.contract sym =
      contractOf cfg details sym k := update_self ..
  refine ⟨hch.contract, hch.owned, fun side hside => ?_, fun d p side exchange => ?_, hknown⟩
  · rw [options_processed hch hside, hself, hch.contract]
    simp only [contractOf_putCall, hk, true_and]
    cases side <;> rfl
  · have hiff : ((contractOf cfg details sym k).expireDate = some d ∧
        (contractOf cfg details sym k).strikePrice = some p ∧ (contractOf cfg details sym k).putCall = some side ∧
          slot exchange = slot (contractOf cfg details sym k).exchange) ↔
        k.all ∧ place details sym = (d, p, side, slot exchange) := by
      have hexchange : (contractOf cfg details sym k).exchange = exchangeOf sym := rfl
      rw [contractOf_expireDate, contractOf_strikePrice, contractOf_putCall, place, all]
      grind
    rw [hch.contractAt, hself, if_congr hiff rfl rfl]
    rfl

theorem Agrees.take (h : Agrees cfg details rec s) (hincomplete : (rec sym).any cfg.complete = false)
    {contracts : List String} (hcontracts : ∀ b, b ∈ contracts ↔ b ∈ s.contracts ∨ b = sym) {ch : Chain String}
    (hch : Taken cfg details sym k s.chain ch) :
    Agrees cfg details (update rec sym (some k)) { contracts := contracts, chain := ch } := by
  refine ⟨fun b => ?_, fun b k' hk' => ?_, hch.owned, fun side hside => ?_, fun side hside => ?_,
    fun d p side exchange b hb => ?_, fun b hb => ?_, fun b hb => ?_⟩
  · rw [hcontracts, h.contracts]
    by_cases hb : b = sym <;> simp [hb]
  · rw [hch.contract]
    by_cases hb : b = sym
    · subst hb
      simp only [update_self, Option.some.injEq] at hk'
      simp [hk']
    · rw [update_of_ne hb] at hk'
      simp [hb, h.contract b k' hk']
  · obtain ⟨hsorted, -⟩ := h.setContract hincomplete (contractOf cfg details sym k) hside
    simp only [hch.options side hside, hch.contract]
    split
    · exact SortedSet.pairwise_insert (fun _ _ => contractLessThan_iff _ _) hsorted
    · exact hsorted
  · obtain ⟨hsorted, hcovers⟩ := h.setContract hincomplete (contractOf cfg details sym k) hside
    simp only [hch.options side hside, hch.contract]
    rw [show Offered cfg details (update rec sym (some k)) side = _ from
      funext fun b => propext (offered_update hincomplete b)]
    by_cases hin : cfg.complete k ∧ k.putCall ∧ (details sym).putCall = side
    · simp only [hin, and_true]
      exact hcovers.insert (fun _ _ => contractLessThan_iff _ _) hsorted sym
    · simp only [hin, and_false, or_false]
      exact hcovers
  · rw [hch.contractAt] at hb
    split at hb
    next hcond =>
      obtain rfl := Option.some.inj hb
      exact ⟨(filed_update hincomplete _).mpr (.inr ⟨rfl, hcond.1⟩), hcond.2⟩
    · obtain ⟨hfiled, hplace⟩ := h.sound d p side exchange b hb
      exact ⟨(filed_update hincomplete b).mpr (.inl hfiled), hplace⟩
  · simp only [hch.contractAt]
    split
    · exact ⟨sym, rfl⟩
    next hcond =>
      rcases (filed_update hincomplete b).mp hb with hb | ⟨rfl, hall⟩
      · exact h.covered b hb
      · exact absurd ⟨hall, rfl⟩ hcond
  · rcases (filed_update hincomplete b).mp hb with hb | ⟨rfl, hall⟩
    · exact h.known b hb
    · exact hch.known hall

theorem Agrees.step (h : Agrees cfg details rec s) (hmsg : msg.Carries details) :
    (∃ s', s.onMsg cfg msg = some s' ∧ Agrees cfg details (fun b => record cfg b (rec b) msg) s') ∨
      s.onMsg cfg msg = none ∧
        ∃ b, Filed (fun b => record cfg b (rec b) msg) b ∧ (details b).putCall = .unknown := by
  cases hsym : msg.contractSymbol with
  | none =>
    have hsame : (fun b => record cfg b (rec b) msg) = rec := by
      simp [record, receive, hsym]
    rw [hsame]
    exact .inl ⟨s, by simp [onMsg, hsym], h⟩
  | some sym =>
    cases hcomplete : (rec sym).any cfg.complete with
    | true =>
      have hsame : (fun b => record cfg b (rec b) msg) = rec := by
        funext b
        by_cases hb : sym = b
        · subst hb
          simp [record, hcomplete]
        · simp [record, receive, hsym, hb]
      rw [hsame]
      exact .inl ⟨s, onMsg_of_complete h hsym hcomplete, h⟩
    | false =>
      obtain ⟨k, hk⟩ : ∃ k, k = ((rec sym).getD {}).union msg.carried := ⟨_, rfl⟩
      have hrec : (fun b => record cfg b (rec b) msg) = update rec sym (some k) := by
        funext b
        by_cases hb : sym = b
        · subst hb
          simp [record, receive, hsym, hcomplete, hk]
        · simp [record, receive, hsym, hb, update_of_ne (Ne.symm hb)]
      have hcontracts : ∀ b, b ∈ (if sym ∈ s.contracts then s.contracts else s.contracts ++ [sym]) ↔
          b ∈ s.contracts ∨ b = sym := by
        intro b
        split
        next hmem => exact ⟨.inl, fun hor => hor.elim id fun heq => heq ▸ hmem⟩
        · simp
      rw [hrec, onMsg_of_incomplete h hmsg hsym hcomplete, ← hk]
      cases hnow : cfg.complete k with
      | false =>
        refine .inl ⟨_, ?_, h.take hcomplete hcontracts (taken_of_incomplete h.owned hnow)⟩
        simp [processNewContractDetails, Listener.setContract, contractOf, hnow]
      | true =>
        have howned : (s.setContract sym (contractOf cfg details sym k)).chain.Owned := { h.owned with }
        have hself : (s.setContract sym (contractOf cfg details sym k)).chain.contract sym =
            contractOf cfg details sym k := update_self ..
        have hspec := processNewContractDetails_spec howned (r := sym) (by rw [hself, contractOf_complete hnow])
        rw [hself] at hspec
        rcases hspec with ⟨hnone, hdate, hprice, hputCall⟩ | ⟨hknown, _, hch, hprocessed⟩
        · rw [hnone]
          have hall : k.all := by
            simp only [contractOf, isSome_ite] at hdate hprice
            simp [all, hdate, hprice, (contractOf_putCall.mp hputCall).1]
          exact .inr ⟨rfl, sym, (filed_update hcomplete sym).mpr (.inr ⟨rfl, hall⟩), (contractOf_putCall.mp hputCall).2⟩
        · rw [hch]
          refine .inl ⟨_, rfl, h.take hcomplete hcontracts (taken_of_processed hprocessed hnow fun hall hunknown => ?_)⟩
          simp only [all, Bool.and_eq_true] at hall
          refine hknown ?_ ?_ (contractOf_putCall.mpr ⟨hall.2, hunknown⟩)
          · simp [contractOf, hall.1.1]
          · simp [contractOf, hall.1.2]

end

/-! ### Whole runs -/

section

variable {cfg : Settings} {details : String → Details} {msgs : List OptionMsg} {sym : String}

theorem Filed.record {rec : String → Option Known} (h : Filed rec sym) (cfg : Settings) (msg : OptionMsg) :
    Filed (fun b => Options.record cfg b (rec b) msg) sym := by
  obtain ⟨k, hk, hall⟩ := h
  exact ⟨k, by simp [Options.record, hk, cfg.complete_of_all hall], hall⟩

theorem owned_init : init.chain.Owned := by constructor <;> simp [init, strikeSetRef]

theorem run_agrees (cfg : Settings) (hmsgs : ∀ msg ∈ msgs, msg.Carries details) :
    (∃ s, run cfg msgs = some s ∧ Agrees cfg details (fun b => recorded cfg b msgs) s) ∨
      run cfg msgs = none ∧
        ∃ b, Filed (fun b => recorded cfg b msgs) b ∧ (details b).putCall = .unknown := by
  induction msgs using List.reverseRecOn with
  | nil =>
    refine .inl ⟨init, rfl, fun b => ?_, fun b k hk => ?_, owned_init, fun side _ => ?_,
      fun side _ => ?_, fun d p side exchange b hb => ?_, fun b hb => ?_, fun b hb => ?_⟩
    · simp [init, recorded]
    · cases hk
    · cases side <;> exact .nil
    · refine ⟨fun b hb => ?_, fun b hb => ?_, fun b _ hb => ?_⟩
      · cases side <;> cases hb
      · obtain ⟨k, ⟨⟩, -⟩ := hb
      · cases side <;> cases hb
    · simp [contractAt, init, strikeSetRef] at hb
    · obtain ⟨k, ⟨⟩, -⟩ := hb
    · obtain ⟨k, ⟨⟩, -⟩ := hb
  | append_singleton msgs msg ih =>
    obtain ⟨hold, hmsg⟩ : (∀ msg ∈ msgs, msg.Carries details) ∧ msg.Carries details := by
      simpa [or_imp, forall_and] using hmsgs
    have hrun : run cfg (msgs ++ [msg]) = (run cfg msgs).bind (onMsg cfg · msg) := by
      simp [run, List.foldlM_append]
    have hrec : (fun b => recorded cfg b (msgs ++ [msg])) = fun b => record cfg b (recorded cfg b msgs) msg := by
      funext b
      rw [recorded, List.foldl_append]
      rfl
    rw [hrun, hrec]
    rcases ih hold with ⟨s, hs, hagrees⟩ | ⟨hnone, b, hfiled, hunknown⟩
    · rw [hs]
      exact hagrees.step hmsg
    · rw [hnone]
      exact .inr ⟨rfl, b, hfiled.record cfg msg, hunknown⟩

/-- The messages told enough of the contract to list it on the side. -/
def Due (cfg : Settings) (details : String → Details) (msgs : List OptionMsg) (side : PutCall) (sym : String) : Prop :=
  ∃ k, received sym msgs = some k ∧ cfg.complete k = true ∧ k.putCall = true ∧ (details sym).putCall = side

/-- The contracts that are due are in the chain once, in order, and are found. -/
structure Faithful (cfg : Settings) (details : String → Details) (msgs : List OptionMsg) (s : Listener) : Prop where
  once : ∀ side, side ≠ .unknown → ∀ sym, Due cfg details msgs side sym →
    (s.chain.options side).count sym = 1
  never : ∀ side, side ≠ .unknown → ∀ sym, ¬ Due cfg details msgs side sym → sym ∉ s.chain.options side
  ordered : ∀ side, side ≠ .unknown → (s.chain.options side).Pairwise fun sym sym' =>
    contractLessThan (s.chain.contract sym) (s.chain.contract sym') = true
  found : ∀ sym k, received sym msgs = some k → k.all = true → (details sym).putCall ≠ .unknown →
    s.chain.contractAt (details sym).expireDate (details sym).strikePrice (details sym).putCall
      (exchangeOf sym) = some sym

/-- No field comes too late, no code of a put or call is unknown, and no two contracts share a key or a
place. -/
structure Regular (cfg : Settings) (details : String → Details) (msgs : List OptionMsg) : Prop where
  known : ∀ sym, Filed (fun b => recorded cfg b msgs) sym → (details sym).putCall ≠ .unknown
  putCalls : ∀ side, side ≠ .unknown → ∀ sym, Due cfg details msgs side sym →
    Offered cfg details (fun b => recorded cfg b msgs) side sym
  fields : ∀ sym k, received sym msgs = some k → k.all = true → (details sym).putCall ≠ .unknown →
    Filed (fun b => recorded cfg b msgs) sym
  keys : ∀ side, side ≠ .unknown → ∀ a b, Offered cfg details (fun b => recorded cfg b msgs) side a →
    Offered cfg details (fun b => recorded cfg b msgs) side b →
    (contractOf cfg details a ((recorded cfg a msgs).getD {})).key =
      (contractOf cfg details b ((recorded cfg b msgs).getD {})).key → a = b
  places : ∀ a b, Filed (fun b => recorded cfg b msgs) a → Filed (fun b => recorded cfg b msgs) b →
    place details a = place details b → a = b

theorem received_of_recorded {k : Known} (h : recorded cfg sym msgs = some k) :
    ∃ k', received sym msgs = some (k.union k') := by
  rcases partly_recorded cfg sym msgs with heq | ⟨k₀, k', hrec, hrcv, -⟩
  · exact ⟨{}, by rw [← heq, h, union_empty]⟩
  · obtain rfl : k₀ = k := Option.some.inj (hrec.symm.trans h)
    exact ⟨k', hrcv⟩

theorem Offered.due {side : PutCall} (h : Offered cfg details (fun b => recorded cfg b msgs) side sym) :
    Due cfg details msgs side sym := by
  obtain ⟨k, hk, hcomplete, hputCall, hside⟩ := h
  obtain ⟨k', hrcv⟩ := received_of_recorded hk
  exact ⟨_, hrcv, Settings.complete_union hcomplete k', by simp [union, hputCall], hside⟩

theorem Filed.received (h : Filed (fun b => recorded cfg b msgs) sym) :
    ∃ k, received sym msgs = some k ∧ k.all := by
  obtain ⟨k, hk, hall⟩ := h
  obtain ⟨_, hrcv⟩ := received_of_recorded hk
  simp only [all, Bool.and_eq_true] at hall
  exact ⟨_, hrcv, by simp [all, union, hall]⟩

theorem Agrees.key_eq {s : Listener} (h : Agrees cfg details (fun b => recorded cfg b msgs) s) {side : PutCall}
    (hsym : Offered cfg details (fun b => recorded cfg b msgs) side sym) :
    (s.chain.contract sym).key = (contractOf cfg details sym ((recorded cfg sym msgs).getD {})).key := by
  obtain ⟨k, hk, -⟩ := hsym
  have hk' : recorded cfg sym msgs = some k := hk
  rw [h.contract sym k hk, hk', getD_some]

/-- The chain is what the messages say exactly when they are regular. -/
theorem faithful_iff (cfg : Settings) (details : String → Details) (msgs : List OptionMsg)
    (hmsgs : ∀ msg ∈ msgs, msg.Carries details) :
    (∃ s, Listener.run cfg msgs = some s ∧ Faithful cfg details msgs s) ↔ Regular cfg details msgs := by
  constructor
  · rintro ⟨s, hs, hfaithful⟩
    rcases run_agrees cfg hmsgs with ⟨s', hs', h⟩ | ⟨hnone, -⟩
    · obtain rfl : s = s' := Option.some.inj (hs.symm.trans hs')
      have hmem : ∀ side, side ≠ .unknown → ∀ sym, Due cfg details msgs side sym → sym ∈ s.chain.options side :=
        fun side hside sym hdue => List.count_pos_iff.mp (by rw [hfaithful.once side hside sym hdue]; exact one_pos)
      refine ⟨h.known, fun side hside sym hdue => ?_, fun sym k hk hall hknown => ?_,
        fun side hside a b ha hb hkey => ?_, fun a b ha hb hplace => ?_⟩
      · exact (h.options side hside).sound sym (hmem side hside sym hdue)
      · exact (h.sound _ _ _ _ _ (hfaithful.found sym k hk hall hknown)).1
      · apply (h.options side hside).unique a b (hmem side hside a ha.due) (hmem side hside b hb.due)
        rw [h.key_eq ha, h.key_eq hb, hkey]
      · obtain ⟨k, hk, hall⟩ := ha.received
        obtain ⟨k', hk', hall'⟩ := hb.received
        have hfound := hfaithful.found a k hk hall (h.known a ha)
        have hfound' := hfaithful.found b k' hk' hall' (h.known b hb)
        simp only [place, Prod.mk.injEq] at hplace
        rw [hplace.1, hplace.2.1, hplace.2.2.1, contractAt_congr _ _ _ _ hplace.2.2.2, hfound'] at hfound
        exact (Option.some.inj hfound).symm
    · rw [hnone] at hs
      cases hs
  · intro hregular
    rcases run_agrees cfg hmsgs with ⟨s, hs, h⟩ | ⟨-, b, hfiled, hunknown⟩
    · refine ⟨s, hs, fun side hside sym hdue => ?_, fun side hside sym hdue hmem => ?_, h.sorted,
        fun sym k hk hall hknown => ?_⟩
      · have hnodup : (s.chain.options side).Nodup :=
          List.Nodup.of_map _ (SortedSet.nodup_of_pairwise
            (fun a b => contractLessThan_iff (s.chain.contract a) (s.chain.contract b)) (h.sorted side hside))
        refine List.count_eq_one_of_mem hnodup ((h.options side hside).all_iff.mpr ?_ sym
          (hregular.putCalls side hside sym hdue))
        intro a b ha hb hkey
        apply hregular.keys side hside a b ha hb
        rw [← h.key_eq ha, ← h.key_eq hb, hkey]
      · exact hdue ((h.options side hside).sound sym hmem).due
      · have hfiled := hregular.fields sym k hk hall hknown
        obtain ⟨sym', hsym'⟩ := h.covered sym hfiled
        obtain ⟨hfiled', hplace⟩ := h.sound _ _ _ _ _ hsym'
        rw [hsym', hregular.places sym' sym hfiled' hfiled hplace]
    · exact absurd hunknown (hregular.known b hfiled)

end

def callMsgs : List OptionMsg :=
  [{ contractSymbol := some "IBM.N", expireDate := some 100, strikePrice := some 50 },
    { contractSymbol := some "IBM.N", putCall := some (.text "C") }]

theorem received_callMsgs {sym : String} {k : Known} (h : received sym callMsgs = some k) : sym = "IBM.N" := by
  by_contra hne
  simp [received, callMsgs, receive, Ne.symm hne] at h

theorem faithful_callMsgs :
    ∃ s, Listener.run {} callMsgs = some s ∧ Faithful {} (fun _ => ⟨100, 50, .call⟩) callMsgs s := by
  have hfiled : ∀ {sym}, Filed (fun b => recorded {} b callMsgs) sym → sym = "IBM.N" := fun h =>
    have ⟨_, hk, _⟩ := h.received
    received_callMsgs hk
  have hoffered : ∀ {side sym}, Offered {} (fun _ => ⟨100, 50, .call⟩) (fun b => recorded {} b callMsgs) side sym →
      sym = "IBM.N" := fun h =>
    have ⟨_, hk, _⟩ := h.due
    received_callMsgs hk
  refine (faithful_iff {} (fun _ => ⟨100, 50, .call⟩) callMsgs ?_).mpr
    ⟨fun _ _ => nofun, fun side _ sym hdue => ?_, fun sym k hk _ _ => ?_,
      fun _ _ a b ha hb _ => (hoffered ha).trans (hoffered hb).symm,
      fun a b ha hb _ => (hfiled ha).trans (hfiled hb).symm⟩
  · have hcarried : ∀ msg ∈ callMsgs, (∀ date ∈ msg.expireDate, date = 100) ∧
        (∀ price ∈ msg.strikePrice, price = 50) ∧ ∀ field ∈ msg.putCall, field.putCall = .call := by
      decide +kernel
    exact fun msg hmsg _ _ => hcarried msg hmsg
  · obtain ⟨k, hk, -, -, hside⟩ := hdue
    obtain rfl := received_callMsgs hk
    exact ⟨⟨true, true, true⟩, by decide +kernel, by decide, by decide, hside⟩
  · obtain rfl := received_callMsgs hk
    exact ⟨⟨true, true, true⟩, by decide +kernel, by decide⟩

theorem unknown_putCall_uses_null :
    Listener.run {}
      [{ contractSymbol := some "IBM.N", expireDate := some 100, strikePrice := some 50,
         putCall := some (.text "X") }] = none ∧
    (Listener.run { putCallManditory := false } callMsgs).map (fun s => s.chain.callOptions) = some [] ∧
    (Listener.run {}
      [{ contractSymbol := some "IBM", expireDate := some 100, strikePrice := some 50,
         putCall := some (.number 2) },
       { contractSymbol := some "IBM.Z", expireDate := some 100, strikePrice := some 50,
         putCall := some (.number 2) }]).map (fun s => s.chain.contractAt 100 50 .call "") =
      some (some "IBM.Z") := by
  refine ⟨?_, by decide +kernel, by decide +kernel⟩
  exact isNone_iff_eq_none.mp (by decide +kernel)

end OpenMama.Options
