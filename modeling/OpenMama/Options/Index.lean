import OpenMama.Options.Chain
import Mathlib.Data.Prod.Lex

/-!
# What a contract adds to a chain

The order of the sets is the lexicographic one of date, strike, exchange and symbol (`contractLessThan_iff`). The
index is read through `contractAt`: as long as the chain owns the objects (`Owned`), adding a contract changes the
index at one place (`Indexed`).
-/

namespace OpenMama.Options

open Option Function ContractSet

def Contract.key (c : Contract) : ExpireDate ×ₗ Rat ×ₗ String ×ₗ String :=
  toLex (c.getExpireDate, toLex (c.getStrikePrice, toLex (c.exchange, c.symbol)))

theorem dateTime_compare (d d' : ExpireDate) :
    d.dateTime.compare d'.dateTime = if d < d' then -1 else if d = d' then 0 else 1 := by
  simp only [ExpireDate.dateTime, DateTime.compare, DateTime.equal, BEq.rfl, Bool.and_true, beq_iff_eq]
  rcases lt_trichotomy d d' with h | h | h
  · simp [h, h.not_gt, h.ne]
  · simp [h]
  · simp [h, h.not_gt, h.ne']

theorem strcmp_lt_zero {s t : String} : strcmp s t < 0 ↔ s < t := by
  unfold strcmp
  split
  · simp [*]
  · split <;> simp [*]

theorem strcmp_eq_zero {s t : String} : strcmp s t = 0 ↔ s = t := by
  unfold strcmp
  split
  next h => simp [h.ne]
  · split <;> simp [*]

theorem contractLessThan_iff (c₁ c₂ : Contract) : contractLessThan c₁ c₂ ↔ c₁.key < c₂.key := by
  simp only [contractLessThan, Contract.key, decide_eq_true_eq, Prod.Lex.toLex_lt_toLex, dateTime_compare]
  rcases lt_trichotomy c₁.getExpireDate c₂.getExpireDate with hdate | hdate | hdate
  · simp [hdate]
  · rcases lt_trichotomy c₁.getStrikePrice c₂.getStrikePrice with hstrike | hstrike | hstrike
    · simp [hdate, hstrike, hstrike.not_gt]
    · by_cases hexchange : c₁.exchange = c₂.exchange
      · simp [hdate, hstrike, hexchange, strcmp_eq_zero.mpr, strcmp_lt_zero]
      · have hne : strcmp c₁.exchange c₂.exchange ≠ 0 := fun h => hexchange (strcmp_eq_zero.mp h)
        simp [hdate, hstrike, hexchange, hne, strcmp_lt_zero]
    · simp [hdate, hstrike, hstrike.not_gt, hstrike.ne']
  · simp [hdate.not_gt, hdate.ne']

/-! ### The contracts of a strike -/

def slot (exchange : String) : String := if isBbo exchange then "" else exchange

theorem slot_eq_empty_iff {exchange : String} : slot exchange = "" ↔ isBbo exchange := by
  unfold slot
  split
  · simp [*]
  next h =>
    refine iff_of_false (fun heq => h ?_) h
    simp [isBbo, heq]

theorem getContract_setContract {R : Type} (exchange exchange' : String) (r : R) (s : ContractSet R) :
    (s.setContract exchange r).getContract exchange' =
      if slot exchange' = slot exchange then some r else s.getContract exchange' := by
  unfold setContract getContract
  by_cases hbbo : isBbo exchange
  · rw [if_pos hbbo, slot_eq_empty_iff.mpr hbbo]
    by_cases hbbo' : isBbo exchange'
    · rw [if_pos hbbo', if_pos (slot_eq_empty_iff.mpr hbbo')]
    · rw [if_neg hbbo', if_neg fun h => hbbo' (slot_eq_empty_iff.mp h), if_neg hbbo']
  · have hslot : slot exchange = exchange := if_neg hbbo
    rw [if_neg hbbo, hslot]
    by_cases hbbo' : isBbo exchange'
    · have hne : slot exchange' ≠ exchange := by
        rw [slot_eq_empty_iff.mpr hbbo']
        rintro rfl
        exact hbbo rfl
      rw [if_pos hbbo']
      split <;> rfl
    · have hslot' : slot exchange' = exchange' := if_neg hbbo'
      rw [if_neg hbbo', if_neg hbbo', hslot']
      by_cases hwombat : isWombatBbo exchange
      · obtain rfl : exchange = "WBBO" := by simpa [isWombatBbo] using hwombat
        by_cases hwombat' : isWombatBbo exchange'
        · obtain rfl : exchange' = "WBBO" := by simpa [isWombatBbo] using hwombat'
          simp [hwombat]
        · have hne : exchange' ≠ "WBBO" := by simpa [isWombatBbo] using hwombat'
          simp [hwombat, hwombat', hne]
      · by_cases hwombat' : isWombatBbo exchange'
        · have hne : exchange' ≠ exchange := fun heq => hwombat (heq ▸ hwombat')
          simp [hwombat, hwombat', hne]
        · simp [hwombat, hwombat']

theorem getContract_congr {R : Type} {exchange exchange' : String} (h : slot exchange = slot exchange')
    (s : ContractSet R) : s.getContract exchange = s.getContract exchange' := by
  unfold getContract
  by_cases hbbo : isBbo exchange
  · have hbbo' : isBbo exchange' := slot_eq_empty_iff.mp (h ▸ slot_eq_empty_iff.mpr hbbo)
    rw [if_pos hbbo, if_pos hbbo']
  · have hbbo' : isBbo exchange' ≠ true := fun hb => hbbo (slot_eq_empty_iff.mp (h ▸ slot_eq_empty_iff.mpr hb))
    rw [slot, slot, if_neg hbbo, if_neg hbbo'] at h
    rw [h]

theorem strikeSet_setContract {R : Type} {putCall : PutCall} (hputCall : putCall ≠ .unknown) (exchange : String)
    (r : R) (s : StrikeSet R) :
    ∃ s', s.setContract putCall exchange r = some s' ∧ ∀ side exchange', s'.getContract side exchange' =
      if side = putCall ∧ slot exchange' = slot exchange then some r else s.getContract side exchange' := by
  cases putCall with
  | unknown => exact absurd rfl hputCall
  | call | put =>
    refine ⟨_, rfl, fun side exchange' => ?_⟩
    cases side <;> simp [StrikeSet.getContract, getContract_setContract]

namespace Chain

variable {R : Type}

def contractAt (ch : Chain R) (date : ExpireDate) (price : Rat) (putCall : PutCall) (exchange : String) : Option R :=
  (ch.strikeSetRef date price).bind fun set => (ch.strikeSet set).getContract putCall exchange

variable {ch : Chain R} {date : ExpireDate}

theorem contractAt_congr (ch : Chain R) (date : ExpireDate) (price : Rat) (putCall : PutCall)
    {exchange exchange' : String} (h : slot exchange = slot exchange') :
    ch.contractAt date price putCall exchange = ch.contractAt date price putCall exchange' := by
  unfold contractAt StrikeSet.getContract
  simp only [getContract_congr h]

/-- No two dates or strikes share a set. -/
structure Owned (ch : Chain R) : Prop where
  strikes_lt : ∀ {d : ExpireDate} {r}, ch.expirationSet[d]? = some r → r < ch.nextStrikes
  strikes_inj : ∀ {d d' : ExpireDate} {r}, ch.expirationSet[d]? = some r → ch.expirationSet[d']? = some r →
    d = d'
  set_lt : ∀ {d p q}, ch.strikeSetRef d p = some q → q < ch.nextStrikeSet
  set_inj : ∀ {d p d' p' q}, ch.strikeSetRef d p = some q → ch.strikeSetRef d' p' = some q → d = d' ∧ p = p'

structure Keeps (ch ch' : Chain R) : Prop where
  contract : ch'.contract = ch.contract
  callOptions : ch'.callOptions = ch.callOptions
  putOptions : ch'.putOptions = ch.putOptions
  strikePrices : ch'.strikePrices = ch.strikePrices

theorem Keeps.refl (ch : Chain R) : Keeps ch ch := ⟨rfl, rfl, rfl, rfl⟩

theorem Keeps.trans {ch' ch'' : Chain R} (h : Keeps ch ch') (h' : Keeps ch' ch'') : Keeps ch ch'' :=
  ⟨h'.contract.trans h.contract, h'.callOptions.trans h.callOptions, h'.putOptions.trans h.putOptions,
    h'.strikePrices.trans h.strikePrices⟩

theorem strikeSetRef_of_new (h : ch.Owned) (hdate : ch.expirationSet[date]? = none) (d : ExpireDate) (p : Rat) :
    (ch.findOrCreateStrikes date).1.strikeSetRef d p = ch.strikeSetRef d p := by
  simp only [findOrCreateStrikes, hdate, strikeSetRef, OrderedMap.getElem?_insert]
  by_cases hd : d = date
  · simp [hd, hdate]
  · rw [if_neg hd]
    cases hr : ch.expirationSet[d]? with
    | none => rfl
    | some r => simp [update_of_ne (h.strikes_lt hr).ne]

theorem findOrCreateStrikes_spec (h : ch.Owned) (date : ExpireDate) :
    let made := ch.findOrCreateStrikes date
    made.1.Owned ∧ Keeps ch made.1 ∧ made.1.expirationSet[date]? = some made.2 ∧
      (∀ d : ExpireDate, made.1.expirationSet[d]?.isSome ↔ d = date ∨ ch.expirationSet[d]?.isSome) ∧
      made.1.strikeSetRef = ch.strikeSetRef ∧ made.1.strikeSet = ch.strikeSet := by
  cases hdate : ch.expirationSet[date]? with
  | some strikes =>
    have hsame : ch.findOrCreateStrikes date = (ch, strikes) := by simp [findOrCreateStrikes, hdate]
    rw [hsame]
    refine ⟨h, .refl ch, hdate, fun d => ⟨.inr, ?_⟩, rfl, rfl⟩
    rintro (rfl | hd)
    · simp [hdate]
    · exact hd
  | none =>
    have href : (ch.findOrCreateStrikes date).1.strikeSetRef = ch.strikeSetRef :=
      funext fun d => funext fun p => strikeSetRef_of_new h hdate d p
    simp only [findOrCreateStrikes, hdate] at href ⊢
    refine ⟨⟨fun hr => ?_, fun hr hr' => ?_, fun hq => h.set_lt (href ▸ hq), fun hq hq' => ?_⟩, ⟨rfl, rfl, rfl, rfl⟩,
      by simp, fun d => ?_, href, trivial⟩
    · rw [OrderedMap.getElem?_insert] at hr
      split at hr
      · obtain rfl := some.inj hr
        exact Nat.lt_succ_self _
      · exact (h.strikes_lt hr).trans (Nat.lt_succ_self _)
    · rw [OrderedMap.getElem?_insert] at hr hr'
      split at hr <;> split at hr'
      · simp [*]
      · obtain rfl := some.inj hr
        exact absurd (h.strikes_lt hr') (lt_irrefl _)
      · obtain rfl := some.inj hr'
        exact absurd (h.strikes_lt hr) (lt_irrefl _)
      · exact h.strikes_inj hr hr'
    · rw [href] at hq hq'
      exact h.set_inj hq hq'
    · rw [OrderedMap.getElem?_insert]
      split <;> simp [*]

theorem findOrCreateStrikeSet_spec (h : ch.Owned) {strikes : StrikesRef}
    (hdate : ch.expirationSet[date]? = some strikes) (price : Rat) :
    let made := ch.findOrCreateStrikeSet strikes price
    made.1.Owned ∧ Keeps ch made.1 ∧ made.1.expirationSet = ch.expirationSet ∧
      (∀ d p, made.1.strikeSetRef d p = if d = date ∧ p = price then some made.2 else ch.strikeSetRef d p) ∧
      made.1.contractAt = ch.contractAt := by
  unfold findOrCreateStrikeSet
  cases hprice : (ch.expirationStrikes strikes)[price]? with
  | some set =>
    refine ⟨h, .refl ch, rfl, fun d p => ?_, rfl⟩
    dsimp only
    split
    next hplace => simp [strikeSetRef, hplace.1, hplace.2, hdate, hprice]
    · rfl
  | none =>
    intro made
    have href : ∀ d p, made.1.strikeSetRef d p =
        if d = date ∧ p = price then some ch.nextStrikeSet else ch.strikeSetRef d p := by
      intro d p
      simp only [made, strikeSetRef]
      by_cases hd : d = date
      · subst hd
        simp [hdate]
      · cases hr : ch.expirationSet[d]? with
        | none => simp [hd]
        | some r =>
          have hne : r ≠ strikes := fun heq => hd (h.strikes_inj hr (heq ▸ hdate))
          simp [hd, update_of_ne hne]
    refine ⟨⟨h.strikes_lt, h.strikes_inj, fun hq => ?_, fun hq hq' => ?_⟩, ⟨rfl, rfl, rfl, rfl⟩, rfl, href, ?_⟩
    · rw [href] at hq
      split at hq
      · obtain rfl := some.inj hq
        exact Nat.lt_succ_self _
      · exact (h.set_lt hq).trans (Nat.lt_succ_self _)
    · rw [href] at hq hq'
      split at hq <;> split at hq'
      · simp [*]
      · obtain rfl := some.inj hq
        exact absurd (h.set_lt hq') (lt_irrefl _)
      · obtain rfl := some.inj hq'
        exact absurd (h.set_lt hq) (lt_irrefl _)
      · exact h.set_inj hq hq'
    · funext d p side exchange
      unfold contractAt
      rw [href]
      split
      next hplace =>
        have hnone : ch.strikeSetRef d p = none := by simp [strikeSetRef, hplace, hdate, hprice]
        rw [hnone]
        cases side <;> simp [made, StrikeSet.getContract, ContractSet.getContract]
      · cases hq : ch.strikeSetRef d p with
        | none => rfl
        | some q => simp [made, update_of_ne (h.set_lt hq).ne]

theorem addToStrikeSet_spec (h : ch.Owned) {price : Rat} {set : StrikeSetRef}
    (hset : ch.strikeSetRef date price = some set) {putCall : PutCall} (hputCall : putCall ≠ .unknown) (r : R) :
    ∃ ch', ch.addToStrikeSet set putCall r = some ch' ∧ ch'.Owned ∧ Keeps ch ch' ∧
      ch'.expirationSet = ch.expirationSet ∧ ch'.strikeSetRef = ch.strikeSetRef ∧
      ∀ d p side exchange, ch'.contractAt d p side exchange =
        if d = date ∧ p = price ∧ side = putCall ∧ slot exchange = slot (ch.contract r).exchange then some r
        else ch.contractAt d p side exchange := by
  obtain ⟨s, hs, hget⟩ := strikeSet_setContract hputCall (ch.contract r).exchange r (ch.strikeSet set)
  refine ⟨{ ch with strikeSet := update ch.strikeSet set s }, by rw [addToStrikeSet, hs]; rfl,
    { h with }, ⟨rfl, rfl, rfl, rfl⟩, rfl, rfl, ?_⟩
  intro d p side exchange
  change (ch.strikeSetRef d p).bind (fun q => (update ch.strikeSet set s q).getContract side exchange) = _
  unfold contractAt
  cases hq : ch.strikeSetRef d p with
  | none =>
    rw [if_neg]
    · rfl
    · rintro ⟨rfl, rfl, -⟩
      rw [hset] at hq
      cases hq
  | some q =>
    by_cases hqs : q = set
    · obtain ⟨rfl, rfl⟩ := h.set_inj hq (hqs ▸ hset)
      simp [hqs, hget]
    · have hne : ¬ (d = date ∧ p = price) := by
        rintro ⟨rfl, rfl⟩
        exact hqs (some.inj (hq.symm.trans hset))
      simp only [bind_some, update_of_ne hqs]
      rw [if_neg fun hall => hne ⟨hall.1, hall.2.1⟩]

/-- A contract has come to its date, strike, side and exchange. -/
structure Placed (r : R) (ch ch' : Chain R) : Prop where
  owned : ch'.Owned
  dates : ∀ d : ExpireDate, ch'.expirationSet[d]?.isSome ↔
    ch.expirationSet[d]?.isSome ∨ (ch.contract r).expireDate = some d
  strikes : ∀ d p, (ch'.strikeSetRef d p).isSome ↔
    (ch.strikeSetRef d p).isSome ∨ (ch.contract r).expireDate = some d ∧ (ch.contract r).strikePrice = some p
  contractAt : ∀ d p side exchange, ch'.contractAt d p side exchange =
    if (ch.contract r).expireDate = some d ∧ (ch.contract r).strikePrice = some p ∧
      (ch.contract r).putCall = some side ∧ slot exchange = slot (ch.contract r).exchange then some r
    else ch.contractAt d p side exchange

structure Indexed (r : R) (ch ch' : Chain R) : Prop extends Placed r ch ch' where
  keeps : Keeps ch ch'

theorem addToExpirationSet_spec (h : ch.Owned) (r : R) :
    (ch.addToExpirationSet r = none ∧ (ch.contract r).expireDate.isSome ∧ (ch.contract r).strikePrice.isSome ∧
      (ch.contract r).putCall = some .unknown) ∨
    ((ch.contract r).expireDate.isSome → (ch.contract r).strikePrice.isSome →
        (ch.contract r).putCall ≠ some .unknown) ∧
      ∃ ch', ch.addToExpirationSet r = some ch' ∧ Indexed r ch ch' := by
  unfold addToExpirationSet
  cases hdate : (ch.contract r).expireDate with
  | none => exact .inr ⟨by simp, ch, rfl, ⟨h, by simp [hdate], by simp [hdate], by simp [hdate]⟩, .refl ch⟩
  | some date =>
    obtain ⟨howned, hkeeps, hfound, hdates, hrefs, hsets⟩ := findOrCreateStrikes_spec h date
    have hat : (ch.findOrCreateStrikes date).1.contractAt = ch.contractAt := by
      funext d p side exchange
      rw [Chain.contractAt, hrefs, hsets, Chain.contractAt]
    have hdates' : ∀ d : ExpireDate, (ch.findOrCreateStrikes date).1.expirationSet[d]?.isSome ↔
        ch.expirationSet[d]?.isSome ∨ some date = some d := by
      intro d
      rw [hdates, some.injEq, eq_comm (a := d), or_comm]
    dsimp only
    cases hprice : (ch.contract r).strikePrice with
    | none =>
      refine .inr ⟨by simp, _, rfl, ⟨howned, fun d => ?_, fun d p => ?_, fun d p side exchange => ?_⟩, hkeeps⟩
      · rw [hdates', hdate]
      · simp [hrefs, hprice]
      · simp [hat, hprice]
    | some price =>
      obtain ⟨howned', hkeeps', hexpirations, hrefs', hat'⟩ := findOrCreateStrikeSet_spec howned hfound price
      dsimp only
      generalize (ch.findOrCreateStrikes date).1.findOrCreateStrikeSet (ch.findOrCreateStrikes date).2 price = priced
        at howned' hkeeps' hexpirations hrefs' hat' ⊢
      have hstrikes : ∀ d p, (priced.1.strikeSetRef d p).isSome ↔
          (ch.strikeSetRef d p).isSome ∨ some date = some d ∧ some price = some p := by
        intro d p
        rw [hrefs', hrefs]
        split
        · simp [*]
        next hne =>
          refine ⟨.inl, fun hor => hor.resolve_right fun heq => hne ?_⟩
          exact ⟨(some.inj heq.1).symm, (some.inj heq.2).symm⟩
      cases hputCall : (ch.contract r).putCall with
      | none =>
        refine .inr ⟨by simp, _, rfl, ⟨howned', fun d => ?_, fun d p => ?_, fun d p side exchange => ?_⟩,
          hkeeps.trans hkeeps'⟩
        · rw [hexpirations, hdates', hdate]
        · rw [hstrikes, hdate, hprice]
        · simp [hat', hat, hputCall]
      | some putCall =>
        by_cases hunknown : putCall = .unknown
        · refine .inl ⟨?_, rfl, rfl, by rw [hunknown]⟩
          rw [hunknown]
          rfl
        · have hset : priced.1.strikeSetRef date price = some priced.2 := by rw [hrefs', if_pos ⟨rfl, rfl⟩]
          obtain ⟨ch', hadd, howned'', hkeeps'', hexpirations', hrefs'', hat''⟩ :=
            addToStrikeSet_spec howned' hset hunknown r
          refine .inr ⟨fun _ _ heq => hunknown (some.inj heq), ch', hadd,
            ⟨howned'', fun d => ?_, fun d p => ?_, fun d p side exchange => ?_⟩,
            (hkeeps.trans hkeeps').trans hkeeps''⟩
          · rw [hexpirations', hexpirations, hdates', hdate]
          · rw [hrefs'', hstrikes, hdate, hprice]
          · rw [hat'', hat', hat, (hkeeps.trans hkeeps').contract, hdate, hprice, hputCall]
            simp only [some.injEq, eq_comm (a := d), eq_comm (a := p), eq_comm (a := side)]

structure Processed (r : R) (ch ch' : Chain R) : Prop extends Placed r ch ch' where
  contract : ch'.contract = ch.contract
  callOptions : ch'.callOptions = if (ch.contract r).putCall = some .call then
    SortedSet.insert (fun r₁ r₂ => contractLessThan (ch.contract r₁) (ch.contract r₂)) r ch.callOptions
    else ch.callOptions
  putOptions : ch'.putOptions = if (ch.contract r).putCall = some .put then
    SortedSet.insert (fun r₁ r₂ => contractLessThan (ch.contract r₁) (ch.contract r₂)) r ch.putOptions
    else ch.putOptions
  strikePrices : ∀ p, p ∈ ch'.strikePrices ↔ p ∈ ch.strikePrices ∨ (ch.contract r).strikePrice = some p

theorem addToOptions_spec (r : R) (ch : Chain R) :
    ch.addToOptions r =
      { ch with
        callOptions := if (ch.contract r).putCall = some .call then
          SortedSet.insert (fun r₁ r₂ => contractLessThan (ch.contract r₁) (ch.contract r₂)) r ch.callOptions
          else ch.callOptions
        putOptions := if (ch.contract r).putCall = some .put then
          SortedSet.insert (fun r₁ r₂ => contractLessThan (ch.contract r₁) (ch.contract r₂)) r ch.putOptions
          else ch.putOptions } := by
  unfold addToOptions
  match hputCall : (ch.contract r).putCall with
  | none | some .call | some .put | some .unknown => simp

theorem addStrikePrice_eq (r : R) (ch : Chain R) :
    ∃ prices, ch.addStrikePrice r = { ch with strikePrices := prices } ∧
      ∀ p, p ∈ prices ↔ p ∈ ch.strikePrices ∨ (ch.contract r).strikePrice = some p := by
  unfold addStrikePrice
  cases hprice : (ch.contract r).strikePrice with
  | none => exact ⟨ch.strikePrices, rfl, by simp⟩
  | some _ =>
    refine ⟨_, rfl, fun p => ?_⟩
    rw [Std.TreeSet.mem_insert, compare_eq_iff_eq, some.injEq, or_comm]

theorem processNewContractDetails_spec (h : ch.Owned) {r : R} (hcomplete : (ch.contract r).recapRequired = false) :
    (ch.processNewContractDetails r = none ∧ (ch.contract r).expireDate.isSome ∧
      (ch.contract r).strikePrice.isSome ∧ (ch.contract r).putCall = some .unknown) ∨
    ((ch.contract r).expireDate.isSome → (ch.contract r).strikePrice.isSome →
        (ch.contract r).putCall ≠ some .unknown) ∧
      ∃ ch', ch.processNewContractDetails r = some ch' ∧ Processed r ch ch' := by
  have howned : (ch.addToOptions r).Owned := by
    rw [addToOptions_spec]
    exact { h with }
  have hprocess : ch.processNewContractDetails r =
      ((ch.addToOptions r).addToExpirationSet r).map (addStrikePrice r) := by
    rw [processNewContractDetails, hcomplete]
    rfl
  have hspec := addToExpirationSet_spec howned r
  rw [hprocess]
  rw [addToOptions_spec] at hspec ⊢
  rcases hspec with ⟨hnone, hunknown⟩ | ⟨hknown, ch', hsome, ⟨howned', hdates, hstrikes, hat⟩, hkeeps⟩
  · rw [hnone]
    exact .inl ⟨rfl, hunknown⟩
  · obtain ⟨_, hprices, hmem⟩ := addStrikePrice_eq r ch'
    rw [hkeeps.contract, hkeeps.strikePrices] at hmem
    rw [hsome]
    refine .inr ⟨hknown, addStrikePrice r ch', rfl, ?_⟩
    rw [hprices]
    exact ⟨⟨{ howned' with }, hdates, hstrikes, hat⟩, hkeeps.contract, hkeeps.callOptions, hkeeps.putOptions, hmem⟩

end Chain

end OpenMama.Options
