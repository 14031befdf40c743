import OpenMama.Options.View
import OpenMama.Options.Index
import Mathlib.Tactic.Linarith

/-!
# Resetting the range of a view

What each part of `resetRange` does: the copies are new objects that list what the chain lists (`Copied`),
erasing and trimming leave of them what is in the range, and nothing that the chain points to is changed.
The range of a number of strikes never runs beyond the strikes.
-/

namespace OpenMama.Options

open List Std.TreeMap

variable {R : Type}

/-! ### Choosing strikes -/

variable {ch ch' : Chain R} {d : ExpireDate}

theorem strikesBetween_of_le {prices : List Rat} {lower upper : Rat} (h : lower ≤ upper) :
    strikesBetween prices lower upper = some (prices.filter fun p => lower ≤ p && p ≤ upper) := by
  apply if_neg
  simp only [any_eq_true, Bool.and_eq_true, decide_eq_true_eq, not_exists, not_and, not_lt]
  exact fun p _ hp => h.trans hp.le

variable {money : Rat} {prices below above : List Rat} {n : Nat}

theorem filter_append_filter (hsorted : prices.Pairwise (· < ·)) (money : Rat) :
    prices.filter (· < money) ++ prices.filter (money ≤ ·) = prices := by
  induction prices with
  | nil => rfl
  | cons p prices ih =>
    obtain ⟨hp, hrest⟩ := pairwise_cons.mp hsorted
    by_cases hlt : p < money
    · simp [hlt, ih hrest]
    · have hge := not_lt.mp hlt
      have hnone : prices.filter (· < money) = [] := by
        simpa using fun q hq => hge.trans (hp q hq).le
      simpa [hlt, hge, hnone] using ih hrest

theorem upperLoop_below (h : ∀ p ∈ below, p < money) (half : Rat) (above : List Rat) (toMoney : Nat) (upper : Rat) :
    upperLoop money half (below ++ above) (toMoney, 0, upper)
      = upperLoop money half above (toMoney + below.length, 0, upper) := by
  induction below generalizing toMoney with
  | nil => rfl
  | cons p _ ih =>
    obtain ⟨hp, hbelow⟩ := forall_mem_cons.mp h
    rw [cons_append, upperLoop, if_pos hp, ih hbelow, length_cons, Nat.add_right_comm, Nat.add_assoc]

theorem upperLoop_above (h : ∀ p ∈ above, money ≤ p) {k : Nat} (hk : 2 * k < n) (toMoney : Nat) (upper : Rat) :
    upperLoop money ((n : Int) / 2) above (toMoney, k, upper) = (toMoney, k + min above.length ((n + 1) / 2 - k),
      ((above.take ((n + 1) / 2 - k)).getLast?.map (· + 1 / 100000)).getD upper) := by
  induction above generalizing k upper with
  | nil => simp [upperLoop]
  | cons p above ih =>
    obtain ⟨hp, habove⟩ := forall_mem_cons.mp h
    have hhalf : ((n : Int) / 2 : Rat) ≤ k + 1 ↔ n ≤ 2 * k + 2 := by
      rw [div_le_iff₀ (by norm_num)]
      norm_cast
      omega
    rw [upperLoop, if_neg (not_lt.mpr hp)]
    split
    next hlast =>
      have hone : (n + 1) / 2 - k = 1 := by have := hhalf.mp hlast; omega
      simp [hone]
    next hmore =>
      have hleft : (n + 1) / 2 - k = (n + 1) / 2 - (k + 1) + 1 := by have := mt hhalf.mpr hmore; omega
      have hk' : 2 * (k + 1) < n := by have := mt hhalf.mpr hmore; omega
      rw [ih habove hk', hleft, length_cons, take_succ_cons, getLast?_cons]
      cases (above.take ((n + 1) / 2 - (k + 1))).getLast? <;> simp <;> omega

theorem lowerLoop_eq (prices : List Rat) (targetCount : Int) :
    lowerLoop prices targetCount = (prices.drop targetCount.toNat).head?.getD dblMin := by
  induction prices generalizing targetCount with
  | nil => simp [lowerLoop]
  | cons p _ ih =>
    rw [lowerLoop]
    split
    next hpos =>
      obtain ⟨k, rfl⟩ : ∃ k : Nat, targetCount = k + 1 := ⟨(targetCount - 1).toNat, by omega⟩
      rw [ih]
      simp
    next hzero => simp [Int.toNat_of_nonpos (not_lt.mp hzero)]

theorem getStrikesWithinRangeSize_eq (hsorted : (below ++ above).Pairwise (· < ·))
    (hbelow : ∀ p ∈ below, p < money) (habove : ∀ p ∈ above, money ≤ p) (hmax : ∀ p ∈ below ++ above, p ≤ dblMax)
    (hn : 0 < n) (hmoney : money ≠ 0) {h : Nat} (hh : h = min above.length ((n + 1) / 2)) :
    let upper := ((above.take h).getLast?.map (· + 1 / 100000)).getD dblMax
    getStrikesWithinRangeSize (below ++ above) n (some money) =
      some ((below.drop (below.length - (n - h)) ++ above).filter (· ≤ upper)) := by
  intro upper
  have htake : above.take ((n + 1) / 2) = above.take h := by
    rw [take_eq_take_iff]
    omega
  have hloop : upperLoop money ((n : Int) / 2) (below ++ above) (0, 0, dblMax) = (below.length, h, upper) := by
    rw [upperLoop_below hbelow, upperLoop_above habove hn]
    simp [upper, hh, htake]
  have hcount : (below.length - (n - h) : Int).toNat = below.length - (n - h) := by omega
  have hdrop : (below ++ above).drop (below.length - (n - h)) = below.drop (below.length - (n - h)) ++ above :=
    drop_append_of_le_length (Nat.sub_le _ _)
  have hsplit := take_append_drop (below.length - (n - h)) (below ++ above)
  unfold getStrikesWithinRangeSize
  rw [if_neg (by omega), Option.bind_some, if_neg hmoney]
  simp only [hloop, lowerLoop_eq, hcount]
  rw [← hdrop]
  cases hrest : (below ++ above).drop (below.length - (n - h)) with
  | nil =>
    have hnil : below = [] ∧ above = [] := by
      simp only [drop_eq_nil_iff, length_append] at hrest
      rw [← length_eq_zero_iff, ← length_eq_zero_iff]
      omega
    simp [hnil, strikesBetween]
  | cons first rest =>
    rw [hrest] at hsplit
    rw [← hsplit] at hsorted
    obtain ⟨-, hrests, hfront⟩ := pairwise_append.mp hsorted
    have hfirst : ∀ p ∈ first :: rest, first ≤ p :=
      forall_mem_cons.mpr ⟨le_rfl, fun p hp => ((pairwise_cons.mp hrests).1 p hp).le⟩
    have hle : first ≤ upper := by
      cases hlast : (above.take h).getLast? with
      | none =>
        simp only [upper, hlast, Option.map_none, Option.getD_none]
        exact hmax first (hsplit ▸ by simp)
      | some p =>
        have hmem : p ∈ first :: rest := by
          rw [← hrest, hdrop]
          exact mem_append_right _ (mem_of_mem_take (mem_of_getLast? hlast))
        simp only [upper, hlast, Option.map_some, Option.getD_some]
        linarith [hfirst p hmem]
    rw [head?_cons, Option.getD_some, strikesBetween_of_le hle]
    congr 1
    rw [← hsplit, filter_append, filter_eq_nil_iff.mpr, nil_append]
    · refine filter_congr fun p hp => ?_
      simp [hfirst p hp]
    · intro p hp
      have := hfront p hp first mem_cons_self
      simp [this]

theorem getStrikesWithinRangeSize_isSome (hsorted : prices.Pairwise (· < ·)) (hmax : ∀ p ∈ prices, p ≤ dblMax)
    (rangeLength : Int) (money : Rat) : (getStrikesWithinRangeSize prices rangeLength (some money)).isSome := by
  by_cases hlength : rangeLength ≤ 0
  · simp [getStrikesWithinRangeSize, hlength]
  · by_cases hmoney : money = 0
    · simp [getStrikesWithinRangeSize, hmoney]
    · obtain ⟨n, rfl⟩ := Int.eq_ofNat_of_zero_le (not_le.mp hlength).le
      have hprices := filter_append_filter hsorted money
      rw [← hprices] at hsorted hmax ⊢
      rw [getStrikesWithinRangeSize_eq hsorted (by simp) (by simp) hmax (by omega) hmoney rfl]
      rfl

/-- Half of the strikes, rounded up, are the next ones at or above the money, as far as there are so many. -/
theorem strikes_around_money (prices : List Rat) (hprices : prices.Pairwise (· + 1 / 100000 < ·))
    (hmax : ∀ p ∈ prices, p ≤ dblMax) {money : Rat} (hmoney : 0 < money) {n : Nat} (hn : 1 ≤ n) :
    let below := prices.filter (· < money)
    let above := prices.filter (money ≤ ·)
    let h := min above.length ((n + 1) / 2)
    getStrikesWithinRangeSize prices n (some money) =
      some (below.drop (below.length - min below.length (n - h)) ++ above.take h) := by
  intro below above h
  have hsorted : prices.Pairwise (· < ·) := hprices.imp fun hlt => by linarith
  have hsplit : below ++ above = prices := filter_append_filter hsorted money
  have hbelow : ∀ p ∈ below, p < money := by simp [below]
  have habove : ∀ p ∈ above, money ≤ p := by simp [above]
  have hgap : above.Pairwise (· + 1 / 100000 < ·) := hprices.filter _
  rw [← hsplit] at hsorted hmax
  have heq := getStrikesWithinRangeSize_eq hsorted hbelow habove hmax hn hmoney.ne' (h := h) rfl
  rw [hsplit] at heq
  have hdrop : below.length - (n - h) = below.length - min below.length (n - h) := by omega
  rw [heq, filter_append, ← hdrop]
  cases hlast : (above.take h).getLast? with
  | none =>
    have hnil : above = [] := by
      rw [getLast?_eq_none_iff, take_eq_nil_iff] at hlast
      exact hlast.elim (fun hzero => length_eq_zero_iff.mp (by omega)) id
    rw [hnil, take_nil, filter_nil, filter_eq_self.mpr]
    intro p hp
    simpa using hmax p (mem_append_left _ (mem_of_mem_drop hp))
  | some last =>
    obtain ⟨_, hfront⟩ := getLast?_eq_some_iff.mp hlast
    have hparts := take_append_drop h above
    rw [hfront] at hparts
    rw [← hparts, pairwise_append] at hgap
    have hle := hgap.1
    rw [Option.map_some, Option.getD_some, hfront]
    congr 2
    · refine filter_eq_self.mpr fun p hp => ?_
      have := hbelow p (mem_of_mem_drop hp)
      have := habove last (mem_of_mem_take (mem_of_getLast? hlast))
      simp
      linarith
    · nth_rewrite 1 [← hparts]
      rw [filter_append, filter_eq_self.mpr, filter_eq_nil_iff.mpr, append_nil]
      · intro p hp
        simpa using hgap.2.2 last (by simp) p hp
      · intro p hp
        rw [pairwise_append] at hle
        rcases mem_append.mp hp with hp | hp
        · have := hle.2.2 p hp last (by simp)
          simp
          linarith
        · simp [mem_singleton.mp hp]

theorem strikes_around_money_five :
    getStrikesWithinRangeSize [90, 95, 100, 105, 110] 3 (some 101) = some [100, 105, 110] :=
  (strikes_around_money [90, 95, 100, 105, 110] (by norm_num) (by decide +kernel) (by norm_num)
    (by norm_num)).trans (by norm_num)

theorem getStrikesWithinPercent_isSome (prices : List Rat) (percentage : Rat) {money : Rat} (hmoney : 0 ≤ money) :
    (getStrikesWithinPercent prices percentage (some money)).isSome := by
  unfold getStrikesWithinPercent
  dsimp only
  split
  · rfl
  next hpositive =>
    rw [Option.bind_some]
    split
    · rfl
    · rw [strikesBetween_of_le]
      · rfl
      · nlinarith

/-! ### Copies -/

structure Extends (ch ch' : Chain R) : Prop where
  kept : ∀ r < ch.nextStrikes, ch'.expirationStrikes r = ch.expirationStrikes r
  nextStrikes : ch.nextStrikes ≤ ch'.nextStrikes
  rest : ch' = { ch with expirationStrikes := ch'.expirationStrikes, nextStrikes := ch'.nextStrikes }

theorem Extends.trans {ch'' : Chain R} (h : Extends ch ch') (h' : Extends ch' ch'') : Extends ch ch'' where
  kept r hr := (h'.kept r (hr.trans_le h.nextStrikes)).trans (h.kept r hr)
  nextStrikes := h.nextStrikes.trans h'.nextStrikes
  rest := by rw [h'.rest, h.rest]

theorem Extends.expirationSet (h : Extends ch ch') : ch'.expirationSet = ch.expirationSet := by rw [h.rest]

theorem Extends.strikeSetRef (h : Extends ch ch') (howned : ch.Owned) : ch'.strikeSetRef = ch.strikeSetRef := by
  funext d p
  unfold Chain.strikeSetRef
  rw [h.expirationSet]
  cases hr : ch.expirationSet[d]? with
  | none => rfl
  | some r => simp [h.kept r (howned.strikes_lt hr)]

theorem extends_copyOne (copied : Chain R × ExpirationDateSet) (entry : ExpireDate × StrikesRef) :
    Extends copied.1 (copyOne copied entry).1 where
  kept r hr := by simp [copyOne, Function.update_of_ne hr.ne]
  nextStrikes := by simp [copyOne]
  rest := rfl

theorem foldl_copyOne (entries : List (ExpireDate × StrikesRef)) (ch : Chain R) (result : ExpirationDateSet)
    (hdates : (entries.map Prod.fst).Nodup) {n : StrikesRef} (hn : n ≤ ch.nextStrikes)
    (hlt : ∀ entry ∈ entries, entry.2 < n) :
    let copies := entries.foldl copyOne (ch, result)
    Extends ch copies.1 ∧ ∀ d : ExpireDate, (d ∉ entries.map Prod.fst → copies.2[d]? = result[d]?) ∧
      ∀ r, (d, r) ∈ entries → ∃ r', copies.2[d]? = some r' ∧ ch.nextStrikes ≤ r' ∧ r' < copies.1.nextStrikes ∧
        copies.1.expirationStrikes r' = ch.expirationStrikes r := by
  induction entries generalizing ch result with
  | nil => exact ⟨⟨fun _ _ => rfl, le_rfl, rfl⟩, fun d => ⟨fun _ => rfl, fun r hr => by cases hr⟩⟩
  | cons entry _ ih =>
    obtain ⟨hnew, hrest⟩ := nodup_cons.mp hdates
    have hfirst := extends_copyOne (ch, result) entry
    obtain ⟨hextends, hfound⟩ := ih (copyOne (ch, result) entry).1 (copyOne (ch, result) entry).2 hrest
      (hn.trans hfirst.nextStrikes) fun e he => hlt e (mem_cons_of_mem _ he)
    rw [foldl_cons]
    refine ⟨hfirst.trans hextends, fun d => ⟨fun hd => ?_, fun r hr => ?_⟩⟩
    · simp only [map_cons, mem_cons, not_or] at hd
      rw [(hfound d).1 hd.2]
      simp [copyOne, hd.1]
    · rcases mem_cons.mp hr with rfl | hr
      · refine ⟨ch.nextStrikes, ?_, le_rfl, ?_, ?_⟩
        · rw [(hfound d).1 hnew]
          simp [copyOne]
        · exact (Nat.lt_succ_self _).trans_le hextends.nextStrikes
        · apply (hextends.kept _ (Nat.lt_succ_self _)).trans
          simp [copyOne]
      · obtain ⟨r', hr', hge, hlt', hsame⟩ := (hfound d).2 r hr
        refine ⟨r', hr', hfirst.nextStrikes.trans hge, hlt', hsame.trans ?_⟩
        exact hfirst.kept r ((hlt (d, r) (mem_cons_of_mem _ hr)).trans_le hn)

/-- A set of expirations with strikes of its own, copied from the chain. -/
structure Copied (ch ch' : Chain R) (set : ExpirationDateSet) : Prop where
  extends_chain : Extends ch ch'
  fresh : ∀ (d : ExpireDate) r, set[d]? = some r → ch.nextStrikes ≤ r
  same : ∀ (d : ExpireDate) r, set[d]? = some r →
    ∃ r₀, ch.expirationSet[d]? = some r₀ ∧ ch'.expirationStrikes r = ch.expirationStrikes r₀

theorem copyStrikes_spec (h : ch.Owned) :
    Copied ch (copyStrikes ch ch.expirationSet).1 (copyStrikes ch ch.expirationSet).2 ∧
      ∀ d : ExpireDate, (copyStrikes ch ch.expirationSet).2[d]?.isSome ↔ ch.expirationSet[d]?.isSome := by
  have hmem : ∀ (d : ExpireDate) r, (d, r) ∈ ch.expirationSet.toList ↔ ch.expirationSet[d]? = some r := fun d r =>
    mem_toList_iff_getElem?_eq_some
  have hdates : (ch.expirationSet.toList.map Prod.fst).Nodup := by
    rw [map_fst_toList_eq_keys]
    exact nodup_keys
  obtain ⟨hextends, hfound⟩ := foldl_copyOne ch.expirationSet.toList ch ∅ hdates le_rfl
    fun entry hentry => h.strikes_lt ((hmem entry.1 entry.2).mp hentry)
  have hcases : ∀ d : ExpireDate, (∃ r, ch.expirationSet[d]? = some r) ∨
      ch.expirationSet[d]? = none ∧ (copyStrikes ch ch.expirationSet).2[d]? = none := by
    intro d
    cases hd : ch.expirationSet[d]? with
    | some r => exact .inl ⟨r, rfl⟩
    | none =>
      refine .inr ⟨rfl, ((hfound d).1 ?_).trans (OrderedMap.getElem?_empty d)⟩
      rintro hin
      obtain ⟨⟨_, r⟩, hr, rfl⟩ := mem_map.mp hin
      rw [hmem, hd] at hr
      cases hr
  refine ⟨⟨hextends, fun d r hr => ?_, fun d r hr => ?_⟩, fun d => ?_⟩
  · rcases hcases d with ⟨r₀, hr₀⟩ | ⟨-, hnone⟩
    · obtain ⟨r', hr', hge, -⟩ := (hfound d).2 r₀ ((hmem d r₀).mpr hr₀)
      obtain rfl : r = r' := Option.some.inj (hr.symm.trans hr')
      exact hge
    · rw [hnone] at hr
      cases hr
  · rcases hcases d with ⟨r₀, hr₀⟩ | ⟨-, hnone⟩
    · obtain ⟨r', hr', -, -, hsame⟩ := (hfound d).2 r₀ ((hmem d r₀).mpr hr₀)
      obtain rfl : r = r' := Option.some.inj (hr.symm.trans hr')
      exact ⟨r₀, hr₀, hsame⟩
    · rw [hnone] at hr
      cases hr
  · rcases hcases d with ⟨r₀, hr₀⟩ | ⟨hnone, hnone'⟩
    · obtain ⟨_, hr', -⟩ := (hfound d).2 r₀ ((hmem d r₀).mpr hr₀)
      rw [hr₀]
      simp only [copyStrikes, hr', Option.isSome_some]
    · rw [hnone, hnone']

/-! ### Erasing expirations -/

theorem Copied.eraseAfter {set : ExpirationDateSet} (h : Copied ch ch' set) (date : DateTime) :
    Copied ch ch' (eraseAfter date set) := by
  have hsub : ∀ (d : ExpireDate) r, (Options.eraseAfter date set)[d]? = some r → set[d]? = some r := by
    intro d r hr
    rw [Options.eraseAfter, OrderedMap.getElem?_filter] at hr
    split at hr
    · exact hr
    · cases hr
  exact ⟨h.extends_chain, fun d r hr => h.fresh d r (hsub d r hr), fun d r hr => h.same d r (hsub d r hr)⟩

theorem isSome_eraseAfter (date : DateTime) (set : ExpirationDateSet) (d : ExpireDate) :
    (eraseAfter date set)[d]?.isSome ↔ set[d]?.isSome ∧ ¬ date.compare d.dateTime < 0 := by
  rw [eraseAfter, OrderedMap.getElem?_filter]
  split <;> simp_all

theorem compare_dateTime_neg {d' : ExpireDate} : d.dateTime.compare d'.dateTime < 0 ↔ d < d' := by
  rw [dateTime_compare]
  split
  · simp [*]
  · split <;> simp [*]

theorem compare_dateTime_nonpos {d' : ExpireDate} : d.dateTime.compare d'.dateTime ≤ 0 ↔ d ≤ d' := by
  rw [dateTime_compare]
  rcases lt_trichotomy d d' with hlt | rfl | hlt
  · simp [hlt, hlt.le]
  · simp
  · simp [hlt.not_gt, hlt.ne', hlt.not_ge]

theorem expirationLoop_eq (date : Option ExpireDate) (dates : List ExpireDate) (n : Nat) :
    expirationLoop date dates n = ((dates.take n).getLast?.or date, ((n - dates.length : Nat) : Int)) := by
  induction dates generalizing date n with
  | nil => simp [expirationLoop]
  | cons d dates ih =>
    cases n with
    | zero => simp [expirationLoop]
    | succ n =>
      have hpred : ((n + 1 : Nat) : Int) - 1 = n := by omega
      rw [expirationLoop, hpred, ih, take_succ_cons, length_cons, Nat.add_sub_add_right]
      cases hlast : (dates.take n).getLast? with
      | none | some last => simp [getLast?_cons, hlast]

theorem sorted_keys (set : ExpirationDateSet) : set.keys.Pairwise (· < ·) := by
  have h := ordered_keys (t := set)
  exact h.imp compare_lt_iff_lt.mp

theorem mem_take_iff {dates : List ExpireDate} (hsorted : dates.Pairwise (· < ·)) {n : Nat} {last : ExpireDate}
    (hlast : (dates.take n).getLast? = some last) (hd : d ∈ dates) :
    d ∈ dates.take n ↔ d ≤ last := by
  obtain ⟨_, hfront⟩ := getLast?_eq_some_iff.mp hlast
  rw [← take_append_drop n dates] at hsorted hd
  constructor
  · intro hin
    have htake := (pairwise_append.mp hsorted).1
    rw [hfront] at hin htake
    rcases mem_append.mp hin with hin | hin
    · exact ((pairwise_append.mp htake).2.2 d hin last mem_cons_self).le
    · exact (mem_singleton.mp hin).le
  · intro hle
    refine (mem_append.mp hd).resolve_right fun hin => ?_
    have hmem : last ∈ dates.take n := mem_of_getLast? hlast
    exact absurd ((pairwise_append.mp hsorted).2.2 last hmem d hin) (not_lt.mpr hle)

theorem mem_keys_iff {set : ExpirationDateSet} : d ∈ set.keys ↔ set[d]?.isSome := by
  rw [Std.TreeMap.mem_keys, mem_iff_isSome_getElem?]

theorem getExpirations_spec (h : ch.Owned) (n : Nat) (hn : 0 < n) :
    Copied ch (getExpirations ch ch.expirationSet n).1 (getExpirations ch ch.expirationSet n).2 ∧
      ∀ d : ExpireDate, (getExpirations ch ch.expirationSet n).2[d]?.isSome ↔ d ∈ ch.expirationSet.keys.take n := by
  obtain ⟨hcopied, hsome⟩ := copyStrikes_spec h
  by_cases hlength : n ≤ ch.expirationSet.keys.length
  · unfold getExpirations
    rw [expirationLoop_eq]
    cases hlast : (ch.expirationSet.keys.take n).getLast? with
    | none =>
      simp only [getLast?_eq_none_iff, take_eq_nil_iff] at hlast
      rcases hlast with hlast | hlast
      · omega
      · simp [hlast] at hlength
        omega
    | some _ =>
      have hzero : n - ch.expirationSet.keys.length = 0 := by omega
      rw [hzero]
      refine ⟨hcopied.eraseAfter _, fun d => ?_⟩
      simp only [Option.some_or, Nat.cast_zero, getExpirationsBefore]
      rw [isSome_eraseAfter, hsome, compare_dateTime_neg, not_lt, ← mem_keys_iff]
      constructor
      · rintro ⟨hd, hle⟩
        exact (mem_take_iff (sorted_keys _) hlast hd).mpr hle
      · intro hd
        have hmem := mem_of_mem_take hd
        exact ⟨hmem, (mem_take_iff (sorted_keys _) hlast hmem).mp hd⟩
  · have hall : ch.expirationSet.keys.take n = ch.expirationSet.keys := take_of_length_le (by omega)
    have hcopy : getExpirations ch ch.expirationSet n = copyStrikes ch ch.expirationSet := by
      unfold getExpirations
      rw [expirationLoop_eq]
      split
      next heq =>
        simp only [Prod.mk.injEq] at heq
        omega
      · rfl
    rw [hcopy, hall]
    refine ⟨hcopied, fun d => ?_⟩
    rw [hsome, mem_keys_iff]

theorem getElem?_foldl_trimStrikes (low high : Rat) (refs : List StrikesRef) (ch : Chain R) (r : StrikesRef) (p : Rat) :
    ((refs.foldl (trimStrikes low high) ch).expirationStrikes r)[p]? =
      if r ∈ refs → low ≤ p ∧ p ≤ high then (ch.expirationStrikes r)[p]? else none := by
  induction refs generalizing ch with
  | nil => simp
  | cons ref _ ih =>
    rw [foldl_cons, ih]
    by_cases hr : r = ref
    · subst hr
      simp only [trimStrikes, Function.update_self, OrderedMap.getElem?_filter, mem_cons, true_or,
        forall_const, Bool.and_eq_true, decide_eq_true_eq]
      grind
    · simp [trimStrikes, hr]

theorem foldl_trimStrikes_extends (low high : Rat) (refs : List StrikesRef) {n : StrikesRef} (ch : Chain R)
    (hrefs : ∀ r ∈ refs, n ≤ r) :
    (∀ r < n, (refs.foldl (trimStrikes low high) ch).expirationStrikes r = ch.expirationStrikes r) ∧
      refs.foldl (trimStrikes low high) ch =
        { ch with expirationStrikes := (refs.foldl (trimStrikes low high) ch).expirationStrikes } := by
  induction refs generalizing ch with
  | nil => exact ⟨fun _ _ => rfl, rfl⟩
  | cons ref _ ih =>
    obtain ⟨hkept, hrest⟩ := ih (trimStrikes low high ch ref) fun r hr => hrefs r (mem_cons_of_mem _ hr)
    rw [foldl_cons]
    refine ⟨fun r hr => ?_, ?_⟩
    · rw [hkept r hr]
      exact Function.update_of_ne (hr.trans_le (hrefs ref mem_cons_self)).ne _ _
    · rw [hrest]
      rfl

end OpenMama.Options
