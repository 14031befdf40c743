import OpenMama.Options.Ranges

/-!
# What a view shows

`Shows` says what a view should be after its range was reset, and `shows_iff` when the code does that. It looks at the
number of strikes only if a number of expirations is set, and a view without expirations takes contracts of the next
year to be visible.
-/

namespace OpenMama.Options

open List OrderedMap Option ExpireDate Function Options.System

variable {R : Type}

def Within (strikes : List Rat) (p : Rat) : Prop :=
  ∀ low ∈ strikes.head?, ∀ high ∈ strikes.getLast?, low ≤ p ∧ p ≤ high

namespace System

def lastDay (now : DateTime) (t : System R) : DateTime := addSeconds now (t.view.expirationDays * 24 * 60 * 60)

def KeepsDate (now : DateTime) (t : System R) (d : Int) : Prop :=
  if 0 < t.view.expirationDays then d ≤ (t.lastDay now).seconds
  else if 0 < t.view.numExpirations then d ∈ t.chain.expirationSet.keys.take t.view.numExpirations.toNat
  else True

def LeavesDate (now : DateTime) (t : System R) (d : Int) : Prop :=
  if 0 < t.view.expirationDays then ¬ (t.lastDay now).compare (dateTime d) < 0 else t.KeepsDate now d

variable (t : System R)

def percentStrikes : List Rat :=
  if 0 < t.view.strikeMargin then
    (getStrikesWithinPercent t.chain.strikePrices.toList t.view.strikeMargin
      (getAtTheMoney t.underlying t.view.atTheMoneyType)).getD []
  else []

def numberStrikes : List Rat :=
  (getStrikesWithinRangeSize t.chain.strikePrices.toList t.view.numStrikes
    (getAtTheMoney t.underlying t.view.atTheMoneyType)).getD []

def rangeStrikes : List Rat :=
  if t.percentStrikes ≠ [] then t.percentStrikes else t.numberStrikes

def takenStrikes : List Rat :=
  if t.percentStrikes ≠ [] then t.percentStrikes
  else if 0 < t.view.numExpirations then t.numberStrikes
  else []

end System

def System.Lists (t : System R) (d : ExpireDate) (p : Rat) : Prop :=
  ∃ r, t.view.expirationDateSet[d]? = some r ∧ ((t.chain.expirationStrikes r)[p]?).isSome

def System.Has (t : System R) (c : Contract) (d : ExpireDate) (p : Rat) : Prop :=
  ∃ r ∈ t.added, t.chain.contract r = c ∧ c.recapRequired = false ∧ c.expireDate = some d ∧ c.strikePrice = some p

/-- After its range was reset a view shows what it is set to show, and the chain is as it was. -/
structure Shows (now : DateTime) (t t' : System R) : Prop where
  dates : ∀ d : ExpireDate, t'.view.expirationDateSet[d]?.isSome ↔
    t.chain.expirationSet[d]?.isSome ∧ t.KeepsDate now d
  strikes : ∀ (d : ExpireDate) p, t'.view.expirationDateSet[d]?.isSome →
    (t'.Lists d p ↔ (t.chain.strikeSetRef d p).isSome ∧ Within t.rangeStrikes p)
  visible : ∀ c d p, t.Has c d p → (t'.view.isVisible c = true ↔ t'.Lists d p)
  unchanged : t'.chain.expirationSet = t.chain.expirationSet ∧ t'.chain.strikeSetRef = t.chain.strikeSetRef ∧
    t'.chain.strikePrices = t.chain.strikePrices

/-! ### Resetting -/

/-- What is assumed of a state whose range is reset: the objects of the chain are its own, its strikes are
doubles, and its contracts are in its index. -/
structure Sound (t : System R) : Prop where
  owned : t.chain.Owned
  prices : ∀ p ∈ t.chain.strikePrices, p ≤ dblMax
  listed : ∀ c d p, t.Has c d p → (t.chain.strikeSetRef d p).isSome ∧ dblMin ≤ p ∧ p ≤ dblMax

section

variable {t t' : System R} {money : Rat} {now : DateTime} {d : ExpireDate} {p : Rat} {clock : Clock} {s : System R}

/-- The strikes are defined if the price of the underlying can be read and is not negative. -/
theorem isSome_chosenStrikes (h : Sound t)
    (hmoney : getAtTheMoney t.underlying t.view.atTheMoneyType = some money) (hpos : 0 ≤ money) :
    t.chosenStrikes.isSome := by
  have hsorted : t.chain.strikePrices.toList.Pairwise (· < ·) :=
    (Std.TreeSet.ordered_toList (t := t.chain.strikePrices)).imp compare_lt_iff_lt.mp
  obtain ⟨percent, hpercent⟩ := isSome_iff_exists.mp
    (getStrikesWithinPercent_isSome t.chain.strikePrices.toList t.view.strikeMargin hpos)
  obtain ⟨_, hnumber⟩ := isSome_iff_exists.mp
    (getStrikesWithinRangeSize_isSome hsorted (fun p hp => h.prices p (Std.TreeSet.mem_toList.mp hp))
      t.view.numStrikes money)
  unfold chosenStrikes
  simp only [hmoney, hpercent, hnumber]
  by_cases hmargin : 0 < t.view.strikeMargin
  · rw [if_pos hmargin]
    cases percent with
    | nil =>
      rw [bind_some]
      dsimp only
      split <;> rfl
    | cons _ _ => rfl
  · rw [if_neg hmargin, bind_some]
    dsimp only
    split <;> rfl

theorem chosenStrikes_eq (h : t.chosenStrikes.isSome) : t.chosenStrikes = some t.takenStrikes := by
  obtain ⟨strikes, hstrikes⟩ := isSome_iff_exists.mp h
  rw [hstrikes]
  unfold chosenStrikes at hstrikes
  obtain ⟨percent, hpercent, hchosen⟩ := bind_eq_some_iff.mp hstrikes
  have hpercent' : t.percentStrikes = percent := by
    unfold percentStrikes
    split at hpercent
    next hmargin => rw [if_pos hmargin, hpercent, getD_some]
    next hmargin => rw [if_neg hmargin, ← some.inj hpercent]
  rw [takenStrikes, hpercent']
  cases percent with
  | nil =>
    rw [if_neg (not_not.mpr rfl)]
    dsimp only at hchosen
    split at hchosen
    next hnum => rw [if_pos hnum, numberStrikes, hchosen, getD_some]
    next hnum => rw [if_neg hnum, ← some.inj hchosen]
  | cons _ _ =>
    rw [if_pos (cons_ne_nil _ _)]
    exact hchosen.symm

theorem filterExpirations_spec (h : t.chain.Owned) (now : DateTime) :
    ∃ chain set, t.filterExpirations now =
        { t with chain := chain, view := { t.view with expirationDateSet := set } } ∧
      Copied t.chain chain set ∧ (t.view.expirationDays * 24 * 60 * 60 < 2 ^ 31 →
        ∀ d : ExpireDate, set[d]?.isSome ↔ t.chain.expirationSet[d]?.isSome ∧ t.LeavesDate now d) := by
  obtain ⟨hcopied, hsome⟩ := copyStrikes_spec h
  unfold filterExpirations System.LeavesDate System.KeepsDate
  by_cases hpos : 0 < t.view.expirationDays
  · simp only [if_pos hpos]
    refine ⟨_, _, rfl, hcopied.eraseAfter _, fun hdays d => ?_⟩
    have hmod : (t.view.expirationDays * 24 * 60 * 60).bmod (2 ^ 32) = t.view.expirationDays * 24 * 60 * 60 := by
      rw [Int.bmod_eq_of_le] <;> omega
    rw [hmod]
    exact (isSome_eraseAfter _ _ d).trans (and_congr_left' (hsome d))
  · by_cases hnum : 0 < t.view.numExpirations
    · obtain ⟨n, hn⟩ := Int.eq_ofNat_of_zero_le hnum.le
      obtain ⟨hcopied', hsome'⟩ := getExpirations_spec h n (by omega)
      simp only [if_neg hpos, if_pos hnum]
      rw [hn]
      refine ⟨_, _, rfl, hcopied', fun _ d => ?_⟩
      rw [hsome', ← mem_keys_iff]
      exact ⟨fun hd => ⟨mem_of_mem_take hd, hd⟩, And.right⟩
    · simp only [if_neg hpos, if_neg hnum]
      exact ⟨_, _, rfl, hcopied, fun _ d => by rw [hsome, and_true]⟩

theorem Copied.foldl_trimStrikes {ch chain : Chain R} {set : ExpirationDateSet} (h : Copied ch chain set)
    (low high : Rat) : Extends ch ((iterate set).foldl (trimStrikes low high) chain) := by
  obtain ⟨hkept, hrest⟩ := foldl_trimStrikes_extends low high (iterate set) chain fun r hr => by
    obtain ⟨d, hd⟩ := mem_iterate.mp hr
    exact h.fresh d r hd
  refine ⟨fun r hr => (hkept r hr).trans (h.extends_chain.kept r hr), ?_, ?_⟩
  · rw [hrest]
    exact h.extends_chain.nextStrikes
  · rw [hrest, h.extends_chain.rest]

theorem resetRange_extends (h : t.chain.Owned) (hreset : t.resetRange clock = some t') :
    Extends t.chain t'.chain ∧ t'.added = t.added := by
  obtain ⟨_, _, hfilter, hcopied, -⟩ := filterExpirations_spec h clock.filtered
  rw [resetRange, hfilter, filterStrikes, Option.map_map, Option.map_eq_some_iff] at hreset
  obtain ⟨strikes, -, rfl⟩ := hreset
  cases strikes with
  | nil => exact ⟨hcopied.extends_chain, rfl⟩
  | cons low _ => exact ⟨hcopied.foldl_trimStrikes low _, rfl⟩

/-- What `resetRange` leaves. -/
structure Reset (clock : Clock) (t t' : System R) : Prop where
  extends_chain : Extends t.chain t'.chain
  dates : ∀ d : ExpireDate, t'.view.expirationDateSet[d]?.isSome ↔
    t.chain.expirationSet[d]?.isSome ∧ t.LeavesDate clock.filtered d
  strikes : ∀ (d : ExpireDate) p, t'.view.expirationDateSet[d]?.isSome →
    (t'.Lists d p ↔ (t.chain.strikeSetRef d p).isSome ∧ Within t.takenStrikes p)
  strikeBounds : ∀ p, dblMin ≤ p → p ≤ dblMax →
    (t'.view.lowStrike ≤ p ∧ p ≤ t'.view.highStrike ↔ Within t.takenStrikes p)
  lowExpireDate : t'.view.lowExpireDate =
    (t'.view.expirationDateSet.keys.head?.map dateTime).getD {}
  highExpireDate : t'.view.highExpireDate =
    (t'.view.expirationDateSet.keys.getLast?.map dateTime).getD
      (addSeconds clock.bounded (366 * 24 * 60 * 60))

theorem Copied.isSome {chain : Chain R} {set : ExpirationDateSet} (h : Copied t.chain chain set) {r : StrikesRef}
    (hr : set[d]? = some r) (p : Rat) :
    ((chain.expirationStrikes r)[p]?).isSome ↔ (t.chain.strikeSetRef d p).isSome := by
  obtain ⟨_, hr₀, hsame⟩ := h.same d r hr
  rw [hsame, Chain.strikeSetRef, hr₀]
  rfl

theorem exists_ref_iff {set : ExpirationDateSet} {r : StrikesRef} (hr : set[d]? = some r) {f : StrikesRef → Prop} :
    (∃ r', set[d]? = some r' ∧ f r') ↔ f r := by
  simp [hr]

theorem resetRange_spec (h : Sound t) (hdays : t.view.expirationDays * 24 * 60 * 60 < 2 ^ 31)
    (hstrikes : t.chosenStrikes.isSome) (clock : Clock) :
    ∃ t', t.resetRange clock = some t' ∧ Reset clock t t' := by
  obtain ⟨chain, set, hfilter, hcopied, hset⟩ := filterExpirations_spec h.owned clock.filtered
  have hdates := hset hdays
  have hchosen : (t.filterExpirations clock.filtered).chosenStrikes = some t.takenStrikes := by
    rw [← chosenStrikes_eq hstrikes, hfilter, hcopied.extends_chain.rest]
    rfl
  unfold resetRange filterStrikes
  rw [hchosen, hfilter]
  cases htaken : t.takenStrikes with
  | nil =>
    refine ⟨_, rfl, hcopied.extends_chain, hdates, fun d p hd => ?_, fun p hmin hmax => ?_, rfl, rfl⟩
    · rw [htaken]
      obtain ⟨r, hr⟩ := isSome_iff_exists.mp hd
      refine (exists_ref_iff hr).trans ((hcopied.isSome hr p).trans ?_)
      simp [Within]
    · rw [htaken]
      simp [setExpireBounds, Within, hmin, hmax]
  | cons low rest =>
    have hwithin : ∀ p, Within (low :: rest) p ↔ low ≤ p ∧ p ≤ (low :: rest).getLast (cons_ne_nil low rest) := by
      simp [Within, getLast?_eq_some_getLast]
    refine ⟨_, rfl, hcopied.foldl_trimStrikes low _, hdates, fun d p hd => ?_, fun p _ _ => ?_, rfl, rfl⟩
    · obtain ⟨r, hr⟩ := isSome_iff_exists.mp hd
      have hmem : r ∈ iterate set := mem_iterate.mpr ⟨d, hr⟩
      have htrim := getElem?_foldl_trimStrikes low ((low :: rest).getLast (cons_ne_nil low rest))
        (iterate set) chain r p
      rw [htaken, hwithin]
      apply (exists_ref_iff hr).trans
      dsimp only [setExpireBounds]
      simp only [htrim, hmem, forall_const, ← hcopied.isSome hr]
      split
      next hin => exact ⟨fun hp => ⟨hp, hin⟩, And.left⟩
      next hout => exact iff_of_false (by simp) fun hp => hout hp.2
    · rw [htaken, hwithin]
      rfl

/-! ### When the view shows what it should -/

structure System.Shown (clock : Clock) (t : System R) : Prop where
  days : 0 < t.view.expirationDays → clock.filtered.nanoseconds ≠ 0 →
    t.chain.expirationSet[(t.lastDay clock.filtered).seconds]? = none
  number : t.percentStrikes = [] → t.view.numExpirations ≤ 0 → ∀ (d : ExpireDate) p,
    (t.chain.strikeSetRef d p).isSome → t.KeepsDate clock.filtered d → Within t.numberStrikes p
  empty : (∀ d : ExpireDate, t.chain.expirationSet[d]?.isSome → ¬ t.KeepsDate clock.filtered d) →
    ∀ c d p, t.Has c d p → 0 ≤ d → 0 ≤ (addSeconds clock.bounded (366 * 24 * 60 * 60)).compare d.dateTime →
      ¬ Within t.takenStrikes p

theorem compare_dateTime_lt_zero {time : DateTime} {d : Int} :
    time.compare (dateTime d) < 0 ↔ time.seconds < d ∨ time.seconds = d ∧ time.nanoseconds ≠ 0 := by
  unfold DateTime.compare DateTime.equal dateTime
  simp only [Bool.and_eq_true, beq_iff_eq]
  split
  · omega
  · split
    · omega
    · omega

theorem leavesDate_iff (d : Int) :
    t.LeavesDate now d ↔ t.KeepsDate now d ∧
      (0 < t.view.expirationDays → now.nanoseconds ≠ 0 → d ≠ (t.lastDay now).seconds) := by
  unfold System.LeavesDate System.KeepsDate
  by_cases hdays : 0 < t.view.expirationDays
  · have hnano : (t.lastDay now).nanoseconds = now.nanoseconds := rfl
    rw [if_pos hdays, if_pos hdays, compare_dateTime_lt_zero]
    omega
  · simp [hdays]

theorem leavesDate_mono {d d' : Int} (hle : d ≤ d') (hd : t.chain.expirationSet[d]?.isSome)
    (hd' : t.chain.expirationSet[d']?.isSome) (h : t.LeavesDate now d') : t.LeavesDate now d := by
  unfold System.LeavesDate System.KeepsDate at h ⊢
  split
  next hdays =>
    rw [if_pos hdays, compare_dateTime_lt_zero] at h
    rw [compare_dateTime_lt_zero]
    omega
  next hdays =>
    rw [if_neg hdays, if_neg hdays] at h
    split
    next hnum =>
      rw [if_pos hnum] at h
      cases hlast : (t.chain.expirationSet.keys.take t.view.numExpirations.toNat).getLast? with
      | none =>
        rw [getLast?_eq_none_iff] at hlast
        rw [hlast] at h
        cases h
      | some _ =>
        have hsorted := sorted_keys t.chain.expirationSet
        rw [mem_take_iff hsorted hlast (mem_keys_iff.mpr hd')] at h
        rw [mem_take_iff hsorted hlast (mem_keys_iff.mpr hd)]
        exact hle.trans h
    · trivial

theorem isVisible_iff {v : View} {c : Contract} (hd : c.expireDate = some d) (hp : c.strikePrice = some p) :
    v.isVisible c ↔
      v.lowExpireDate.compare d.dateTime ≤ 0 ∧ 0 ≤ v.highExpireDate.compare d.dateTime ∧
        v.lowStrike ≤ p ∧ p ≤ v.highStrike := by
  simp [View.isVisible, Contract.getExpireDate, Contract.getStrikePrice, hd, hp, and_assoc]

theorem le_getLast_of_sorted {dates : List ExpireDate} (hsorted : dates.Pairwise (· < ·)) {last : ExpireDate}
    (hd : d ∈ dates) (hlast : dates.getLast? = some last) : d ≤ last := by
  have hall : dates.take dates.length = dates := take_length
  rw [← hall] at hlast
  exact (mem_take_iff hsorted hlast hd).mp (hall.symm ▸ hd)

theorem head_le_of_sorted {dates : List ExpireDate} (hsorted : dates.Pairwise (· < ·)) {first : ExpireDate}
    (hd : d ∈ dates) (hfirst : dates.head? = some first) : first ≤ d := by
  cases dates with
  | nil => cases hd
  | cons first' _ =>
    obtain rfl : first' = first := some.inj hfirst
    rcases mem_cons.mp hd with rfl | hd
    · exact le_rfl
    · exact ((pairwise_cons.mp hsorted).1 d hd).le

theorem isSome_of_strikeSetRef {ch : Chain R} (h : (ch.strikeSetRef d p).isSome) : ch.expirationSet[d]?.isSome := by
  cases hd : ch.expirationSet[d]? with
  | none => simp [Chain.strikeSetRef, hd] at h
  | some r => rfl

theorem Reset.visible_iff (hr : Reset clock t t') (h : Sound t) {c : Contract} (hc : t.Has c d p) :
    t'.view.isVisible c ↔
      (t'.view.expirationDateSet[d]?.isSome ∨
        t'.view.expirationDateSet.keys = [] ∧ 0 ≤ d ∧
          0 ≤ (addSeconds clock.bounded (366 * 24 * 60 * 60)).compare d.dateTime) ∧ Within t.takenStrikes p := by
  obtain ⟨hlisted, hmin, hmax⟩ := h.listed c d p hc
  obtain ⟨-, -, -, -, hdate, hprice⟩ := hc
  have hexpires := isSome_of_strikeSetRef hlisted
  rw [isVisible_iff hdate hprice, ← and_assoc, hr.strikeBounds p hmin hmax, hr.lowExpireDate, hr.highExpireDate]
  apply and_congr_left'
  cases hkeys : t'.view.expirationDateSet.keys with
  | nil =>
    have hnone : ¬ t'.view.expirationDateSet[d]?.isSome := by
      rw [← mem_keys_iff, hkeys]
      simp
    have hepoch : ({} : DateTime).compare d.dateTime ≤ 0 ↔ 0 ≤ d := compare_dateTime_nonpos (d := 0)
    rw [or_iff_right hnone, ← hepoch]
    simp only [head?_nil, getLast?_nil, map_none, getD_none, true_and]
  | cons first rest =>
    obtain ⟨last, hlast⟩ : ∃ last, (first :: rest).getLast? = some last :=
      ⟨_, getLast?_eq_some_getLast (cons_ne_nil first rest)⟩
    have hsorted := sorted_keys t'.view.expirationDateSet
    rw [hkeys] at hsorted
    have hhigh : 0 ≤ last.dateTime.compare d.dateTime ↔ d ≤ last := by rw [← not_lt, compare_dateTime_neg, not_lt]
    rw [hlast]
    simp only [head?_cons, map_some, getD_some, reduceCtorEq, false_and, or_false]
    rw [compare_dateTime_nonpos, hhigh]
    constructor
    · rintro ⟨-, hle⟩
      have hmem : t'.view.expirationDateSet[last]?.isSome := mem_keys_iff.mp (hkeys ▸ mem_of_getLast? hlast)
      obtain ⟨hin, hleaves⟩ := (hr.dates last).mp hmem
      exact (hr.dates d).mpr ⟨hexpires, leavesDate_mono hle hexpires hin hleaves⟩
    · intro hmem
      have hd : d ∈ first :: rest := hkeys ▸ mem_keys_iff.mpr hmem
      exact ⟨head_le_of_sorted hsorted hd rfl, le_getLast_of_sorted hsorted hd hlast⟩

theorem takenStrikes_cases (t : System R) :
    t.takenStrikes = t.rangeStrikes ∨
      t.percentStrikes = [] ∧ t.view.numExpirations ≤ 0 ∧ t.takenStrikes = [] ∧ t.rangeStrikes = t.numberStrikes := by
  unfold takenStrikes rangeStrikes
  by_cases hpercent : t.percentStrikes = []
  · by_cases hnum : 0 < t.view.numExpirations
    · simp [hpercent, hnum]
    · simp [hpercent, hnum, not_lt.mp hnum]
  · simp [hpercent]

theorem within_nil (p : Rat) : Within [] p := by simp [Within]

theorem Reset.shows_iff (hr : Reset clock t t') (h : Sound t) : Shows clock.filtered t t' ↔ t.Shown clock := by
  constructor
  · intro hshows
    refine ⟨fun hdays hnano => ?_, fun hpercent hnum d p hlisted hkeeps => ?_,
      fun hnone c d p hc hepoch hyear hwithin => ?_⟩
    · rw [eq_none_iff_forall_ne_some]
      intro r hlast
      have hkeeps : t.KeepsDate clock.filtered (t.lastDay clock.filtered).seconds := by
        rw [System.KeepsDate, if_pos hdays]
      have hin := (hshows.dates _).mpr ⟨by rw [hlast]; rfl, hkeeps⟩
      exact ((leavesDate_iff _).mp ((hr.dates _).mp hin).2).2 hdays hnano rfl
    · have hin := (hshows.dates d).mpr ⟨isSome_of_strikeSetRef hlisted, hkeeps⟩
      have htaken : t.takenStrikes = [] := by simp [takenStrikes, hpercent, not_lt.mpr hnum]
      have hrange : t.rangeStrikes = t.numberStrikes := by simp [rangeStrikes, hpercent]
      have hlists := (hr.strikes d p hin).mpr ⟨hlisted, htaken ▸ within_nil p⟩
      exact hrange ▸ ((hshows.strikes d p hin).mp hlists).2
    · have hempty : ∀ d : ExpireDate, ¬ t'.view.expirationDateSet[d]?.isSome := fun d hd =>
        hnone d ((hshows.dates d).mp hd).1 ((hshows.dates d).mp hd).2
      have hkeys := eq_nil_iff_forall_not_mem.mpr fun d hd => hempty d (mem_keys_iff.mp hd)
      have hvisible := (hr.visible_iff h hc).mpr ⟨.inr ⟨hkeys, hepoch, hyear⟩, hwithin⟩
      obtain ⟨r, hset, -⟩ := (hshows.visible c d p hc).mp hvisible
      exact hempty d (by rw [hset]; rfl)
  · intro hshown
    have hdates : ∀ d : ExpireDate, t'.view.expirationDateSet[d]?.isSome ↔
        t.chain.expirationSet[d]?.isSome ∧ t.KeepsDate clock.filtered d := by
      intro d
      rw [hr.dates]
      refine and_congr_right fun hin => ?_
      rw [leavesDate_iff, and_iff_left_iff_imp]
      rintro - hdays hnano rfl
      rw [hshown.days hdays hnano] at hin
      cases hin
    refine ⟨hdates, fun d p hd => ?_, fun c d p hc => ?_, hr.extends_chain.expirationSet,
      hr.extends_chain.strikeSetRef h.owned, by rw [hr.extends_chain.rest]⟩
    · rw [hr.strikes d p hd]
      refine and_congr_right fun hlisted => ?_
      rcases takenStrikes_cases t with heq | ⟨hpercent, hnum, htaken, hrange⟩
      · rw [heq]
      · rw [htaken, hrange]
        exact iff_of_true (within_nil p) (hshown.number hpercent hnum d p hlisted ((hdates d).mp hd).2)
    · rw [hr.visible_iff h hc]
      constructor
      · rintro ⟨hin | ⟨hkeys, hepoch, hyear⟩, hwithin⟩
        · exact (hr.strikes d p hin).mpr ⟨(h.listed c d p hc).1, hwithin⟩
        · refine absurd hwithin (hshown.empty (fun d' hd' hkeeps => ?_) c d p hc hepoch hyear)
          have hmem := mem_keys_iff.mpr ((hdates d').mpr ⟨hd', hkeeps⟩)
          rw [hkeys] at hmem
          cases hmem
      · intro hlists
        have hin : t'.view.expirationDateSet[d]?.isSome := by
          obtain ⟨r, hset, -⟩ := hlists
          rw [hset]
          rfl
        exact ⟨.inl hin, ((hr.strikes d p hin).mp hlists).2⟩

/-! ### Whole runs -/

theorem Extends.owned {ch ch' : Chain R} (h : Extends ch ch') (howned : ch.Owned) : ch'.Owned := by
  have hset := h.expirationSet
  have href := h.strikeSetRef howned
  have hnext : ch'.nextStrikeSet = ch.nextStrikeSet := by rw [h.rest]
  refine ⟨fun hr => ?_, fun hr hr' => ?_, fun hq => ?_, fun hq hq' => ?_⟩
  · rw [hset] at hr
    exact (howned.strikes_lt hr).trans_le h.nextStrikes
  · rw [hset] at hr hr'
    exact howned.strikes_inj hr hr'
  · rw [href] at hq
    exact hnext ▸ howned.set_lt hq
  · rw [href] at hq hq'
    exact howned.set_inj hq hq'

theorem Sound.resetRange (h : Sound t) (hreset : t.resetRange clock = some t') : Sound t' := by
  obtain ⟨hextends, hadded⟩ := resetRange_extends h.owned hreset
  refine ⟨hextends.owned h.owned, fun p hp => ?_, fun c d p hc => ?_⟩
  · rw [hextends.rest] at hp
    exact h.prices p hp
  · have hcontract : t'.chain.contract = t.chain.contract := by rw [hextends.rest]
    rw [System.Has, hadded, hcontract] at hc
    rw [hextends.strikeSetRef h.owned]
    exact h.listed c d p hc

variable [DecidableEq R]

def ViewOp.Positive : ViewOp R → Prop
  | .addContract _ contract => ∀ p ∈ contract.strikePrice, dblMin ≤ p ∧ p ≤ dblMax
  | _ => True

omit [DecidableEq R] in
theorem Sound.of_chain (h : Sound t) (hchain : t'.chain = t.chain) (hadded : t'.added = t.added) : Sound t' := by
  refine ⟨hchain ▸ h.owned, fun p hp => h.prices p (hchain ▸ hp), fun c d p hc => ?_⟩
  rw [System.Has, hchain, hadded] at hc
  rw [hchain]
  exact h.listed c d p hc

omit [DecidableEq R] in
theorem prepare_eq {op : ViewOp R} (hprepare : s.prepare op = some (clock, t)) :
    t.chain = s.chain ∧ t.added = s.added := by
  cases op with
  | setAtTheMoneyType | setStrikeRangePercent | setStrikeRangeNumber =>
    rw [prepare] at hprepare
    split at hprepare
    · cases hprepare
      exact ⟨rfl, rfl⟩
    · cases hprepare
  | setExpirationRangeDays | setNumberOfExpirations | onOptionContractCreate =>
    cases hprepare
    exact ⟨rfl, rfl⟩
  | setUnderlying | addContract => cases hprepare

theorem addContract_cases (h : Sound t) {r : R} {contract : Contract} (hadd : t.addContract r contract = some t') :
    t'.added = r :: t.added ∧ t'.chain.contract = update t.chain.contract r contract ∧ t'.chain.Owned ∧
      (∀ d p, (t.chain.strikeSetRef d p).isSome → (t'.chain.strikeSetRef d p).isSome) ∧
      (∀ p ∈ t'.chain.strikePrices, p ∈ t.chain.strikePrices ∨ contract.strikePrice = some p) ∧
      (contract.recapRequired = false → ∀ d p, contract.expireDate = some d → contract.strikePrice = some p →
        (t'.chain.strikeSetRef d p).isSome) := by
  obtain ⟨_, hprocess, rfl⟩ := map_eq_some_iff.mp hadd
  let base := { t.chain with contract := update t.chain.contract r contract }
  have howned : base.Owned := { h.owned with }
  have hcontract : base.contract r = contract := update_self ..
  cases hrecap : contract.recapRequired with
  | true =>
    rw [Chain.processNewContractDetails, hcontract, hrecap] at hprocess
    cases hprocess
    exact ⟨rfl, rfl, howned, fun _ _ hd => hd, fun _ hp => .inl hp, by simp⟩
  | false =>
    rcases Chain.processNewContractDetails_spec howned (hcontract.symm ▸ hrecap) with
      ⟨hnone, -⟩ | ⟨-, ch', hsome, hprocessed⟩
    · cases hnone.symm.trans hprocess
    · cases hsome.symm.trans hprocess
      have hprices := hprocessed.strikePrices
      have hstrikes := hprocessed.strikes
      rw [hcontract] at hprices hstrikes
      exact ⟨rfl, hprocessed.contract, hprocessed.owned,
        fun d p hd => (hstrikes d p).mpr (.inl hd), fun p hp => (hprices p).mp hp,
        fun _ d p hd hp => (hstrikes d p).mpr (.inr ⟨hd, hp⟩)⟩

theorem Sound.addContract (h : Sound t) {r : R} {contract : Contract}
    (hpos : ∀ p ∈ contract.strikePrice, dblMin ≤ p ∧ p ≤ dblMax) (hadd : t.addContract r contract = some t') :
    Sound t' := by
  obtain ⟨hadded, hcontract, howned, hkept, hprices, hnew⟩ := addContract_cases h hadd
  refine ⟨howned, fun p hp => ?_, fun c d p hc => ?_⟩
  · rcases hprices p hp with hold | hprice
    · exact h.prices p hold
    · exact (hpos p hprice).2
  · obtain ⟨r', hr', hc', hrecap, hdate, hprice⟩ := hc
    rw [hcontract] at hc'
    by_cases heq : r' = r
    · subst heq
      rw [update_self] at hc'
      subst hc'
      exact ⟨hnew hrecap d p hdate hprice, hpos p hprice⟩
    · rw [update_of_ne heq] at hc'
      have hmem : r' ∈ t.added := by
        rw [hadded] at hr'
        exact (mem_cons.mp hr').resolve_left heq
      obtain ⟨hsome, hbounds⟩ := h.listed c d p ⟨r', hmem, hc', hrecap, hdate, hprice⟩
      exact ⟨hkept d p hsome, hbounds⟩

theorem Sound.step {s' : System R} (h : Sound s) {op : ViewOp R} (hop : op.Positive) (hstep : s.step op = some s') :
    Sound s' := by
  unfold System.step at hstep
  cases hprepare : s.prepare op with
  | some _ =>
    rw [hprepare] at hstep
    obtain ⟨hchain, hadded⟩ := prepare_eq hprepare
    exact (h.of_chain hchain hadded).resetRange hstep
  | none =>
    rw [hprepare] at hstep
    cases op with
    | setUnderlying _ =>
      cases hstep
      exact h.of_chain rfl rfl
    | addContract r _ => exact h.addContract hop hstep
    | _ =>
      cases hstep
      exact h

omit [DecidableEq R] in
theorem sound_init (contract : R → Contract) : Sound (init contract) := by
  have hempty : ∀ d : ExpireDate, (init contract).chain.expirationSet[d]? = none := fun d => by
    simp [init]
  have hunlisted : ∀ d p, (init contract).chain.strikeSetRef d p = none := fun d p => by
    rw [Chain.strikeSetRef, hempty]
    rfl
  refine ⟨⟨by simp [hempty], by simp [hempty], by simp [hunlisted], by simp [hunlisted]⟩, fun p hp => ?_,
    fun c d p hc => ?_⟩
  · simp [init] at hp
  · obtain ⟨r, ⟨⟩, -⟩ := hc

theorem Sound.run {ops : List (ViewOp R)} {s' : System R} (h : Sound s) (hops : ∀ op ∈ ops, op.Positive)
    (hrun : ops.foldlM System.step s = some s') : Sound s' := by
  induction ops generalizing s with
  | nil =>
    cases hrun
    exact h
  | cons _ _ ih =>
    rw [forall_mem_cons] at hops
    obtain ⟨_, hstep, hrest⟩ := bind_eq_some_iff.mp hrun
    exact ih (h.step hops.1 hstep) hops.2 hrest

end

def tenthDayCall (strike : Rat) : Contract where
  symbol := "O"
  exchange := "X"
  expireDate := some 864000
  strikePrice := some strike
  putCall := some .call

def twoCalls : List (ViewOp Nat) :=
  [.setUnderlying { quoteListener := .to ⟨99, 101⟩ }, .addContract 0 (tenthDayCall 90),
    .addContract 1 (tenthDayCall 110)]

def twoCallSystem : System Nat :=
  (twoCalls.foldlM System.step (System.init fun _ => tenthDayCall 0)).getD (System.init fun _ => tenthDayCall 0)

theorem foldlM_twoCalls : twoCalls.foldlM step (init fun _ => tenthDayCall 0) = some twoCallSystem := by
  have hsome : (twoCalls.foldlM step (init fun _ => tenthDayCall 0)).isSome := by decide +kernel
  obtain ⟨s, -⟩ := isSome_iff_exists.mp hsome
  rfl

theorem positive_twoCalls : ∀ op ∈ twoCalls, op.Positive := by
  simp only [twoCalls, forall_mem_cons, ViewOp.Positive, tenthDayCall, mem_def, some.injEq, true_and]
  refine ⟨?_, ?_, nofun⟩
  · rintro p rfl
    decide +kernel
  · rintro p rfl
    decide +kernel

def twoCallPercent : System Nat :=
  { twoCallSystem with view := { twoCallSystem.view with strikeMargin := 20 } }

end OpenMama.Options
