import OpenMama.Mama.Base

/-!
# The arithmetic of date-times

`datetime.c` compares, shifts and splits the seconds of a date-time. The comparison tells two date-times of one second
apart only by whether they are equal; seconds are carried in 32 bits in places; and the division of C takes a time
before 1970 for one of the next day.
-/

namespace OpenMama.DateTime

def getMicroSeconds (t : DateTime) : Nat := t.nanoseconds / 1000

/-! ### Order -/

/-- `mamaDateTime_getEpochTimeMicroseconds`, in 64 unsigned bits. -/
def getEpochTimeMicroseconds (t : DateTime) : Int := (1000000 * t.seconds + t.getMicroSeconds) % 2 ^ 64

def diffMicroseconds (t₁ t₀ : DateTime) : Int :=
  (t₁.getEpochTimeMicroseconds.bmod (2 ^ 64) - t₀.getEpochTimeMicroseconds.bmod (2 ^ 64)).bmod (2 ^ 64)

def Later (a b : DateTime) : Prop := b.seconds < a.seconds ∨ b.seconds = a.seconds ∧ b.nanoseconds < a.nanoseconds

structure Ordered (a b : DateTime) : Prop where
  antisymm : b.compare a = - a.compare b
  equal : a.compare b = 0 ↔ a.equal b
  later : 0 < a.compare b ↔ Later a b
  diff : a.diffMicroseconds b ≠ 0 → (a.diffMicroseconds b).sign = a.compare b

def microsBetween (a b : DateTime) : Int :=
  1000000 * a.seconds + a.getMicroSeconds - (1000000 * b.seconds + b.getMicroSeconds)

def Told (a b : DateTime) : Prop := a.seconds = b.seconds → a.nanoseconds = b.nanoseconds

/-- A difference that goes around 64 bits lies in the half of its sign again. -/
structure KeepsSign (d : Int) : Prop where
  pos : 0 < d → d % 2 ^ 64 < 2 ^ 63
  neg : d < 0 → d % 2 ^ 64 = 0 ∨ 2 ^ 63 ≤ d % 2 ^ 64

/-- Nothing is left to the nanoseconds, and the exact difference keeps its sign. -/
structure Comparable (a b : DateTime) : Prop where
  told : Told a b
  micros : KeepsSign (microsBetween a b)

variable {a b c : DateTime}

theorem diffMicroseconds_eq (a b : DateTime) : a.diffMicroseconds b = (microsBetween a b).bmod (2 ^ 64) := by
  have hbits (x : Int) : (x % 2 ^ 64).bmod (2 ^ 64) = x.bmod (2 ^ 64) := Int.emod_bmod x (2 ^ 64)
  rw [diffMicroseconds, getEpochTimeMicroseconds, getEpochTimeMicroseconds, hbits, hbits, Int.sub_bmod_bmod,
    Int.bmod_sub_bmod]
  rfl

theorem compare_eq (h : Told a b) : a.compare b = (a.seconds - b.seconds).sign := by
  have hequal : a.equal b = decide (a.seconds = b.seconds) := by grind [equal, Told]
  rw [compare, hequal]
  rcases Int.lt_trichotomy a.seconds b.seconds with hlt | heq | hgt
  · rw [Int.sign_eq_neg_one_of_neg (by omega)]
    grind
  · simp [heq]
  · rw [Int.sign_eq_one_of_pos (by omega), if_pos hgt]

theorem sign_microsBetween (h : Told a b) (ha : a.nanoseconds < 10 ^ 9) (hb : b.nanoseconds < 10 ^ 9) :
    (microsBetween a b).sign = (a.seconds - b.seconds).sign := by
  simp only [microsBetween, getMicroSeconds]
  rcases Int.lt_trichotomy a.seconds b.seconds with hlt | heq | hgt
  · rw [Int.sign_eq_neg_one_of_neg (by omega), Int.sign_eq_neg_one_of_neg (by omega)]
  · rw [heq, h heq, Int.sub_self, Int.sub_self]
  · rw [Int.sign_eq_one_of_pos (by omega), Int.sign_eq_one_of_pos (by omega)]

theorem keepsSign_iff (d : Int) : KeepsSign d ↔ (d.bmod (2 ^ 64) ≠ 0 → (d.bmod (2 ^ 64)).sign = d.sign) := by
  have hsign (x : Int) : x.sign = if 0 < x then 1 else if x < 0 then -1 else 0 := by
    rcases Int.lt_trichotomy x 0 with hlt | rfl | hgt
    · rw [Int.sign_eq_neg_one_of_neg hlt, if_neg (by omega), if_pos hlt]
    · rfl
    · rw [Int.sign_eq_one_of_pos hgt, if_pos hgt]
  rw [hsign, hsign, Int.bmod_def]
  constructor
  · rintro ⟨hpos, hneg⟩ hne
    grind
  · intro h
    constructor <;> grind

theorem keepsSign_of_fits {d : Int} (hge : -2 ^ 63 ≤ d) (hlt : d < 2 ^ 63) : KeepsSign d := by
  constructor <;> omega

/-- Two date-times are in order exactly when they are comparable, and those are in a chain. Up to a difference of 63
bits they are comparable when they have the same nanoseconds in the same second. -/
theorem ordered_iff (a b : DateTime) (ha : a.nanoseconds < 10 ^ 9) (hb : b.nanoseconds < 10 ^ 9) :
    (Ordered a b ↔ Comparable a b) ∧
      (-2 ^ 63 ≤ microsBetween a b → microsBetween a b < 2 ^ 63 → (Comparable a b ↔ Told a b)) ∧
      ∀ c r, Comparable a b → Comparable b c → a.compare b = r → b.compare c = r → a.compare c = r := by
  refine ⟨⟨fun h => ?_, fun h => ?_⟩, fun hge hlt => ⟨Comparable.told, fun h => ⟨h, keepsSign_of_fits hge hlt⟩⟩,
    fun c r hab hbc h h' => ?_⟩
  · have htold : Told a b := fun heq => by
      have hanti := h.antisymm
      by_contra hne
      simp [compare, equal, heq, hne, Ne.symm hne] at hanti
    have hdiff := h.diff
    rw [diffMicroseconds_eq, compare_eq htold, ← sign_microsBetween htold ha hb] at hdiff
    exact ⟨htold, (keepsSign_iff _).mpr hdiff⟩
  · have htold := h.told
    have hsymm : Told b a := fun heq => (htold heq.symm).symm
    constructor
    · rw [compare_eq htold, compare_eq hsymm, ← Int.sign_neg, Int.neg_sub]
    · rw [compare_eq htold, Int.sign_eq_zero_iff_zero]
      grind [equal, Told]
    · rw [compare_eq htold, Int.sign_pos_iff]
      grind [Later, Told]
    · rw [diffMicroseconds_eq, compare_eq htold, ← sign_microsBetween htold ha hb]
      exact (keepsSign_iff _).mp h.micros
  · have htold := hab.told
    have htold' := hbc.told
    grind [compare, DateTime.equal, Told]

theorem ordered_beforeEpoch : Ordered { seconds := -1 } { seconds := -2, nanoseconds := 5000 } :=
  (ordered_iff _ _ (by decide) (by decide)).1.mpr ⟨nofun, by decide, by decide⟩

theorem not_ordered_sameSecond : ¬ Ordered { seconds := 0, nanoseconds := 500000000 } { seconds := 0 } :=
  fun h => nomatch h.antisymm

def setHasDate (t : DateTime) : DateTime := { t with hints := t.hints ||| 1 }

def setHasTime (t : DateTime) : DateTime := { t with hints := t.hints ||| 2 }

theorem trunc_split (x : Int) {d : Int} (hd : 0 < d) : d * x.tdiv d + x.tmod d = x ∧ x.tmod d < d ∧ -d < x.tmod d ∧
    (0 ≤ x → 0 ≤ x.tmod d) ∧ (x ≤ 0 → x.tmod d ≤ 0) := by
  refine ⟨Int.mul_tdiv_add_tmod x d, Int.tmod_lt_of_pos x hd, Int.lt_tmod_of_pos x hd, Int.tmod_nonneg d, fun hx => ?_⟩
  have hneg := Int.tmod_nonneg d (Int.neg_nonneg_of_nonpos hx)
  rw [Int.neg_tmod] at hneg
  omega

/-- `mamaDateTime_addWholeSeconds`, whose argument has 32 bits. -/
def addWholeSeconds (t : DateTime) (addSeconds : Int) : DateTime :=
  if addSeconds.bmod (2 ^ 32) = 0 then t
  else setHasTime { t with seconds := t.seconds + addSeconds.bmod (2 ^ 32) }

def carry (micros : Int) : Int × Int :=
  if 1000000 ≤ micros then (micros.tdiv 1000000, micros.tmod 1000000)
  else if micros < 0 then
    let rest := micros.tmod 1000000
    (if -1000000 ≤ micros then -1 else micros.tdiv 1000000 - 1, if rest < 0 then rest + 1000000 else rest)
  else (0, micros)

def addMicroseconds (t : DateTime) (addMicroseconds : Int) : DateTime :=
  if addMicroseconds = 0 then t
  else
    let (seconds, micros) := carry (addMicroseconds + t.getMicroSeconds)
    setHasTime { t.addWholeSeconds seconds with nanoseconds := micros.toNat * 1000 }

def instant (t : DateTime) : Int := 1000000000 * t.seconds + t.nanoseconds

def Shifts (t : DateTime) (a : Int) : Prop := (t.addMicroseconds a).instant = t.instant + 1000 * a

/-- There are no digits below the microseconds, the seconds to carry have 32 bits, and they are not two or more that
are borrowed without a rest. -/
structure Carries (t : DateTime) (a : Int) : Prop where
  whole : t.nanoseconds % 1000 = 0
  carried : a + t.getMicroSeconds < 2 ^ 31 * 1000000
  borrowed : a + t.getMicroSeconds < -1000000 → (a + t.getMicroSeconds) % 1000000 ≠ 0

theorem carry_spec (micros : Int) : 0 ≤ (carry micros).2 ∧ (carry micros).2 < 1000000 ∧
    1000000 * (carry micros).1 + (carry micros).2 =
      micros - if micros < -1000000 ∧ micros % 1000000 = 0 then 1000000 else 0 := by
  obtain ⟨hsplit, hlt, hgt, hpos, hneg⟩ := trunc_split micros (show (0 : Int) < 1000000 by decide)
  grind [carry]

theorem addMicroseconds_eq (t : DateTime) {a : Int} (ha : a ≠ 0) :
    (t.addMicroseconds a).seconds = t.seconds + (carry (a + t.getMicroSeconds)).1.bmod (2 ^ 32) ∧
      ((t.addMicroseconds a).nanoseconds : Int) = 1000 * (carry (a + t.getMicroSeconds)).2 := by
  have hcarry := (carry_spec (a + t.getMicroSeconds)).1
  rw [addMicroseconds, if_neg ha]
  refine ⟨?_, by simp only [setHasTime]; omega⟩
  simp only [setHasTime, addWholeSeconds]
  split
  next h => rw [h, Int.add_zero]
  next => rfl

theorem shifts_iff_carries {t : DateTime} {a : Int} (ht : t.nanoseconds < 10 ^ 9) (ha : a.natAbs < 2 ^ 31 * 1000000) :
    Shifts t a ↔ a ≠ 0 → Carries t a := by
  by_cases hzero : a = 0
  · simp [Shifts, addMicroseconds, hzero]
  obtain ⟨hseconds, hnanos⟩ := addMicroseconds_eq t hzero
  obtain ⟨hnonneg, hlt, hsum⟩ := carry_spec (a + t.getMicroSeconds)
  have hmicros : t.nanoseconds = 1000 * t.getMicroSeconds + t.nanoseconds % 1000 := (Nat.div_add_mod ..).symm
  rw [Shifts, instant, instant, hseconds, hnanos]
  generalize carry (a + t.getMicroSeconds) = carried at hnonneg hlt hsum
  have hus : t.getMicroSeconds < 1000000 := by omega
  have hbits : carried.1.bmod (2 ^ 32) = if carried.1 < 2 ^ 31 then carried.1 else carried.1 - 2 ^ 32 := by
    grind [Int.bmod]
  constructor
  · intro h _
    exact ⟨by grind, by grind, by grind⟩
  · intro h
    obtain ⟨hwhole, hcarried, hborrowed⟩ := h hzero
    grind

theorem nanoseconds_addMicroseconds_lt {t : DateTime} (ht : t.nanoseconds < 10 ^ 9) (a : Int) :
    (t.addMicroseconds a).nanoseconds < 10 ^ 9 := by
  by_cases ha : a = 0
  · rwa [addMicroseconds, if_pos ha]
  have hnanos := (addMicroseconds_eq t ha).2
  have hlt := (carry_spec (a + t.getMicroSeconds)).2.1
  omega

/-- Microseconds are added exactly where they carry, and then one amount after another is their sum. -/
theorem addMicroseconds_iff (t : DateTime) (a : Int) (ht : t.nanoseconds < 10 ^ 9) (ha : a.natAbs < 2 ^ 31 * 1000000) :
    (Shifts t a ↔ a ≠ 0 → Carries t a) ∧ (t.addMicroseconds a).nanoseconds < 10 ^ 9 ∧
      ∀ b : Int, b.natAbs < 2 ^ 31 * 1000000 → (a + b).natAbs < 2 ^ 31 * 1000000 → (a ≠ 0 → Carries t a) →
        (b ≠ 0 → Carries (t.addMicroseconds a) b) → (a + b ≠ 0 → Carries t (a + b)) →
        ((t.addMicroseconds a).addMicroseconds b).instant = (t.addMicroseconds (a + b)).instant := by
  have hlt := nanoseconds_addMicroseconds_lt ht a
  refine ⟨shifts_iff_carries ht ha, hlt, fun b hb hab ha' hb' hab' => ?_⟩
  have hfirst : Shifts t a := (shifts_iff_carries ht ha).mpr ha'
  have hsecond : Shifts (t.addMicroseconds a) b := (shifts_iff_carries hlt hb).mpr hb'
  have hboth : Shifts t (a + b) := (shifts_iff_carries ht hab).mpr hab'
  rw [Shifts] at hfirst hsecond hboth
  omega

theorem addMicroseconds_borrowed : Shifts { seconds := 5, nanoseconds := 1000 } (-2000002) :=
  (addMicroseconds_iff _ _ (by decide) (by decide)).1.mpr fun _ => ⟨by decide, by decide, by decide⟩

theorem not_shifts_twoSeconds : ¬ Shifts { seconds := 5 } (-2000000) := by
  unfold Shifts
  decide

/-! ### Date and time -/

def day (t : DateTime) : Int := t.seconds / 86400

def timeOfDay (t : DateTime) : Int := t.seconds % 86400

/-- `makeTime` at midnight, with the day number of a date as `wtimegm` gives it. -/
def makeTime (dayNumber : Nat → Nat → Nat → Int) (year month day : Nat) : Int :=
  86400 * dayNumber (if 1900 ≤ year then year else 1970) (max 1 month) (max 1 day)

inductive Edit where
  | setDate (year month day : Nat)
  | copyDate (src : DateTime)
  | setTime (hour minute second microsecond precision : Nat)
  | copyTime (src : DateTime)
  | clearDate
  | clearTime

def edit (dayNumber : Nat → Nat → Nat → Int) (t : DateTime) : Edit → Option DateTime
  | .setDate year month day =>
    if year < 1900 ∨ makeTime dayNumber year month day = -1 then none
    else some (setHasDate { t with seconds := t.seconds.tmod 86400 + makeTime dayNumber year month day })
  | .copyDate src =>
    some (setHasDate { t with seconds := t.seconds.tmod 86400 + src.seconds.tdiv 86400 * 86400 })
  | .setTime hour minute second microsecond precision =>
    if 1000000 ≤ microsecond then none
    else
      -- `tmpSeconds` has 32 bits.
      let tmpSeconds := (t.seconds.tdiv 86400 * 86400).bmod (2 ^ 32)
      some (setHasTime { t with
        seconds := (tmpSeconds + (second + 60 * (minute + 60 * hour) : Nat)).bmod (2 ^ 32)
        nanoseconds := microsecond * 1000
        precision })
  | .copyTime src =>
    some (setHasTime { t with
      seconds := t.seconds.tdiv 86400 * 86400 + src.seconds.tmod 86400
      nanoseconds := src.getMicroSeconds * 1000 })
  | .clearDate => some { t with seconds := t.seconds.tmod 86400, hints := t.hints &&& 254 }
  | .clearTime => some { t with seconds := t.seconds.tdiv 86400 * 86400, nanoseconds := 0, hints := t.hints &&& 253 }

/-- The part that a call is not about is as it was, and a time is the one asked for. -/
def Keeps (t r : DateTime) : Edit → Prop
  | .setDate .. | .copyDate _ | .clearDate => r.timeOfDay = t.timeOfDay
  | .setTime hour minute second _ _ => r.day = t.day ∧ r.timeOfDay = (second + 60 * (minute + 60 * hour) : Nat)
  | .copyTime src => r.day = t.day ∧ r.timeOfDay = src.timeOfDay
  | .clearTime => r.day = t.day

def Edit.Valid : Edit → Prop
  | .setTime hour minute second _ _ => hour < 24 ∧ minute < 60 ∧ second < 60
  | _ => True

/-- Before 1970 and not at midnight: C's division takes the time for one of the following day. -/
def Early (t : DateTime) : Prop := t.seconds < 0 ∧ t.timeOfDay ≠ 0

def Splits (t : DateTime) : Edit → Prop
  | .setDate .. | .copyDate _ | .clearDate => True
  | .clearTime => ¬ Early t
  | .copyTime src => Early t ↔ Early src
  | .setTime hour minute second _ _ => ¬ Early t ∧
    -2 ^ 31 ≤ 86400 * t.day + (second + 60 * (minute + 60 * hour) : Nat) ∧
      86400 * t.day + (second + 60 * (minute + 60 * hour) : Nat) < 2 ^ 31

/-- A call keeps the other part of the instant exactly when `Splits` says so: a new date always does. -/
theorem keeps_iff (dayNumber : Nat → Nat → Nat → Int) (t r : DateTime) (e : Edit) (he : e.Valid)
    (hr : edit dayNumber t e = some r) : Keeps t r e ↔ Splits t e := by
  have hd : (0 : Int) < 86400 := by decide
  have ht := trunc_split t.seconds hd
  cases e with
  | setDate year month day =>
    simp only [edit, Option.ite_none_left_eq_some, not_or, Option.some.injEq] at hr
    obtain ⟨-, rfl⟩ := hr
    simp only [Keeps, Splits, makeTime, setHasDate, timeOfDay]
    grind
  | setTime hour minute second microsecond precision =>
    simp only [edit, Option.ite_none_left_eq_some, Option.some.injEq] at hr
    obtain ⟨-, rfl⟩ := hr
    simp only [Keeps, Splits, Early, setHasTime, DateTime.day, timeOfDay, Edit.Valid, Int.bmod_add_bmod] at *
    generalize hx : t.seconds.tdiv 86400 * 86400 + (second + 60 * (minute + 60 * hour) : Nat) = x
    have hbits := Int.bmod_add_bdiv x (2 ^ 32)
    have hge := Int.le_bmod (x := x) (show 0 < 2 ^ 32 by decide)
    have hlt := Int.bmod_lt (x := x) (show 0 < 2 ^ 32 by decide)
    constructor <;> intro h <;> omega
  | copyDate src | copyTime src =>
    have hsrc := trunc_split src.seconds hd
    simp only [edit, Option.some.injEq] at hr
    subst hr
    simp only [Keeps, Splits, Early, setHasDate, setHasTime, DateTime.day, timeOfDay]
    grind
  | clearDate | clearTime =>
    simp only [edit, Option.some.injEq] at hr
    subst hr
    simp only [Keeps, Splits, Early, DateTime.day, timeOfDay]
    grind

theorem keeps_oldTime : Keeps { seconds := -86400 } { seconds := -86339, hints := 2 } (.setTime 0 1 1 0 0) :=
  (keeps_iff (fun _ _ _ => 0) _ _ (.setTime 0 1 1 0 0) (by simp [Edit.Valid]) rfl).mpr (by simp [Splits, Early, timeOfDay, day])

theorem not_keeps_in2038 : ∃ r, edit (fun _ _ _ => 0) { seconds := 2 ^ 31 } (.setTime 12 0 0 0 0) = some r ∧
    ¬ Keeps { seconds := 2 ^ 31 } r (.setTime 12 0 0 0 0) :=
  ⟨_, rfl, fun h => nomatch h.1⟩

end OpenMama.DateTime
