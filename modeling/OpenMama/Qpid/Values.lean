import OpenMama.Qpid.Payload

/-!
# Values in a payload

What is read of the atoms that a value was written as. Prices and vectors come back as they were. A date-time goes
through `mamaDateTime_getWithHints` and `mamaDateTime_setWithHints`, and comes back if it is `Packable`.
-/

namespace OpenMama.Qpid

open List

theorem micros_stamp (t : Time) : t.stamp.toUInt32 = t.micros := by
  apply UInt32.toBitVec_inj.mp
  simp [Time.stamp]

theorem seconds_stamp (t : Time) : (t.stamp >>> 32).toUInt32 = t.seconds := by
  apply UInt32.toBitVec_inj.mp
  ext i hi
  have hlow : ¬ 32 + i < 32 := by omega
  have hhigh : 32 + i < 64 := by omega
  have hwide : i < 64 := by omega
  simp [Time.stamp, hi, hlow, hhigh, hwide]

theorem pricesOf_atoms (prices : List Price) : pricesOf (prices.flatMap Price.atoms) = some prices := by
  induction prices with
  | nil => rfl
  | cons p _ ih => simp [Price.atoms, ubyteAtom, pricesOf, ih]

theorem timesOf_atoms (times : List Time) : timesOf (times.flatMap Time.atoms) = some times := by
  induction times with
  | nil => rfl
  | cons t _ ih => simp [Time.atoms, ubyteAtom, timesOf, ih, micros_stamp, seconds_stamp]

/-- The seconds have 32 bits, and after the first day there is a date. -/
def Packs (t : DateTime) : Prop := (0 ≤ t.seconds ∧ t.seconds < 2 ^ 32) ∧ (86400 < t.seconds → t.hints ||| 1 = t.hints)

/-- There is nothing below a microsecond, and the other parts have the bits they are packed into. -/
structure InMicros (t : DateTime) : Prop where
  micros : 1000 ∣ t.nanoseconds
  nanoseconds : t.nanoseconds < 10 ^ 9
  precision : t.precision < 2 ^ 8
  hints : t.hints < 2 ^ 8

/-- A date-time that comes back. -/
def Packable (t : DateTime) : Prop := InMicros t ∧ Packs t

section

variable {held : Time} (hheld : held.micros.toNat < 1000000) {t : DateTime} (ht : InMicros t)
include hheld

include ht in
theorem micros_getWithHints : (getWithHints held t).micros.toNat < 1000000 := by
  have hlt := ht.nanoseconds
  rw [getWithHints]
  split
  · rw [UInt32.toNat_ofNat', DateTime.getMicroSeconds]
    omega
  · exact hheld

include ht in
theorem setWithHints_getWithHints (result : DateTime) : setWithHints result (getWithHints held t) = t ↔ Packs t := by
  rw [setWithHints, if_neg (Nat.not_le.mpr (micros_getWithHints hheld ht)), getWithHints]
  obtain ⟨_, nanoseconds, _, hints⟩ := t
  obtain ⟨hmicros, hlt, hprecision, hhints⟩ := ht
  dsimp only at hmicros hlt
  split
  case isTrue hrange =>
    obtain ⟨n, rfl⟩ := Int.eq_ofNat_of_zero_le hrange.1
    have hseconds : n % 2 ^ 32 = n := Nat.mod_eq_of_lt (by dsimp only at hrange; omega)
    have hexact : 1000 * (nanoseconds / 1000 % 2 ^ 32) = nanoseconds := by omega
    simp only [UInt32.toNat_ofNat', UInt8.toNat_ofNat', Int.toNat_natCast, DateTime.getMicroSeconds, hseconds, hexact,
      Nat.mod_eq_of_lt hprecision, Nat.mod_eq_of_lt hhints, Packs, hrange, DateTime.mk.injEq, true_and]
    grind
  case isFalse hrange =>
    refine iff_of_false (fun heq => hrange ?_) fun hpacks => hrange hpacks.1
    have hseconds := congrArg DateTime.seconds heq
    have hbound := held.seconds.toNat_lt
    dsimp only at hseconds ⊢
    omega

end

theorem packable_setWithHints (s : Time) : Packable (setWithHints {} s) := by
  have hseconds := s.seconds.toNat_lt
  have hprecision := s.precision.toNat_lt
  have hhints := s.hints.toNat_lt
  rw [setWithHints]
  split
  · exact ⟨⟨by decide, by decide, by decide, by decide⟩, by decide, by decide⟩
  · refine ⟨⟨Nat.dvd_mul_right 1000 _, by dsimp only; omega, hprecision, ?_⟩, ⟨by dsimp only; omega, by
      dsimp only; omega⟩, fun hday => ?_⟩
    · dsimp only
      split
      · exact Nat.or_lt_two_pow hhints (by decide)
      · exact hhints
    · have hday' : 86400 < s.seconds.toNat := by dsimp only at hday; omega
      simp only [hday', if_true, Nat.or_assoc, Nat.or_self]

theorem getWithHints_comes_back {held : Time} (hheld : held.micros.toNat < 1000000) (t : DateTime) :
    setWithHints {} (getWithHints held t) = t ↔ Packable t := by
  refine ⟨fun heq => ?_, fun h => (setWithHints_getWithHints hheld h.1 {}).mpr h.2⟩
  exact heq ▸ packable_setWithHints _

theorem getAllWithHints_come_back {held : Time} (hheld : held.micros.toNat < 1000000) (ts : List DateTime) :
    (getAllWithHints held ts).map (setWithHints {}) = ts ↔ ∀ t ∈ ts, Packable t := by
  induction ts generalizing held with
  | nil => simp [getAllWithHints]
  | cons t ts ih =>
    rw [getAllWithHints, map_cons, cons.injEq, getWithHints_comes_back hheld, forall_mem_cons]
    exact and_congr_right fun ht => ih (micros_getWithHints hheld ht.1)

theorem micros_unread : unread.micros.toNat < 1000000 := by decide

namespace Value

/-- What is read of a value. -/
def readBack : Value → Value
  | time t => time (setWithHints {} (getWithHints unread t))
  | vectorTime ts => vectorTime ((getAllWithHints unread ts).map (setWithHints {}))
  | v => v

/-- The date-times of a value come back. -/
def Packable : Value → Prop
  | time t => Qpid.Packable t
  | vectorTime ts => ∀ t ∈ ts, Qpid.Packable t
  | scalar _ _ | opaqueData _ | price _ | vector _ _ | vectorPrice _ => True

theorem ofAtoms_atoms (v : Value) : ofAtoms v.type v.atoms = some v.readBack := by
  cases v with
  | scalar _ _ => rfl
  | opaqueData _ => rfl
  | price p =>
    have hprices : pricesOf p.atoms = some [p] := by simpa using pricesOf_atoms [p]
    simp [type, atoms, ofAtoms, hprices, readBack]
  | time t =>
    have htimes : timesOf (getWithHints unread t).atoms = some [getWithHints unread t] := by
      simpa using timesOf_atoms [getWithHints unread t]
    simp [type, atoms, ofAtoms, htimes, readBack]
  | vector _ _ => simp [Value.type, Value.atoms, ofAtoms, Function.comp_def, ElementType.atom, readBack]
  | vectorPrice _ => simp [type, atoms, ofAtoms, pricesOf_atoms, readBack]
  | vectorTime _ => simp [type, atoms, ofAtoms, timesOf_atoms, readBack]

theorem readBack_eq_iff (v : Value) : v.readBack = v ↔ v.Packable := by
  cases v with
  | time t => exact (Value.time.injEq ..).to_iff.trans (getWithHints_comes_back micros_unread t)
  | vectorTime ts => exact (Value.vectorTime.injEq ..).to_iff.trans (getAllWithHints_come_back micros_unread ts)
  | scalar _ _ | opaqueData _ | price _ | vector _ _ | vectorPrice _ => exact iff_of_true rfl trivial

end Value

end OpenMama.Qpid
