import Mathlib.Tactic.Common

/-!
# Recursive mutexes

A mutex that its holder may lock again. It is free when it was unlocked as often as it was locked. To lock
it is a step that another thread's holding of it makes impossible.
-/

namespace OpenMama

/-- A mutex, with the thread that holds it and how often that thread locked it beyond the first time. -/
structure Mutex (τ : Type) where
  holder : Option (τ × Nat) := none
deriving DecidableEq

namespace Mutex

variable {τ : Type} [DecidableEq τ]

def lock? (m : Mutex τ) (t : τ) : Option (Mutex τ) :=
  match m.holder with
  | none => some ⟨some (t, 0)⟩
  | some (u, n) => if u = t then some ⟨some (t, n + 1)⟩ else none

def unlock (m : Mutex τ) (t : τ) : Mutex τ :=
  match m.holder with
  | none => m
  | some (u, 0) => if u = t then ⟨none⟩ else m
  | some (u, n + 1) => if u = t then ⟨some (t, n)⟩ else m

def depth (m : Mutex τ) (t : τ) : Nat :=
  match m.holder with
  | none => 0
  | some (u, n) => if u = t then n + 1 else 0

variable {m m' : Mutex τ} {t u : τ}

@[simp] theorem depth_free (t : τ) : depth ⟨none⟩ t = 0 := rfl

@[simp] theorem depth_held (t u : τ) (n : Nat) : depth ⟨some (t, n)⟩ u = if t = u then n + 1 else 0 := rfl

theorem depth_eq_zero_of_ne (ht : 0 < m.depth t) (h : u ≠ t) : m.depth u = 0 := by
  obtain ⟨_ | ⟨v, n⟩⟩ := m
  · rfl
  · rw [depth_held] at ht ⊢
    split at ht
    next hv => rw [if_neg (fun hu => h (hu.symm.trans hv))]
    · exact absurd ht (Nat.lt_irrefl 0)

theorem lock?_eq_some_iff : (∃ m', m.lock? t = some m') ↔ ∀ u ≠ t, m.depth u = 0 := by
  obtain ⟨_ | ⟨v, n⟩⟩ := m
  · simp [lock?]
  · by_cases hv : v = t
    · subst hv
      simp only [lock?, if_true, depth_held, Option.some.injEq, exists_eq', true_iff]
      intro u hu
      rw [if_neg (Ne.symm hu)]
    · simp only [lock?, if_neg hv, depth_held, reduceCtorEq, exists_false, false_iff, not_forall]
      exact ⟨v, hv, by simp⟩

theorem depth_lock? (h : m.lock? t = some m') (u : τ) : m'.depth u = m.depth u + if u = t then 1 else 0 := by
  obtain ⟨_ | ⟨v, n⟩⟩ := m
  · obtain rfl := Option.some.inj h
    simp only [depth_held, depth_free, Nat.zero_add, eq_comm]
  · simp only [lock?] at h
    split at h
    next hv =>
      obtain rfl := Option.some.inj h
      subst hv
      simp only [depth_held, eq_comm (a := u)]
      split <;> rfl
    · cases h

theorem depth_unlock (m : Mutex τ) (t u : τ) : (m.unlock t).depth u = m.depth u - if u = t then 1 else 0 := by
  obtain ⟨_ | ⟨v, _ | n⟩⟩ := m
  · simp [unlock]
  · by_cases hv : v = t
    · subst hv
      by_cases hu : v = u <;> simp [unlock, hu]
    · by_cases hu : v = u
      · subst hu
        simp [unlock, hv]
      · simp [unlock, hv, hu]
  · by_cases hv : v = t
    · subst hv
      by_cases hu : v = u
      · simp [unlock, hu]
      · simp [unlock, hu]
    · by_cases hu : v = u
      · subst hu
        simp [unlock, hv]
      · simp [unlock, hv, hu]

end Mutex

end OpenMama
