import Mathlib.Tactic.Common

/-!
# Runs of a transition function

A run applies a list of inputs to a state one after the other. `Along` says that every input of the
run is admissible in the state it meets. An invariant that admissible steps keep holds at the end of
an admissible run, and at every point before.
-/

namespace OpenMama

open List

variable {σ α : Type}

/-- `ok` holds of each step of the run, in the state the step is taken from. -/
def Along (step : σ → α → σ) (ok : σ → α → Prop) : σ → List α → Prop
  | _, [] => True
  | s, a :: as => ok s a ∧ Along step ok (step s a) as

instance Along.decidable {step : σ → α → σ} {ok : σ → α → Prop} [∀ s a, Decidable (ok s a)] :
    (s : σ) → (as : List α) → Decidable (Along step ok s as)
  | _, [] => isTrue trivial
  | s, a :: as =>
    have : Decidable (Along step ok (step s a) as) := Along.decidable (step s a) as
    inferInstanceAs (Decidable (ok s a ∧ Along step ok (step s a) as))

variable {step : σ → α → σ} {ok ok' : σ → α → Prop} {I : σ → Prop} {s : σ} {as : List α}

theorem Along.congr (h : ∀ s a, ok s a ↔ ok' s a) (s : σ) (as : List α) : Along step ok s as ↔ Along step ok' s as := by
  induction as generalizing s with
  | nil => exact Iff.rfl
  | cons a _ ih => exact and_congr (h s a) (ih (step s a))

theorem along_of_forall_mem {p : α → Prop} (h : ∀ a ∈ as, p a) : Along step (fun _ a => p a) s as := by
  induction as generalizing s with
  | nil => trivial
  | cons a _ ih =>
    rw [forall_mem_cons] at h
    exact ⟨h.1, ih h.2⟩

/-- Two conditions that agree wherever `I` holds agree along a run that keeps `I`. -/
theorem Along.congr_along {reg : σ → α → Prop} (hs : I s) (hreg : Along step reg s as)
    (h : ∀ s a, I s → reg s a → (ok s a ↔ ok' s a) ∧ (ok s a → I (step s a))) :
    Along step ok s as ↔ Along step ok' s as := by
  induction as generalizing s with
  | nil => exact Iff.rfl
  | cons a _ ih =>
    obtain ⟨hhead, hstep⟩ := h s a hs hreg.1
    exact ⟨fun hall => ⟨hhead.mp hall.1, (ih (hstep hall.1) hreg.2).mp hall.2⟩,
      fun hall => ⟨hhead.mpr hall.1, (ih (hstep (hhead.mpr hall.1)) hreg.2).mpr hall.2⟩⟩

theorem Along.congr_on (hs : I s) (h : ∀ s, I s → ∀ a ∈ as, (ok s a ↔ ok' s a))
    (hstep : ∀ s, I s → ∀ a ∈ as, ok s a → I (step s a)) :
    Along step ok s as ↔ Along step ok' s as :=
  congr_along hs (along_of_forall_mem fun _ ha => ha) fun s a hs ha => ⟨h s hs a ha, hstep s hs a ha⟩

theorem Along.map {τ : Type} {step' : τ → α → τ} {ok : τ → α → Prop} {f : σ → τ}
    (hf : ∀ s a, f (step s a) = step' (f s) a) (s : σ) (as : List α) :
    Along step (fun s a => ok (f s) a) s as ↔ Along step' ok (f s) as := by
  induction as generalizing s with
  | nil => exact Iff.rfl
  | cons a _ ih => rw [Along, Along, ih, hf]

theorem along_iff_forall_take (s : σ) (as : List α) :
    Along step (fun s a => I (step s a)) s as
      ↔ ∀ n < as.length, I ((as.take (n + 1)).foldl step s) := by
  induction as generalizing s with
  | nil => simp [Along]
  | cons a _ ih =>
    rw [Along, ih, length_cons]
    constructor
    · rintro ⟨hhead, htail⟩ n hn
      cases n with
      | zero => exact hhead
      | succ n => exact htail n (by omega)
    · intro hall
      exact ⟨hall 0 (by omega), fun n hn => hall (n + 1) (by omega)⟩

theorem along_append {bs : List α} :
    Along step ok s (as ++ bs) ↔ Along step ok s as ∧ Along step ok (as.foldl step s) bs := by
  induction as generalizing s with
  | nil => exact (and_iff_right trivial).symm
  | cons a _ ih => rw [cons_append, Along, Along, ih, foldl_cons, and_assoc]

theorem along_and (s : σ) (as : List α) :
    Along step (fun s a => ok s a ∧ ok' s a) s as ↔ Along step ok s as ∧ Along step ok' s as := by
  induction as generalizing s with
  | nil => exact (and_self_iff).symm
  | cons a _ ih => rw [Along, Along, Along, ih, and_and_and_comm]

/-- What each step with `ok` preserves holds at the end of the run. -/
theorem Along.invariant (h : Along step ok s as) (hs : I s) (hstep : ∀ s a, I s → ok s a → I (step s a)) :
    I (as.foldl step s) := by
  induction as generalizing s with
  | nil => exact hs
  | cons a _ ih => exact ih h.2 (hstep s a hs h.1)

end OpenMama
