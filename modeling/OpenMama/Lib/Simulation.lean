import OpenMama.Lib.Run

/-!
# Simulation along a run

A machine follows a specification when each of its steps is matched by a step of the specification that ends in
a state which the machine's new state shows. The specification may leave open what state that is.
-/

namespace OpenMama

variable {σ α τ : Type}

/-- Each step has a step of the specification that ends in a state shown. -/
def Follows (step : σ → α → σ) (spec : σ → α → τ → τ → Prop) (shows : σ → τ → Prop) : σ → τ → List α → Prop
  | _, _, [] => True
  | s, t, a :: as => ∃ t', spec s a t t' ∧ shows (step s a) t' ∧ Follows step spec shows (step s a) t' as

/-- If `ok` is when one step can be matched, a run is matched when `ok` holds along it. -/
theorem follows_iff_along {step : σ → α → σ} {spec : σ → α → τ → τ → Prop} {shows : σ → τ → Prop} {ok : σ → α → Prop}
    (h : ∀ s t a, shows s t → ((∃ t', spec s a t t' ∧ shows (step s a) t') ↔ ok s a)) {s : σ} {t : τ}
    (hs : shows s t) (as : List α) : Follows step spec shows s t as ↔ Along step ok s as := by
  induction as generalizing s t with
  | nil => exact Iff.rfl
  | cons a _ ih =>
    constructor
    · rintro ⟨t', hspec, hshows, htail⟩
      exact ⟨(h s t a hs).mp ⟨t', hspec, hshows⟩, (ih hshows).mp htail⟩
    · rintro ⟨hok, htail⟩
      obtain ⟨t', hspec, hshows⟩ := (h s t a hs).mpr hok
      exact ⟨t', hspec, hshows, (ih hshows).mpr htail⟩

end OpenMama
