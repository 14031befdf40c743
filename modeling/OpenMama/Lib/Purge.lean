import OpenMama.Lib.Run

/-!
# A run and the run without some of its inputs

Some inputs of a run are meant to pass unnoticed. The run and the one without them look alike after every input exactly
when each of them that is not harmless anyway leaves a state that looks like the one the other inputs before it make,
provided that the other inputs keep states that look alike so.
-/

namespace OpenMama

open List

variable {σ α : Type}

/-- After every input, the run looks like the run of the inputs up to there that are kept. -/
def Unnoticed (step : σ → α → σ) (alike : σ → σ → Prop) (keep : α → Bool) (s : σ) (as : List α) : Prop :=
  ∀ n, alike ((as.take n).foldl step s) (((as.take n).filter keep).foldl step s)

variable {step : σ → α → σ} {alike : σ → σ → Prop} {keep : α → Bool}

theorem unnoticed_iff (harmless : α → Bool) (hequiv : Equivalence alike)
    (hkeep : ∀ s s' a, keep a → alike s s' → alike (step s a) (step s' a))
    (hharmless : ∀ s a, harmless a → alike (step s a) s) (s : σ) (as : List α) :
    Unnoticed step alike keep s as ↔
      ∀ before a after, as = before ++ a :: after → keep a = false → harmless a = false →
        alike ((before ++ [a]).foldl step s) ((before.filter keep).foldl step s) := by
  constructor
  · intro h before a after has ha _
    have hat := h (before.length + 1)
    have htake : as.take (before.length + 1) = before ++ [a] := by
      rw [has, take_length_add_append]
      rfl
    have hfilter : (before ++ [a]).filter keep = before.filter keep := by simp [ha]
    rwa [htake, hfilter] at hat
  · intro h n
    induction n with
    | zero => exact hequiv.refl s
    | succ n ih =>
      by_cases hn : n < as.length
      · have htake : as.take (n + 1) = as.take n ++ [as[n]] := by simp
        have hsplit : as = as.take n ++ as[n] :: as.drop (n + 1) := by simp
        rw [htake, filter_append]
        cases ha : keep as[n] with
        | true =>
          simp only [foldl_append, filter_cons, ha, if_pos, filter_nil, foldl_cons, foldl_nil]
          exact hkeep _ _ _ ha ih
        | false =>
          simp only [filter_cons, ha, Bool.false_eq_true, if_false, filter_nil, append_nil]
          cases hharm : harmless as[n] with
          | true =>
            rw [foldl_append]
            exact hequiv.trans (hharmless _ _ hharm) ih
          | false => exact h _ _ _ hsplit ha hharm
      · rw [take_of_length_le (by omega)]
        rwa [take_of_length_le (by omega)] at ih

end OpenMama
