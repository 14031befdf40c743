import Mathlib.Tactic.Common

/-!
# Outcomes: a state, and possibly the exception raised on the way

A C++ member function that throws leaves behind whatever it changed before. `Outcome` keeps the state reached, and the
exception if there was one. `each` is the loop `for (x : xs) body`, with the rules `each_invariant` for what holds
whether or not the loop was cut short and `each_pointwise` for passes that work on different keys.
-/

namespace OpenMama

open List

/-- The state that a call leaves, and what it throws. -/
structure Outcome (σ ε : Type) where
  state : σ
  error : Option ε

namespace Outcome

variable {σ ε α : Type}

def ok (s : σ) : Outcome σ ε := ⟨s, none⟩

def throw (s : σ) (e : ε) : Outcome σ ε := ⟨s, some e⟩

def andThen (o : Outcome σ ε) (f : σ → Outcome σ ε) : Outcome σ ε :=
  match o.error with
  | none => f o.state
  | some e => ⟨o.state, some e⟩

/-- A `catch` block that rewords the exception and throws it again. -/
def rethrow (o : Outcome σ ε) (f : ε → ε) : Outcome σ ε := ⟨o.state, o.error.map f⟩

def each (body : α → σ → Outcome σ ε) : List α → σ → Outcome σ ε
  | [], s => ok s
  | x :: xs, s => (body x s).andThen (each body xs)

variable {o : Outcome σ ε} {I : σ → Prop} {xs : List α} {s : σ}

@[simp] theorem ok_state (s : σ) : (ok s : Outcome σ ε).state = s := rfl
@[simp] theorem ok_error (s : σ) : (ok s : Outcome σ ε).error = none := rfl
@[simp] theorem throw_state (s : σ) (e : ε) : (throw s e).state = s := rfl
@[simp] theorem throw_error (s : σ) (e : ε) : (throw s e).error = some e := rfl
@[simp] theorem ok_andThen (s : σ) (f : σ → Outcome σ ε) : (ok s).andThen f = f s := rfl
@[simp] theorem throw_andThen (s : σ) (e : ε) (f : σ → Outcome σ ε) :
    (throw s e).andThen f = throw s e := rfl
@[simp] theorem rethrow_state (o : Outcome σ ε) (f : ε → ε) : (o.rethrow f).state = o.state := rfl
@[simp] theorem rethrow_ok (s : σ) (f : ε → ε) : (ok s).rethrow f = ok s := rfl
@[simp] theorem rethrow_error_eq_none (o : Outcome σ ε) (f : ε → ε) : (o.rethrow f).error = none ↔ o.error = none := by
  simp [rethrow]

theorem eq_ok (h : o.error = none) : o = ok o.state := by
  cases o
  simp_all [ok]

theorem andThen_of_ok (h : o.error = none) (f : σ → Outcome σ ε) : o.andThen f = f o.state := by rw [andThen, h]

theorem andThen_error_eq_none {f : σ → Outcome σ ε} :
    (o.andThen f).error = none ↔ o.error = none ∧ (f o.state).error = none := by
  unfold andThen
  split
  next hok => simp [hok]
  next e he => simp [he]

theorem andThen_assoc (o : Outcome σ ε) (f g : σ → Outcome σ ε) :
    (o.andThen f).andThen g = o.andThen fun s => (f s).andThen g := by
  rcases o with ⟨s, _ | e⟩ <;> rfl

theorem andThen_invariant {f : σ → Outcome σ ε} (ho : I o.state) (hf : ∀ s, I s → I (f s).state) :
    I (o.andThen f).state := by
  unfold andThen
  split
  · exact hf _ ho
  · exact ho

theorem each_invariant {body : α → σ → Outcome σ ε} (hs : I s) (hbody : ∀ x ∈ xs, ∀ s, I s → I (body x s).state) :
    I (each body xs s).state := by
  induction xs generalizing s with
  | nil => exact hs
  | cons x _ ih =>
    refine andThen_invariant (hbody x (by simp) s hs) fun s' hs' => ih hs' ?_
    exact fun y hy => hbody y (by simp [hy])

theorem each_append (body : α → σ → Outcome σ ε) (xs ys : List α) (s : σ) :
    each body (xs ++ ys) s = (each body xs s).andThen (each body ys) := by
  induction xs generalizing s with
  | nil => rfl
  | cons x _ ih =>
    rw [cons_append, each, each, andThen_assoc]
    congr 1
    exact funext ih

theorem each_map {β : Type} (body : β → σ → Outcome σ ε) (f : α → β) (xs : List α) (s : σ) :
    each body (xs.map f) s = each (fun x => body (f x)) xs s := by
  induction xs generalizing s with
  | nil => rfl
  | cons x _ ih =>
    rw [map_cons, each]
    congr 1
    exact funext ih

theorem each_ok_foldl (f : σ → α → σ) (xs : List α) (s : σ) :
    each (fun x s => (ok (f s x) : Outcome σ ε)) xs s = ok (xs.foldl f s) := by
  induction xs generalizing s with
  | nil => rfl
  | cons x _ ih => exact ih (f s x)

theorem each_flatMap {β : Type} (body : β → σ → Outcome σ ε) (f : α → List β) (xs : List α) (s : σ) :
    each body (xs.flatMap f) s = each (fun x => each body (f x)) xs s := by
  induction xs generalizing s with
  | nil => rfl
  | cons x _ ih =>
    rw [flatMap_cons, each_append]
    congr 1
    exact funext ih

/-- A loop whose passes work on different keys. A pass that meets its key as it was at the start returns normally, gives
the key a target value and leaves the others alone. So after the loop its keys have their target values, and the others
those they had. -/
theorem each_pointwise {κ ν : Type} (view : σ → κ → ν) (target : α → ν) (body : α → σ → Outcome σ ε)
    {key : α → κ} (hnodup : (xs.map key).Nodup) (hs : I s)
    (hbody : ∀ x ∈ xs, ∀ s', I s' → view s' (key x) = view s (key x) →
      (body x s').error = none ∧ I (body x s').state ∧
      view (body x s').state (key x) = target x ∧
      ∀ k, k ≠ key x → view (body x s').state k = view s' k) :
    (each body xs s).error = none ∧ I (each body xs s).state ∧
      (∀ x ∈ xs, view (each body xs s).state (key x) = target x) ∧
      ∀ k, k ∉ xs.map key → view (each body xs s).state k = view s k := by
  induction xs generalizing s with
  | nil => exact ⟨rfl, hs, by simp, fun _ _ => rfl⟩
  | cons x xs ih =>
    rw [map_cons, nodup_cons] at hnodup
    obtain ⟨hok, hI, hself, hother⟩ := hbody x (by simp) s hs rfl
    have hne : ∀ y ∈ xs, key y ≠ key x := fun y hy heq => hnodup.1 (heq ▸ mem_map_of_mem hy)
    obtain ⟨hok', hI', hdone, hrest⟩ := ih hnodup.2 hI fun y hy s' hs' hview =>
      hbody y (by simp [hy]) s' hs' (hview.trans (hother _ (hne y hy)))
    rw [each, andThen_of_ok hok]
    refine ⟨hok', hI', ?_, ?_⟩
    · intro y hy
      rcases mem_cons.mp hy with rfl | hy
      · rw [hrest _ hnodup.1, hself]
      · exact hdone y hy
    · intro k hk
      rw [map_cons, mem_cons, not_or] at hk
      rw [hrest k hk.2, hother k hk.1]

theorem each_pointwise_error {κ ν : Type} (view : σ → κ → ν) (good : α → Prop)
    (body : α → σ → Outcome σ ε) {key : α → κ}
    (hnodup : (xs.map key).Nodup) (hs : I s)
    (hbody : ∀ x ∈ xs, ∀ s', I s' → view s' (key x) = view s (key x) →
      ((body x s').error = none ↔ good x) ∧
      (good x → I (body x s').state ∧ ∀ k, k ≠ key x → view (body x s').state k = view s' k)) :
    (each body xs s).error = none ↔ ∀ x ∈ xs, good x := by
  induction xs generalizing s with
  | nil => simp [each]
  | cons x xs ih =>
    rw [map_cons, nodup_cons] at hnodup
    obtain ⟨herror, hgood⟩ := hbody x (by simp) s hs rfl
    have hne : ∀ y ∈ xs, key y ≠ key x := fun y hy heq => hnodup.1 (heq ▸ mem_map_of_mem hy)
    rw [each, andThen_error_eq_none, herror, forall_mem_cons]
    refine and_congr_right fun hx => ?_
    obtain ⟨hI, hother⟩ := hgood hx
    exact ih hnodup.2 hI fun y hy s' hs' hview => hbody y (by simp [hy]) s' hs' (hview.trans (hother _ (hne y hy)))

end Outcome

end OpenMama
