import Mathlib.Data.List.Basic

/-!
# Iterators that skip

A position in a sequence, as an iterator has it: what lies ahead and what was passed, nearest first. The iterator
steps over some of the elements. Stepping back stops at what the iterator takes for the beginning.
-/

namespace OpenMama

open List

/-- A place in a list: the elements passed, the last one first, and those ahead. -/
structure Cursor (α : Type) where
  passed : List α
  ahead : List α

namespace Cursor

variable {α : Type} (shown : α → Bool)

def skip : List α → List α → Cursor α
  | passed, [] => ⟨passed, []⟩
  | passed, a :: ahead => if shown a then ⟨passed, a :: ahead⟩ else skip (a :: passed) ahead

def first (l : List α) : Cursor α := skip shown [] l

def last (l : List α) : Cursor α := ⟨l.reverse, []⟩

def get? (c : Cursor α) : Option α := c.ahead.head?

def next (c : Cursor α) : Cursor α :=
  match c.ahead with
  | [] => c
  | a :: ahead => skip shown (a :: c.passed) ahead

/-- `--` of an iterator that knows the beginning: it stops there, shown or not. -/
def prev (c : Cursor α) : Cursor α := back c.passed c.ahead
where
  back : List α → List α → Cursor α
    | [], ahead => ⟨[], ahead⟩
    | [a], ahead => ⟨[], a :: ahead⟩
    | a :: b :: passed, ahead => if shown a then ⟨b :: passed, a :: ahead⟩ else back (b :: passed) (a :: ahead)

/-- `--` of an iterator that takes the position `bound` for the beginning: it stops there, shown or not. -/
def prevTo (bound : Option Nat) (c : Cursor α) : Option (Cursor α) :=
  if bound = some c.passed.length then some c else back c.passed c.ahead
where
  back : List α → List α → Option (Cursor α)
    | [], _ => none
    | a :: passed, ahead =>
      if bound = some passed.length ∨ shown a then some ⟨passed, a :: ahead⟩ else back passed (a :: ahead)

def returns (bound : Option Nat) : Nat → Cursor α → Option (List α)
  | 0, _ => some []
  | n + 1, c => (c.prevTo shown bound).bind fun c => c.get?.bind fun a => (returns bound n c).map (a :: ·)

/-- `--` of an iterator that does not know the beginning: it leaves the sequence when nothing that it
passed is shown. -/
def prev? (c : Cursor α) : Option (Cursor α) := back c.passed c.ahead
where
  back : List α → List α → Option (Cursor α)
    | [], _ => none
    | a :: passed, ahead => if shown a then some ⟨passed, a :: ahead⟩ else back passed (a :: ahead)

def nth : Nat → Cursor α → Option α
  | 0, c => c.get?
  | n + 1, c => if c.ahead.isEmpty then none else nth n (c.next shown)

def meets : Nat → Cursor α → List α
  | 0, _ => []
  | n + 1, c =>
    match c.get? with
    | some a => a :: meets n (c.next shown)
    | none => []

def visited (c : Cursor α) : List α := c.meets shown c.ahead.length

def seekWithin (wanted : α → Bool) : Nat → Cursor α → Cursor α
  | 0, c => c
  | n + 1, c =>
    match c.get? with
    | some a => if wanted a then c else seekWithin wanted n (c.next shown)
    | none => c

def seek (wanted : α → Bool) (c : Cursor α) : Cursor α := c.seekWithin shown wanted c.ahead.length

variable {shown}

def Settled (shown : α → Bool) (c : Cursor α) : Prop := ∀ a ∈ c.get?, shown a

variable {c : Cursor α} (passed ahead : List α)

theorem skip_settled : (skip shown passed ahead).Settled shown := by
  induction ahead generalizing passed with
  | nil => simp [skip, Settled, get?]
  | cons a _ ih =>
    by_cases ha : shown a
    · simp [skip, ha, Settled, get?]
    · simpa [skip, ha] using ih (a :: passed)

theorem skip_ahead : (skip shown passed ahead).ahead.filter shown = ahead.filter shown := by
  induction ahead generalizing passed with
  | nil => rfl
  | cons a _ ih =>
    by_cases ha : shown a
    · simp [skip, ha]
    · simpa [skip, ha] using ih (a :: passed)

theorem skip_passed : (skip shown passed ahead).passed.filter shown = passed.filter shown := by
  induction ahead generalizing passed with
  | nil => rfl
  | cons a _ ih =>
    by_cases ha : shown a
    · simp [skip, ha]
    · simpa [skip, ha] using ih (a :: passed)

theorem Settled.get?_eq (hc : c.Settled shown) : c.get? = (c.ahead.filter shown).head? := by
  obtain ⟨_, ahead⟩ := c
  cases ahead with
  | nil => rfl
  | cons a _ => simp [get?, hc a rfl]

theorem Settled.next (hc : c.Settled shown) {a : α} {ahead : List α} (hahead : c.ahead = a :: ahead) :
    (c.next shown).Settled shown
      ∧ c.ahead.filter shown = a :: (c.next shown).ahead.filter shown
      ∧ (c.next shown).passed.filter shown = a :: c.passed.filter shown := by
  have ha : shown a := hc a (by simp [get?, hahead])
  simp only [Cursor.next, hahead]
  refine ⟨skip_settled _ _, ?_, ?_⟩
  · rw [skip_ahead, filter_cons_of_pos ha]
  · rw [skip_passed, filter_cons_of_pos ha]

theorem Settled.nth_eq (hc : c.Settled shown) (n : Nat) : c.nth shown n = (c.ahead.filter shown)[n]? := by
  induction n generalizing c with
  | zero => rw [nth, hc.get?_eq, head?_eq_getElem?]
  | succ n ih =>
    cases hahead : c.ahead with
    | nil => simp [nth, hahead]
    | cons a _ =>
      obtain ⟨hnext, hfilter, -⟩ := hc.next hahead
      rw [nth, hahead, isEmpty_cons, if_neg Bool.false_ne_true, ih hnext, ← hahead, hfilter, getElem?_cons_succ]

theorem length_skip_le (passed ahead : List α) : (skip shown passed ahead).ahead.length ≤ ahead.length := by
  induction ahead generalizing passed with
  | nil => exact Nat.le_refl _
  | cons a _ ih =>
    by_cases ha : shown a
    · simp [skip, ha]
    · simpa [skip, ha] using Nat.le_trans (ih (a :: passed)) (Nat.le_succ _)

theorem length_next_lt (shown : α → Bool) {a : α} {ahead : List α} (hahead : c.ahead = a :: ahead) :
    (c.next shown).ahead.length < c.ahead.length := by
  rw [next, hahead]
  exact Nat.lt_succ_of_le (length_skip_le _ _)

theorem Settled.meets_eq (hc : c.Settled shown) {n : Nat} (hn : c.ahead.length ≤ n) :
    c.meets shown n = c.ahead.filter shown := by
  induction n generalizing c with
  | zero => rw [length_eq_zero_iff.mp (Nat.le_zero.mp hn)]; rfl
  | succ n ih =>
    cases hahead : c.ahead with
    | nil => simp [meets, get?, hahead]
    | cons a _ =>
      obtain ⟨hnext, hfilter, -⟩ := hc.next hahead
      have hlt := length_next_lt shown hahead
      have hget : c.get? = some a := by rw [get?, hahead]; rfl
      rw [← hahead, hfilter, meets, hget, ih hnext (by omega)]

theorem Settled.visited_eq (hc : c.Settled shown) :
    c.visited shown = c.ahead.filter shown := hc.meets_eq (Nat.le_refl _)

theorem Settled.seekWithin_eq (hc : c.Settled shown) (wanted : α → Bool) {n : Nat} (hn : c.ahead.length ≤ n) :
    (c.seekWithin shown wanted n).Settled shown ∧ (∀ a ∈ (c.seekWithin shown wanted n).get?, wanted a)
      ∧ ((c.seekWithin shown wanted n).ahead.filter shown).filter wanted
        = (c.ahead.filter shown).filter wanted := by
  induction n generalizing c with
  | zero =>
    have hempty := length_eq_zero_iff.mp (Nat.le_zero.mp hn)
    refine ⟨hc, fun a ha => ?_, rfl⟩
    simp [seekWithin, get?, hempty] at ha
  | succ n ih =>
    cases hahead : c.ahead with
    | nil =>
      have hget : c.get? = none := by rw [get?, hahead]; rfl
      simp only [seekWithin, hget]
      exact ⟨hc, by simp, by rw [hahead]⟩
    | cons a _ =>
      have hget : c.get? = some a := by rw [get?, hahead]; rfl
      simp only [seekWithin, hget]
      split
      next ha => exact ⟨hc, by simp [hget, ha], by rw [hahead]⟩
      next ha =>
        obtain ⟨hnext, hfilter, -⟩ := hc.next hahead
        have hlt := length_next_lt shown hahead
        obtain ⟨hs, hw, hf⟩ := ih hnext (by omega)
        refine ⟨hs, hw, hf.trans ?_⟩
        rw [← hahead, hfilter, filter_cons_of_neg ha]

theorem returns_eq_iff (shown : α → Bool) (bound : Option Nat) (passed ahead : List α) (h : (passed ++ ahead).Nodup) :
    returns shown bound (passed.filter shown).length ⟨passed, ahead⟩ = some (passed.filter shown) ↔
      ∀ k, bound = some k → k ≤ passed.length → (passed.drop (passed.length - k)).filter shown = [] := by
  induction passed generalizing ahead with
  | nil => simp [returns]
  | cons a passed ih =>
    have hfirst (c : Cursor α) (b : α) (rest : List α) (hc : Cursor.prevTo shown bound ⟨a :: passed, ahead⟩ = some c)
        (heq : returns shown bound (b :: rest).length ⟨a :: passed, ahead⟩ = some (b :: rest)) : c.get? = some b := by
      rw [length_cons, returns, hc, Option.bind_some] at heq
      obtain ⟨_, hget, hrest⟩ := Option.bind_eq_some_iff.mp heq
      obtain ⟨_, _, hcons⟩ := Option.map_eq_some_iff.mp hrest
      rw [hget, (cons.inj hcons).1]
    have hcond {l : List α} (hl : bound = some l.length) : (∀ k, bound = some k → k ≤ l.length →
        (l.drop (l.length - k)).filter shown = []) ↔ l.filter shown = [] := by
      simp [hl]
    by_cases hhere : bound = some (passed.length + 1)
    · -- it stays where it is
      rw [hcond (l := a :: passed) hhere]
      refine ⟨fun heq => ?_, fun hnil => by rw [hnil]; rfl⟩
      by_contra hne
      obtain ⟨b, rest, hf⟩ := exists_cons_of_ne_nil hne
      have hget := hfirst ⟨a :: passed, ahead⟩ b rest (if_pos hhere) (hf ▸ heq)
      exact (nodup_append.mp h).2.2 b (mem_filter.mp (hf ▸ mem_cons_self)).1 b (mem_of_mem_head? hget) rfl
    · have hdrop : (∀ k, bound = some k → k ≤ (a :: passed).length →
          ((a :: passed).drop ((a :: passed).length - k)).filter shown = []) ↔
            ∀ k, bound = some k → k ≤ passed.length → (passed.drop (passed.length - k)).filter shown = [] := by
        refine forall₂_congr fun k hk => ?_
        have hne : k ≠ passed.length + 1 := fun heq => hhere (heq ▸ hk)
        refine ⟨fun hall hle => ?_, fun hall hle => ?_⟩
        · have := hall (Nat.le_succ_of_le hle)
          rwa [length_cons, Nat.succ_sub hle] at this
        · have hle : k ≤ passed.length := Nat.le_of_lt_succ (Nat.lt_of_le_of_ne hle hne)
          rw [length_cons, Nat.succ_sub hle]
          exact hall hle
      rw [hdrop]
      by_cases ha : shown a
      · rw [← ih _ (perm_middle.nodup_iff.mpr h), filter_cons_of_pos ha]
        simp [returns, prevTo, prevTo.back, hhere, ha, get?]
      · rw [filter_cons_of_neg ha]
        by_cases hnext : bound = some passed.length
        · -- it stops at an element that is not shown
          rw [hcond hnext]
          refine ⟨fun heq => ?_, fun hnil => by rw [hnil]; rfl⟩
          by_contra hne
          obtain ⟨b, rest, hf⟩ := exists_cons_of_ne_nil hne
          have hget := hfirst ⟨passed, a :: ahead⟩ b rest (by simp [prevTo, prevTo.back, hnext]) (hf ▸ heq)
          have hb : shown b := (mem_filter.mp (hf ▸ mem_cons_self)).2
          exact ha (Option.some.inj hget ▸ hb)
        · rw [← ih _ (perm_middle.nodup_iff.mpr h)]
          cases passed.filter shown with
          | nil => rfl
          | cons b _ => simp [returns, prevTo, prevTo.back, hhere, ha, hnext]

theorem prev?_get? (c : Cursor α) : (c.prev? shown).bind get? = (c.passed.filter shown).head? := by
  obtain ⟨passed, ahead⟩ := c
  unfold prev?
  induction passed generalizing ahead with
  | nil => rfl
  | cons a _ ih =>
    by_cases ha : shown a
    · simp [prev?.back, ha, get?]
    · simpa [prev?.back, ha] using ih (a :: ahead)

end Cursor
end OpenMama
