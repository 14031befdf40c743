import Mathlib.Data.List.Nodup

/-!
# Lists of keyed items

A list whose items are found by a key: the first item of a key is the one that is found, and the one
that is replaced or changed. New items come to the end.
-/

namespace OpenMama.Keyed

open List List.Forall₂

variable {α κ : Type} [DecidableEq κ] (key : α → κ)

/-- The first item of the key. -/
def lookup (k : κ) (l : List α) : Option α := l.find? fun a => key a = k

/-- Put `a` in the place of the first item of its key, or at the end. -/
def upsert (a : α) : List α → List α
  | [] => [a]
  | b :: l => if key b = key a then a :: l else b :: upsert a l

/-- Change the first item of the key, or make one at the end. -/
def alter (k : κ) (f : Option α → α) : List α → List α
  | [] => [f none]
  | b :: l => if key b = k then f (some b) :: l else b :: alter k f l

variable {key} {k : κ} {l : List α} {a : α} {f : Option α → α}

theorem lookup_eq_none_iff : lookup key k l = none ↔ k ∉ l.map key := by simp [lookup]

theorem key_of_lookup (h : lookup key k l = some a) : key a = k := by simpa using find?_some h

theorem mem_of_lookup (h : lookup key k l = some a) : a ∈ l := mem_of_find?_eq_some h

theorem lookup_append {l' : List α} :
    lookup key k (l ++ l') = (lookup key k l).or (lookup key k l') := find?_append

theorem lookup_of_mem (h : (l.map key).Nodup) (ha : a ∈ l) : lookup key (key a) l = some a := by
  induction l with
  | nil => cases ha
  | cons b l ih =>
    rw [map_cons, nodup_cons] at h
    rcases mem_cons.mp ha with rfl | ha
    · simp [lookup]
    · have hne : key b ≠ key a := fun heq => h.1 (heq ▸ mem_map_of_mem ha)
      rw [lookup, find?_cons_of_neg (by simpa using hne)]
      exact ih h.2 ha

theorem upsert_of_not_mem (h : key a ∉ l.map key) : upsert key a l = l ++ [a] := by
  induction l with
  | nil => rfl
  | cons b l ih =>
    rw [map_cons, mem_cons, not_or] at h
    rw [upsert, if_neg (Ne.symm h.1), ih h.2]
    rfl

theorem map_key_upsert_of_mem (h : key a ∈ l.map key) : (upsert key a l).map key = l.map key := by
  induction l with
  | nil => cases h
  | cons b l ih =>
    rw [upsert]
    by_cases hb : key b = key a
    · rw [if_pos hb, map_cons, map_cons, hb]
    · rw [if_neg hb, map_cons, map_cons, ih]
      rcases mem_cons.mp h with heq | hmem
      · exact absurd heq.symm hb
      · exact hmem

theorem mem_upsert_self (a : α) (l : List α) : a ∈ upsert key a l := by
  induction l with
  | nil => exact mem_singleton.mpr rfl
  | cons b l ih =>
    rw [upsert]
    split
    · exact mem_cons_self
    · exact mem_cons_of_mem _ ih

theorem mem_upsert_of_ne {b : α} (h : b ∈ l) (hne : key b ≠ key a) : b ∈ upsert key a l := by
  induction l with
  | nil => cases h
  | cons c l ih =>
    rw [upsert]
    rcases mem_cons.mp h with rfl | h
    · rw [if_neg hne]
      exact mem_cons_self
    · split
      · exact mem_cons_of_mem _ h
      · exact mem_cons_of_mem _ (ih h)

theorem lookup_upsert (a : α) (k : κ) (l : List α) :
    lookup key k (upsert key a l) = if key a = k then some a else lookup key k l := by
  induction l with
  | nil => by_cases hk : key a = k <;> simp [upsert, lookup, hk]
  | cons b l ih =>
    rw [upsert]
    split
    next hb =>
      by_cases hk : key a = k
      · simp [lookup, hk]
      · have hbk : ¬ key b = k := fun h => hk (hb.symm.trans h)
        simp [lookup, hk, hbk]
    next hb =>
      by_cases hbk : key b = k
      · have hk : ¬ key a = k := fun h => hb (hbk.trans h.symm)
        simp [lookup, hk, hbk]
      · have hskip (l : List α) : lookup key k (b :: l) = lookup key k l := find?_cons_of_neg (by simpa using hbk)
        rw [hskip, hskip, ih]

/-! ### Changes of one item -/

theorem lookup_cons (k : κ) (b : α) (l : List α) :
    lookup key k (b :: l) = if key b = k then some b else lookup key k l := by
  by_cases hb : key b = k <;> simp [lookup, hb]

theorem lookup_eraseP (hl : (l.map key).Nodup) (k' : κ) :
    lookup key k' (l.eraseP fun a => key a = k) = if k = k' then none else lookup key k' l := by
  induction l with
  | nil => simp [lookup]
  | cons b l ih =>
    obtain ⟨hb, hl⟩ := nodup_cons.mp hl
    have hrest := ih hl
    by_cases hkey : key b = k
    · have hnone : lookup key k l = none := lookup_eq_none_iff.mpr (hkey ▸ hb)
      rw [eraseP_cons_of_pos (by simpa using hkey), lookup_cons, hkey]
      grind
    · rw [eraseP_cons_of_neg (by simpa using hkey), lookup_cons, lookup_cons, hrest]
      grind

theorem exists_split_of_lookup (h : lookup key k l = some a) :
    ∃ before after, l = before ++ a :: after ∧ ∀ b ∈ before, key b ≠ k := by
  obtain ⟨-, before, after, hl, hbefore⟩ := find?_eq_some_iff_append.mp h
  exact ⟨before, after, hl, by simpa using hbefore⟩

theorem alter_of_none (h : lookup key k l = none) (f : Option α → α) : alter key k f l = l ++ [f none] := by
  induction l with
  | nil => rfl
  | cons b l ih =>
    rw [lookup_cons] at h
    split at h
    · cases h
    next hb => rw [alter, if_neg hb, ih h, cons_append]

theorem alter_append {before after : List α} (hbefore : ∀ b ∈ before, key b ≠ k) (ha : key a = k) (f : Option α → α) :
    alter key k f (before ++ a :: after) = before ++ f (some a) :: after := by
  induction before with
  | nil => exact if_pos ha
  | cons b _ ih =>
    obtain ⟨hb, hrest⟩ := forall_mem_cons.mp hbefore
    rw [cons_append, alter, if_neg hb, ih hrest, cons_append]

theorem lookup_alter (hf : key (f (lookup key k l)) = k) (k' : κ) :
    lookup key k' (alter key k f l) = if k = k' then some (f (lookup key k l)) else lookup key k' l := by
  induction l with
  | nil =>
    have hnew : key (f none) = k := hf
    rw [alter, lookup_cons, hnew]
    rfl
  | cons b l ih =>
    rw [alter]
    rw [lookup_cons] at hf ⊢
    by_cases hb : key b = k
    · rw [if_pos hb] at hf ⊢
      rw [if_pos hb, lookup_cons, lookup_cons, hf, hb]
      split <;> rfl
    · rw [if_neg hb] at hf ⊢
      rw [if_neg hb, lookup_cons, lookup_cons, ih hf]
      by_cases hk : key b = k'
      · rw [if_pos hk, if_pos hk, if_neg fun heq => hb (hk.trans heq.symm)]
      · rw [if_neg hk, if_neg hk]

theorem key_change (hsome : ∀ a, key (f (some a)) = key a) (hnone : key (f none) = k) (l : List α) :
    key (f (lookup key k l)) = k := by
  cases h : lookup key k l with
  | none => exact hnone
  | some a => exact (hsome a).trans (key_of_lookup h)

theorem mem_alter {b : α} (h : b ∈ alter key k f l) : b = f (lookup key k l) ∨ b ∈ l := by
  cases hlookup : lookup key k l with
  | none =>
    rw [alter_of_none hlookup, mem_append, mem_singleton] at h
    exact h.symm
  | some a =>
    obtain ⟨_, _, rfl, hbefore⟩ := exists_split_of_lookup hlookup
    rw [alter_append hbefore (key_of_lookup hlookup), mem_append, mem_cons] at h
    rcases h with h | h | h
    · exact .inr (mem_append_left _ h)
    · exact .inl h
    · exact .inr (mem_append_right _ (mem_cons_of_mem a h))

theorem mem_alter_self (k : κ) (f : Option α → α) (l : List α) : f (lookup key k l) ∈ alter key k f l := by
  cases hlookup : lookup key k l with
  | none => rw [alter_of_none hlookup]; simp
  | some a =>
    obtain ⟨_, _, rfl, hbefore⟩ := exists_split_of_lookup hlookup
    rw [alter_append hbefore (key_of_lookup hlookup)]
    simp

theorem filter_alter (hf : key (f (lookup key k l)) = k) :
    (alter key k f l).filter (fun b => key b ≠ k) = l.filter fun b => key b ≠ k := by
  cases hlookup : lookup key k l with
  | none =>
    rw [hlookup] at hf
    rw [alter_of_none hlookup]
    simp [hf]
  | some a =>
    have ha := key_of_lookup hlookup
    rw [hlookup] at hf
    obtain ⟨_, _, rfl, hbefore⟩ := exists_split_of_lookup hlookup
    rw [alter_append hbefore ha]
    simp [hf, ha]

theorem nodup_alter (hf : key (f (lookup key k l)) = k) (hl : (l.map key).Nodup) :
    ((alter key k f l).map key).Nodup := by
  cases hlookup : lookup key k l with
  | none =>
    rw [hlookup] at hf
    rw [alter_of_none hlookup, map_append, map_singleton, hf]
    exact hl.append (nodup_singleton k) (by simpa using lookup_eq_none_iff.mp hlookup)
  | some a =>
    have ha := key_of_lookup hlookup
    rw [hlookup] at hf
    obtain ⟨_, _, rfl, hbefore⟩ := exists_split_of_lookup hlookup
    rw [alter_append hbefore ha, map_append, map_cons, hf, ← ha, ← map_cons, ← map_append]
    exact hl

section Related

variable {β : Type} {key' : β → κ}

theorem lookup_map {g : α → β} (hg : ∀ a, key' (g a) = key a) (k : κ) (l : List α) :
    lookup key' k (l.map g) = (lookup key k l).map g := by
  induction l with
  | nil => rfl
  | cons a l ih =>
    rw [map_cons, lookup_cons, lookup_cons, hg, ih]
    split <;> rfl

variable {R : α → β → Prop} {l : List α} {l' : List β}

theorem lookup_cases (hkey : ∀ a b, R a b → key a = key' b) (h : List.Forall₂ R l l') (k : κ) :
    (lookup key k l = none ∧ lookup key' k l' = none)
      ∨ ∃ a b, lookup key k l = some a ∧ lookup key' k l' = some b ∧ R a b := by
  induction h with
  | nil => exact .inl ⟨rfl, rfl⟩
  | cons hab _ ih =>
    rw [lookup_cons, lookup_cons, hkey _ _ hab]
    split
    · exact .inr ⟨_, _, rfl, rfl, hab⟩
    · exact ih

theorem forall₂_alter (hkey : ∀ a b, R a b → key a = key' b) (h : List.Forall₂ R l l')
    {g : Option β → β} (hfg : R (f (lookup key k l)) (g (lookup key' k l'))) :
    List.Forall₂ R (alter key k f l) (alter key' k g l') := by
  induction h with
  | nil => exact cons hfg nil
  | @cons a b l _ hab hl ih =>
    rw [lookup_cons, lookup_cons, hkey _ _ hab] at hfg
    rw [alter, alter, hkey _ _ hab]
    split at hfg
    next hb =>
      rw [if_pos hb, if_pos hb]
      exact cons hfg hl
    next hb =>
      rw [if_neg hb, if_neg hb]
      exact cons hab (ih hfg)

end Related

end OpenMama.Keyed
