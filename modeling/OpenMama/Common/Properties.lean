import Mathlib.Data.List.Count
import Mathlib.Data.Set.Finite.Basic
import Mathlib.Order.Preorder.Finite

/-!
# Properties: environment variables and the search path

`strReplaceEnvironmentVariable` rewrites a value reference by reference and scans it from the start in every round;
`properties_Load` walks a path and its quote-free copy with the same indices. Texts are lists of characters; the fixed
buffers and failing allocations are left out.
-/

namespace OpenMama.Properties

open List Option

/-! ### Environment variables -/

def strstr (startString : List Char) : List Char → Option (List Char)
  | [] => none
  | c :: s => if startString.isPrefixOf (c :: s) then some (c :: s) else strstr startString s

def strchr (s : List Char) (c : Char) : Option (List Char) := if c ∈ s then some (s.dropWhile (· ≠ c)) else none

/-- The `size` counts the terminator. -/
def snprintf (size : Nat) (s : List Char) : List Char := s.take (size - 1)

/-- The environment, and the characters around the name of a variable. -/
structure Substitution where
  getenv : List Char → Option (List Char)
  bracket : Char
  endChar : Char

namespace Substitution

variable (x : Substitution)

/-- The loop over `ret`; `none` while it has not ended, `some none` is NULL. -/
def replaceLoop : Nat → List Char → Option (Option (List Char))
  | 0, _ => none
  | fuel + 1, ret =>
    match strstr ['$', x.bracket] ret with
    | none => some (some ret)
    | some envStart =>
      let variableStart := envStart.drop 2
      match strchr variableStart x.endChar with
      | none => some none
      | some endStr =>
        let startStr := snprintf (ret.length - variableStart.length - 1) ret
        let envVar := snprintf (variableStart.length - endStr.length + 1) variableStart
        match x.getenv envVar with
        | none => some none
        | some envValue =>
          let newStringLength := ret.length - envVar.length + envValue.length - 2
          replaceLoop fuel (snprintf newStringLength (startStr ++ envValue ++ endStr.drop 1))

/-- What the loop is for: one scan from the left, inside a reference with the name so far. -/
def expand : Option (List Char) → List Char → Option (List Char)
  | none, c :: d :: s =>
    if c = '$' ∧ d = x.bracket then expand (some []) s else (expand none (d :: s)).map (c :: ·)
  | none, s => some s
  | some _, [] => none
  | some name, c :: s =>
    if c = x.endChar then (x.getenv name).bind fun v => (expand none s).map (v ++ ·) else expand (some (name ++ [c])) s

variable {x} {s : List Char}

theorem expand_name {name : List Char} (h : x.endChar ∉ name) (acc s : List Char) :
    x.expand (some acc) (name ++ x.endChar :: s) =
      (x.getenv (acc ++ name)).bind fun v => (x.expand none s).map (v ++ ·) := by
  induction name generalizing acc with
  | nil => simp [expand]
  | cons c name ih =>
    rw [mem_cons, not_or] at h
    simp [expand, Ne.symm h.1, ih h.2]

theorem expand_unterminated (h : x.endChar ∉ s) (acc : List Char) : x.expand (some acc) s = none := by
  induction s generalizing acc with
  | nil => rfl
  | cons c s ih =>
    rw [mem_cons, not_or] at h
    simp [expand, Ne.symm h.1, ih h.2]

theorem expand_cons {c : Char} (h : ¬ (c = '$' ∧ s.head? = some x.bracket)) :
    x.expand none (c :: s) = (x.expand none s).map (c :: ·) := by
  cases s with
  | nil => rfl
  | cons d s =>
    rw [expand, if_neg]
    simpa using h

theorem expand_append {v : List Char} (h : '$' ∉ v) (s : List Char) :
    x.expand none (v ++ s) = (x.expand none s).map (v ++ ·) := by
  induction v with
  | nil => simp
  | cons c v ih =>
    rw [mem_cons, not_or] at h
    rw [cons_append, expand_cons fun hc => h.1 hc.1.symm, ih h.2, Option.map_map]
    rfl

theorem snprintf_append {size : Nat} {a : List Char} (h : size = a.length + 1) (b : List Char) :
    snprintf size (a ++ b) = a := by
  simp [h, snprintf]

theorem strstr_cons (b c : Char) (s : List Char) :
    strstr ['$', b] (c :: s) = if c = '$' ∧ s.head? = some b then some (c :: s) else strstr ['$', b] s := by
  cases s with
  | nil => simp [strstr]
  | cons d s => simp [strstr, @eq_comm _ '$', @eq_comm _ b]

theorem expand_of_strstr_none (h : strstr ['$', x.bracket] s = none) : x.expand none s = some s := by
  induction s with
  | nil => rfl
  | cons c s ih =>
    rw [strstr_cons] at h
    split at h
    · cases h
    next hc => rw [expand_cons hc, ih h, map_some]

variable (x) in
/-- No reference begins in this text, whatever comes behind it, unless that begins with the bracket. -/
def Inert (before : List Char) : Prop := strstr ['$', x.bracket] (before ++ ['$']) = none

theorem inert_cons {c : Char} {before : List Char} :
    x.Inert (c :: before) ↔ ¬ (c = '$' ∧ (before ++ ['$']).head? = some x.bracket) ∧ x.Inert before := by
  rw [Inert, cons_append, strstr_cons]
  split
  next hc => simp [hc]
  next hc => exact (and_iff_right hc).symm

section

variable {before w : List Char}

theorem not_starts {c : Char} (h : ¬ (c = '$' ∧ (before ++ ['$']).head? = some x.bracket))
    (hw : w.head? ≠ some x.bracket) : ¬ (c = '$' ∧ (before ++ w).head? = some x.bracket) := by
  cases before with
  | nil => exact fun hc => hw hc.2
  | cons => exact h

theorem Inert.strstr_append (h : x.Inert before) (hw : w.head? ≠ some x.bracket) :
    strstr ['$', x.bracket] (before ++ w) = strstr ['$', x.bracket] w := by
  induction before with
  | nil => rfl
  | cons c before ih =>
    obtain ⟨hc, hrest⟩ := inert_cons.mp h
    rw [cons_append, strstr_cons, if_neg (not_starts hc hw), ih hrest]

theorem Inert.expand_append (h : x.Inert before) (hw : w.head? ≠ some x.bracket) :
    x.expand none (before ++ w) = (x.expand none w).map (before ++ ·) := by
  induction before with
  | nil => simp
  | cons c before ih =>
    obtain ⟨hc, hrest⟩ := inert_cons.mp h
    rw [cons_append, expand_cons (not_starts hc hw), ih hrest, Option.map_map]
    rfl

end

theorem strstr_some {t : List Char} (h : strstr ['$', x.bracket] s = some t) :
    ∃ before rest, s = before ++ t ∧ t = '$' :: x.bracket :: rest ∧ x.Inert before := by
  induction s with
  | nil => cases h
  | cons c s ih =>
    rw [strstr_cons] at h
    split at h
    next hc =>
      obtain ⟨rfl, hs⟩ := hc
      obtain ⟨rest, rfl⟩ := head?_eq_some_iff.mp hs
      cases h
      exact ⟨[], rest, rfl, rfl, rfl⟩
    next hc =>
      obtain ⟨before, rest, rfl, rfl, hinert⟩ := ih h
      refine ⟨c :: before, rest, rfl, rfl, inert_cons.mpr ⟨?_, hinert⟩⟩
      cases before with
      | nil => exact hc
      | cons => exact hc

variable (x) in
/-- The text has no reference, or one that is not terminated, or one with a name. -/
theorem exists_reference (ret : List Char) :
    strstr ['$', x.bracket] ret = none ∨
      (∃ before rest, ret = before ++ '$' :: x.bracket :: rest ∧ x.Inert before ∧ x.endChar ∉ rest) ∨
      ∃ before name rest, ret = before ++ '$' :: x.bracket :: (name ++ x.endChar :: rest) ∧ x.Inert before ∧
        x.endChar ∉ name := by
  cases hstr : strstr ['$', x.bracket] ret with
  | none => exact .inl rfl
  | some t =>
    obtain ⟨before, rest, rfl, rfl, hinert⟩ := strstr_some hstr
    by_cases hend : x.endChar ∈ rest
    · obtain ⟨name, rest, rfl, hname⟩ := eq_append_cons_of_mem hend
      exact .inr (.inr ⟨before, name, rest, rfl, hinert, hname⟩)
    · exact .inr (.inl ⟨before, rest, rfl, hinert, hend⟩)

/-- A reference in its text, with the value of its variable. -/
structure Reference where
  before : List Char
  name : List Char
  value : List Char
  rest : List Char

/-- The text that the round leaves. -/
def Reference.replaced (r : Reference) : List Char := r.before ++ (r.value ++ r.rest)

variable (x) in
/-- The first reference, if it is terminated and its variable is set. -/
def reference (ret : List Char) : Option Reference :=
  match strstr ['$', x.bracket] ret with
  | none => none
  | some envStart =>
    let variableStart := envStart.drop 2
    match strchr variableStart x.endChar with
    | none => none
    | some endStr =>
      let name := variableStart.take (variableStart.length - endStr.length)
      (x.getenv name).map fun value => ⟨ret.take (ret.length - envStart.length), name, value, endStr.drop 1⟩

/-! ### One round -/

section

variable (hx : x.bracket ≠ '$') {before name rest : List Char}
include hx

theorem Inert.strstr_reference (h : x.Inert before) (rest : List Char) :
    strstr ['$', x.bracket] (before ++ '$' :: x.bracket :: rest) = some ('$' :: x.bracket :: rest) := by
  rw [h.strstr_append (by simpa using hx.symm), strstr_cons, if_pos ⟨rfl, rfl⟩]

omit hx in
theorem strchr_append (h : x.endChar ∉ name) (rest : List Char) :
    strchr (name ++ x.endChar :: rest) x.endChar = some (x.endChar :: rest) := by
  rw [strchr, if_pos (by simp), dropWhile_append_of_pos]
  · simp
  · exact fun c hc => decide_eq_true fun heq => h (heq ▸ hc)

theorem Inert.reference_eq (h : x.Inert before) (hname : x.endChar ∉ name) (rest : List Char) :
    x.reference (before ++ '$' :: x.bracket :: (name ++ x.endChar :: rest)) =
      (x.getenv name).map fun value => ⟨before, name, value, rest⟩ := by
  simp [reference, h.strstr_reference hx, strchr_append hname]

theorem Inert.reference_unterminated (h : x.Inert before) (hrest : x.endChar ∉ rest) :
    x.reference (before ++ '$' :: x.bracket :: rest) = none := by
  simp [reference, h.strstr_reference hx, strchr, hrest]

/-- The reference that is found is in its place. -/
theorem of_reference {ret : List Char} {r : Reference} (h : x.reference ret = some r) :
    ret = r.before ++ '$' :: x.bracket :: (r.name ++ x.endChar :: r.rest) ∧ x.Inert r.before ∧ x.endChar ∉ r.name ∧
      x.getenv r.name = some r.value := by
  obtain hnone | ⟨before, rest, rfl, hinert, hend⟩ | ⟨before, name, rest, rfl, hinert, hname⟩ := x.exists_reference ret
  · simp [reference, hnone] at h
  · rw [hinert.reference_unterminated hx hend] at h
    cases h
  · rw [hinert.reference_eq hx hname] at h
    obtain ⟨v, hv, rfl⟩ := map_eq_some_iff.mp h
    exact ⟨rfl, hinert, hname, hv⟩

/-- A text in which no reference begins is kept before the first one. -/
theorem Inert.reference_append {w : List Char} (h : x.Inert before) (hw : w.head? ≠ some x.bracket) :
    x.reference (before ++ w) = (x.reference w).map fun r => { r with before := before ++ r.before } := by
  have hall {b t : List Char} (hb : x.Inert b) (ht : w = b ++ '$' :: t) : x.Inert (before ++ b) := by
    rw [Inert, append_assoc, h.strstr_append, ← Inert]
    · exact hb
    · subst ht
      cases b with
      | nil => exact hw
      | cons => exact hw
  obtain hnone | ⟨b, rest, rfl, hinert, hend⟩ | ⟨b, name, rest, rfl, hinert, hname⟩ := x.exists_reference w
  · simp [reference, h.strstr_append hw, hnone]
  · rw [hinert.reference_unterminated hx hend, ← append_assoc, (hall hinert rfl).reference_unterminated hx hend]
    rfl
  · rw [hinert.reference_eq hx hname, ← append_assoc, (hall hinert rfl).reference_eq hx hname, Option.map_map]
    rfl

/-- What comes behind the first reference does not matter. -/
theorem reference_suffix {w s : List Char} {r : Reference} (hr : x.reference (w ++ s) = some r)
    (hs : s.length ≤ r.rest.length) :
    ∃ u, r.rest = u ++ s ∧ ∀ s', x.reference (w ++ s') = some { r with rest := u ++ s' } := by
  obtain ⟨htext, hinert, hname, hv⟩ := of_reference hx hr
  have hrest : r.rest <:+ w ++ s := by
    rw [htext]
    exact ⟨r.before ++ '$' :: x.bracket :: (r.name ++ [x.endChar]), by simp⟩
  obtain ⟨u, hu⟩ := suffix_of_suffix_length_le (suffix_append w s) hrest hs
  refine ⟨u, hu.symm, fun s' => ?_⟩
  have hw : w = r.before ++ '$' :: x.bracket :: (r.name ++ x.endChar :: u) := by
    rw [← hu] at htext
    exact append_cancel_right (htext.trans (by simp))
  rw [hw, append_assoc, cons_append, cons_append, append_assoc, cons_append, hinert.reference_eq hx hname, hv,
    map_some]

theorem replaceLoop_succ (fuel : Nat) (ret : List Char) :
    match x.reference ret with
    | none => x.replaceLoop (fuel + 1) ret = some (x.expand none ret)
    | some r => x.replaceLoop (fuel + 1) ret = x.replaceLoop fuel r.replaced := by
  obtain hnone | ⟨before, rest, rfl, hinert, hend⟩ | ⟨before, name, rest, rfl, hinert, hname⟩ := x.exists_reference ret
  · simp only [reference, replaceLoop, hnone, expand_of_strstr_none hnone]
  · have hexpand := hinert.expand_append (w := '$' :: x.bracket :: rest) (by simpa using hx.symm)
    rw [hinert.reference_unterminated hx hend, hexpand]
    simp [replaceLoop, hinert.strstr_reference hx, strchr, hend, expand, expand_unterminated hend]
  · have hexpand := hinert.expand_append (w := '$' :: x.bracket :: (name ++ x.endChar :: rest)) (by simpa using hx.symm)
    rw [hinert.reference_eq hx hname]
    cases henv : x.getenv name with
    | none =>
      rw [hexpand]
      simp [replaceLoop, hinert.strstr_reference hx, strchr_append hname, snprintf, expand, expand_name hname, henv]
    | some v =>
      simp only [map_some, replaceLoop, hinert.strstr_reference hx, drop_succ_cons, drop_zero,
        strchr_append hname]
      rw [snprintf_append (by simp : _ = name.length + 1), henv]
      dsimp only
      rw [snprintf_append (by simp; omega : _ = before.length + 1), append_assoc, snprintf,
        take_of_length_le (by simp; omega)]
      rfl

theorem expand_replaced {ret : List Char} {r : Reference} (h : x.reference ret = some r) (hne : r.value ≠ [])
    (hdollar : '$' ∉ r.value) (hbracket : x.bracket ∉ r.value) : x.expand none r.replaced = x.expand none ret := by
  obtain ⟨rfl, hinert, hname, hv⟩ := of_reference hx h
  obtain ⟨c, v, hcons⟩ := exists_cons_of_ne_nil hne
  have hhead : (r.value ++ r.rest).head? ≠ some x.bracket := by
    rw [hcons] at hbracket ⊢
    simpa using Ne.symm (not_or.mp (mem_cons.not.mp hbracket)).1
  rw [Reference.replaced, hinert.expand_append hhead, hinert.expand_append (by simpa using hx.symm),
    Substitution.expand_append hdollar]
  simp [expand, expand_name hname, hv]

end

variable (x) in
/-- The text after some rounds, if that many references were replaced. -/
def rounds : Nat → List Char → Option (List Char)
  | 0, ret => some ret
  | k + 1, ret => (x.reference ret).bind fun r => rounds k r.replaced

variable (x) in
/-- The reference that is replaced in a round. -/
def read (ret : List Char) (k : Nat) : Option Reference := (x.rounds k ret).bind x.reference

theorem rounds_add (k m : Nat) (ret : List Char) :
    x.rounds (k + m) ret = (x.rounds k ret).bind (x.rounds m) := by
  induction k generalizing ret with
  | zero => rw [Nat.zero_add]; rfl
  | succ k ih =>
    rw [Nat.succ_add, rounds, rounds, bind_assoc]
    simp only [ih]

theorem rounds_succ (k : Nat) (ret : List Char) : x.rounds (k + 1) ret = (x.read ret k).map Reference.replaced := by
  rw [rounds_add, read]
  cases x.rounds k ret with
  | none => rfl
  | some t => cases ht : x.reference t <;> simp [rounds, ht]

theorem rounds_of_le {k m : Nat} {ret t : List Char} (h : x.rounds m ret = some t) (hk : k ≤ m) :
    ∃ t', x.rounds k ret = some t' := by
  obtain ⟨j, rfl⟩ := Nat.exists_eq_add_of_le hk
  rw [rounds_add] at h
  obtain ⟨t', ht', -⟩ := bind_eq_some_iff.mp h
  exact ⟨t', ht'⟩

section

variable (hx : x.bracket ≠ '$') {ret : List Char}
include hx

theorem ends_iff_rounds :
    (∃ fuel result, x.replaceLoop fuel ret = some result) ↔ ∃ k, x.rounds k ret = none := by
  constructor
  · rintro ⟨fuel, result, h⟩
    induction fuel generalizing ret with
    | zero => cases h
    | succ fuel ih =>
      have hround := replaceLoop_succ hx fuel ret
      cases href : x.reference ret with
      | none => exact ⟨1, by rw [rounds, href]; rfl⟩
      | some r =>
        rw [href] at hround
        obtain ⟨k, hk⟩ := ih (hround.symm.trans h)
        exact ⟨k + 1, by rw [rounds, href]; exact hk⟩
  · rintro ⟨k, h⟩
    induction k generalizing ret with
    | zero => cases h
    | succ k ih =>
      cases href : x.reference ret with
      | none =>
        have hround := replaceLoop_succ hx 0 ret
        rw [href] at hround
        exact ⟨1, _, hround⟩
      | some r =>
        rw [rounds, href] at h
        obtain ⟨fuel, result, hfuel⟩ := ih h
        have hround := replaceLoop_succ hx fuel ret
        rw [href] at hround
        exact ⟨fuel + 1, result, hround.trans hfuel⟩

/-- Every round takes away one character of a kind that no value has. -/
theorem replaceLoop_eq {c : Char} (hc : c = '$' ∨ c = x.bracket ∨ c = x.endChar)
    (hfree : ∀ k r, x.read ret k = some r → c ∉ r.value) (fuel : Nat) (h : ret.count c < fuel) :
    ∃ result, x.replaceLoop fuel ret = some result ∧
      ((∀ k r, x.read ret k = some r → r.value ≠ [] ∧ '$' ∉ r.value ∧ x.bracket ∉ r.value) →
        result = x.expand none ret) := by
  induction fuel generalizing ret with
  | zero => cases h
  | succ fuel ih =>
    have hround := replaceLoop_succ hx fuel ret
    cases href : x.reference ret with
    | none =>
      rw [href] at hround
      exact ⟨_, hround, fun _ => rfl⟩
    | some r =>
      rw [href] at hround
      have hread (k : Nat) : x.read r.replaced k = x.read ret (k + 1) := by rw [read, read, rounds, href]; rfl
      have hless : r.replaced.count c < fuel := by
        obtain ⟨rfl, -⟩ := of_reference hx href
        have hcount := count_eq_zero.mpr (hfree 0 r href)
        rw [Reference.replaced]
        obtain rfl | rfl | rfl := hc <;> simp [count_cons, hcount] at h ⊢ <;> omega
      obtain ⟨result, hresult, heq⟩ := ih (fun k q hq => hfree (k + 1) q (hread k ▸ hq)) hless
      refine ⟨result, hround.trans hresult, fun hplain => ?_⟩
      obtain ⟨hne, hdollar, hbracket⟩ := hplain 0 r href
      exact (heq fun k q hq => hplain (k + 1) q (hread k ▸ hq)).trans (expand_replaced hx href hne hdollar hbracket)

end

/-! ### Variables that lead back to themselves -/

variable (x) in
/-- A variable is read, and read again before what stood behind its reference is come to. -/
def Nests (ret : List Char) : Prop :=
  ∃ k m r r', k < m ∧ x.read ret k = some r ∧ x.read ret m = some r' ∧ r'.name = r.name ∧
    ∀ j, k < j → j ≤ m → ∀ q, x.read ret j = some q → r.rest.length ≤ q.rest.length

variable (x) in
/-- The rounds lead from `w` to `w'`, whatever inert text comes before and whatever text behind. -/
def Leads (k : Nat) (w w' : List Char) : Prop :=
  ∀ before s, x.Inert before → ∃ before', x.Inert before' ∧ x.rounds k (before ++ (w ++ s)) = some (before' ++ (w' ++ s))

variable (x) in
/-- The text begins with a character other than the bracket. -/
def Starts (w : List Char) : Prop := ∃ c rest, w = c :: rest ∧ c ≠ x.bracket

section

variable {k m : Nat} {v w w' s : List Char}

theorem Starts.head? (h : x.Starts w) (s : List Char) : (w ++ s).head? ≠ some x.bracket := by
  obtain ⟨c, rest, rfl, hc⟩ := h
  simpa using hc

theorem Starts.append (h : x.Starts w) (s : List Char) : x.Starts (w ++ s) := by
  obtain ⟨c, rest, rfl, hc⟩ := h
  exact ⟨c, rest ++ s, rfl, hc⟩

theorem Leads.trans {w'' : List Char} (h : x.Leads k w w') (h' : x.Leads m w' w'') : x.Leads (k + m) w w'' := by
  intro before s hinert
  obtain ⟨before', hinert', hk⟩ := h before s hinert
  obtain ⟨before'', hinert'', hm⟩ := h' before' s hinert'
  exact ⟨before'', hinert'', by rw [rounds_add, hk, bind_some, hm]⟩

theorem Leads.append (h : x.Leads k w w') (t : List Char) : x.Leads k (w ++ t) (w' ++ t) := by
  intro before s hinert
  simpa only [append_assoc] using h before (t ++ s) hinert

theorem Leads.repeat {u : List Char} (h : x.Leads k v (v ++ u)) (n : Nat) : ∃ u', x.Leads (k * n) v (v ++ u') := by
  induction n with
  | zero => exact ⟨[], fun before s hinert => ⟨before, hinert, by simp [rounds]⟩⟩
  | succ n ih =>
    obtain ⟨u', hu'⟩ := ih
    refine ⟨u ++ u', ?_⟩
    rw [← append_assoc, Nat.mul_succ]
    exact hu'.trans (h.append u')

variable (hx : x.bracket ≠ '$')
include hx

/-- One round within `w'`. -/
theorem Leads.next {r : Reference} (h : x.Leads k w w') (hstarts : x.Starts w') (hr : x.reference (w' ++ s) = some r)
    (hs : s.length ≤ r.rest.length) : ∃ u, r.rest = u ++ s ∧ x.Leads (k + 1) w (r.value ++ u) := by
  obtain ⟨u, hrest, hu⟩ := reference_suffix hx hr hs
  refine ⟨u, hrest, fun before s' hinert => ?_⟩
  obtain ⟨before', hinert', hk⟩ := h before s' hinert
  have href := hinert'.reference_append hx (hstarts.head? s')
  rw [hu, map_some] at href
  refine ⟨_, (of_reference hx href).2.1, ?_⟩
  rw [rounds_succ, read, hk, bind_some, href, map_some, Reference.replaced]
  simp

omit hx in
variable (x) in
/-- After `j` rounds from `ret`, the last `i` of which led from `v` to `w`, the text ends with `tail`. -/
def Stays (ret v tail : List Char) (j i : Nat) (w : List Char) : Prop :=
  ∃ before, x.rounds j ret = some (before ++ (w ++ tail)) ∧ x.Inert before ∧ x.Starts w ∧ x.Leads i v w

theorem Stays.next {ret tail : List Char} {j i : Nat} {q : Reference} (h : x.Stays ret v tail j i w)
    (hq : x.read ret j = some q) (hlong : tail.length ≤ q.rest.length) (hvalue : x.Starts q.value) :
    ∃ u, x.Stays ret v tail (j + 1) (i + 1) (q.value ++ u) := by
  obtain ⟨before, hrounds, hinert, hw, hleads⟩ := h
  have hread := hq
  rw [read, hrounds, bind_some] at hq
  have hbefore := (of_reference hx hq).2.1
  rw [hinert.reference_append hx (hw.head? tail)] at hq
  obtain ⟨r, href, rfl⟩ := map_eq_some_iff.mp hq
  obtain ⟨u, hrest, hnext⟩ := hleads.next hx hw href hlong
  refine ⟨u, _, ?_, hbefore, hvalue.append u, hnext⟩
  rw [rounds_succ, hread, map_some, Reference.replaced, hrest, append_assoc r.value u tail]

/-- A variable that leads back to itself does so for ever. -/
theorem Nests.rounds_ne_none {ret : List Char} (h : x.Nests ret)
    (hstarts : ∀ k r, x.read ret k = some r → x.Starts r.value) (n : Nat) : x.rounds n ret ≠ none := by
  obtain ⟨k, m, r, r', hkm, hk, hm, hname, hover⟩ := h
  obtain ⟨t, htext, href⟩ := bind_eq_some_iff.mp hk
  obtain ⟨t', htext', href'⟩ := bind_eq_some_iff.mp hm
  have hinert := (of_reference hx href).2.1
  have hstart : x.rounds (k + 1) ret = some (r.before ++ (r.value ++ r.rest)) := by
    rw [rounds_succ, hk]
    rfl
  -- the rounds up to the second reading stay in front of the rest
  have hrun : ∀ i, k + 1 + i ≤ m → ∃ w, x.Stays ret r.value r.rest (k + 1 + i) i w := by
    intro i hle
    induction i with
    | zero => exact ⟨r.value, r.before, hstart, hinert, hstarts k r hk, fun before s hbefore => ⟨before, hbefore, rfl⟩⟩
    | succ i ih =>
      obtain ⟨w, hw⟩ := ih (by omega)
      obtain ⟨_, hlater⟩ := rounds_of_le htext' hle
      rw [← Nat.add_assoc, rounds_succ] at hlater
      obtain ⟨q, hq, -⟩ := map_eq_some_iff.mp hlater
      obtain ⟨u, hu⟩ := hw.next hx hq (hover _ (by omega) (by omega) q hq) (hstarts _ q hq)
      exact ⟨_, hu⟩
  obtain ⟨i, rfl⟩ := Nat.exists_eq_add_of_lt hkm
  obtain ⟨w, hw⟩ := hrun i (by omega)
  rw [Nat.add_right_comm] at hw
  obtain ⟨u, -, -, -, -, hleads⟩ := hw.next hx hm (hover _ hkm le_rfl r' hm) (hstarts _ r' hm)
  have hvalue : r'.value = r.value := by
    have hv := (of_reference hx href').2.2.2
    rw [hname, (of_reference hx href).2.2.2] at hv
    exact (some.inj hv).symm
  rw [hvalue] at hleads
  obtain ⟨_, hmany⟩ := hleads.repeat n
  obtain ⟨_, -, hlast⟩ := hmany r.before r.rest hinert
  have hall := (rounds_add (k + 1) ((i + 1) * n) ret).trans ((congrArg (bind · _) hstart).trans hlast)
  have hn : n ≤ k + 1 + (i + 1) * n := by
    rw [Nat.succ_mul]
    omega
  obtain ⟨_, hsome⟩ := rounds_of_le hall hn
  simp [hsome]

end

/-- In a finite environment the rounds end unless a variable leads back to itself: of infinitely many readings behind
which the rest of the text is never shorter again, two are of one variable. -/
theorem nests_of_rounds {ret : List Char} (names : List (List Char)) (hnames : ∀ name, x.getenv name ≠ none → name ∈ names)
    (hx : x.bracket ≠ '$') (h : ∀ n, x.rounds n ret ≠ none) : x.Nests ret := by
  have hread : ∀ k, ∃ r, x.read ret k = some r := fun k => by
    have hnext := h (k + 1)
    rw [rounds_succ, Ne, map_eq_none_iff] at hnext
    exact ne_none_iff_exists'.mp hnext
  choose r hr using hread
  have hinfinite : {k | ∀ j, k ≤ j → (r k).rest.length ≤ (r j).rest.length}.Infinite := by
    apply Set.infinite_of_forall_exists_gt
    intro n
    obtain ⟨k, hk, hleast⟩ := (measure fun k => (r k).rest.length).wf.has_min {k | n < k} ⟨n + 1, Nat.lt_succ_self n⟩
    exact ⟨k, fun j hj => Nat.not_lt.mp (hleast j (Nat.lt_of_lt_of_le hk hj)), hk⟩
  have hmaps : Set.MapsTo (fun k => (r k).name) {k | ∀ j, k ≤ j → (r k).rest.length ≤ (r j).rest.length}
      {name | name ∈ names} := by
    intro k _
    obtain ⟨t, -, href⟩ := bind_eq_some_iff.mp (hr k)
    apply hnames
    rw [(of_reference hx href).2.2.2]
    exact some_ne_none _
  obtain ⟨k, hk, m, -, hlt, hname⟩ := hinfinite.exists_lt_map_eq_of_mapsTo hmaps names.finite_toSet
  refine ⟨k, m, r k, r m, hlt, hr k, hr m, hname.symm, fun j hj _ q hq => ?_⟩
  rw [hr j] at hq
  exact some.inj hq ▸ hk j hj.le

end Substitution

/-- The brackets are chosen once, on the value as given. -/
def substitution (getenv : List Char → Option (List Char)) (value : List Char) : Substitution :=
  if strstr ['$', '('] value = none then ⟨getenv, '{', '}'⟩ else ⟨getenv, '(', ')'⟩

def strReplaceEnvironmentVariable (getenv : List Char → Option (List Char)) (fuel : Nat) (value : List Char) :
    Option (Option (List Char)) :=
  if '$' ∈ value then (substitution getenv value).replaceLoop fuel value else some none

theorem substitution_eq (getenv : List Char → Option (List Char)) (value : List Char) :
    (substitution getenv value).getenv = getenv ∧
      ((substitution getenv value).bracket = '(' ∨ (substitution getenv value).bracket = '{') := by
  unfold substitution
  split
  · exact ⟨rfl, .inr rfl⟩
  · exact ⟨rfl, .inl rfl⟩

def selfReference : List Char := ['$', '(', 'A', ')']

variable (imports : List Char → Bool) (delim : Char)

/-- The loop at index `i` with the rest of the path: the sub paths tried, and whether one was imported. The character
after a delimiter is not looked at. -/
def loadLoop (tempPath : List Char) (pointer i : Nat) : List Char → List (List Char) × Bool
  | [] => ([tempPath.take (i - pointer)], imports (tempPath.take (i - pointer)))
  | c :: rest =>
    if c = delim then
      let subPath := tempPath.take (i - pointer)
      if imports subPath then ([subPath], true)
      else
        match rest with
        | [] => ([subPath], false)
        | _ :: rest' =>
          let tried := loadLoop rest (i + 1) (i + 2) rest'
          (subPath :: tried.1, tried.2)
    else loadLoop tempPath pointer (i + 1) rest

def unquote (path : List Char) : List Char := path.filter (· ≠ '"')

def load (path : List Char) : List (List Char) × Bool :=
  if path = [] then ([[]], imports []) else loadLoop imports delim (unquote path) 0 0 path

def tryPaths : List (List Char) → List (List Char) × Bool
  | [] => ([], false)
  | p :: ps => if imports p then ([p], true) else (p :: (tryPaths ps).1, (tryPaths ps).2)

/-- No component has a quote, up to the first that is imported. -/
def Quoteless : List (List Char) → Prop
  | [] => True
  | p :: ps => '"' ∉ p ∧ (imports p ∨ Quoteless ps)

variable {imports delim}

theorem unquote_eq_self {p : List Char} : unquote p = p ↔ '"' ∉ p := by
  simp [unquote]
  grind

theorem splitOn_append {p : List Char} (h : delim ∉ p) (s : List Char) :
    (p ++ delim :: s).splitOn delim = p :: s.splitOn delim :=
  splitOnP_append_cons_of_forall_mem (by grind) delim (by simp) s

theorem splitOn_of_notMem {p : List Char} (h : delim ∉ p) : p.splitOn delim = [p] := splitOnP_eq_singleton (by grind)

theorem exists_component (delim : Char) (path : List Char) : path.splitOn delim = [path] ∨
    ∃ p s, path = p ++ delim :: s ∧ path.splitOn delim = p :: s.splitOn delim := by
  by_cases h : delim ∈ path
  · obtain ⟨p, s, rfl, hp⟩ := eq_append_cons_of_mem h
    exact .inr ⟨p, s, rfl, splitOn_append hp s⟩
  · exact .inl (splitOn_of_notMem h)

theorem take_splitOn (s : List Char) :
    ((s.splitOn delim).modifyHead fun p => s.take p.length) = s.splitOn delim := by
  obtain hs | ⟨p, s, rfl, hs⟩ := exists_component delim s <;> simp [hs]

theorem loadLoop_eq {tempPath rest : List Char} {pointer i : Nat} (comp : List Char) (hcomp : delim ∉ comp)
    (hi : i = pointer + comp.length) (h : ∀ p ∈ ((comp ++ rest).splitOn delim).tail, p ≠ []) :
    loadLoop imports delim tempPath pointer i rest =
      tryPaths imports (((comp ++ rest).splitOn delim).modifyHead fun p => tempPath.take p.length) := by
  fun_induction loadLoop imports delim tempPath pointer i rest generalizing comp with
  | case1 tempPath =>
    rw [append_nil, splitOn_of_notMem hcomp, hi, Nat.add_sub_cancel_left, modifyHead_cons, tryPaths]
    cases imports (tempPath.take comp.length) <;> rfl
  | case2 tempPath pointer i rest subPath =>
    have hsub : tempPath.take comp.length = subPath := by simp [subPath, hi]
    rw [splitOn_append hcomp, modifyHead_cons, hsub, tryPaths, if_pos ‹_›]
  | case3 =>
    rw [splitOn_append hcomp] at h
    simp at h
  | case4 tempPath pointer i subPath himports c rest ih =>
    have hsub : tempPath.take comp.length = subPath := by simp [subPath, hi]
    rw [splitOn_append hcomp] at h ⊢
    have hc : c ≠ delim := by
      rintro rfl
      exact h [] (by simp [splitOn, splitOnP_cons_eq_if_modifyHead]) rfl
    rw [ih [c] (by simpa using hc.symm) rfl fun p hp => h p (mem_of_mem_tail hp), singleton_append, take_splitOn,
      modifyHead_cons, hsub, tryPaths, if_neg himports]
  | case5 tempPath pointer i c rest hc ih =>
    rw [append_cons] at h ⊢
    exact ih (comp ++ [c]) (by simpa using ⟨hcomp, Ne.symm hc⟩) (by simp; omega) h

theorem tryPaths_head {p q : List Char} {ps qs : List (List Char)}
    (h : tryPaths imports (p :: ps) = tryPaths imports (q :: qs)) : p = q := by
  simp only [tryPaths] at h
  grind

theorem tryPaths_unquote_iff (ps : List (List Char)) :
    tryPaths imports ps = tryPaths imports (ps.map unquote) ↔ Quoteless imports ps := by
  induction ps with
  | nil => simp [Quoteless]
  | cons p ps ih =>
    by_cases hp : '"' ∈ p
    · exact iff_of_false (fun h => unquote_eq_self.mp (tryPaths_head h).symm hp) fun h => h.1 hp
    · simp only [map_cons, unquote_eq_self.mpr hp, tryPaths, Quoteless, hp]
      split <;> simp_all [Prod.ext_iff]

/-- `load` tries what it should exactly when the path is one component, or when the components that it tries have no
quote. -/
theorem searches_iff (imports : List Char → Bool) (delim : Char) (path : List Char) (hdelim : delim ≠ '"')
    (hparts : ∀ p ∈ path.splitOn delim, unquote p ≠ []) :
    load imports delim path = tryPaths imports ((path.splitOn delim).map unquote) ↔
      (path.splitOn delim).tail = [] ∨ Quoteless imports (path.splitOn delim) := by
  have hne p (hp : p ∈ path.splitOn delim) : p ≠ [] := fun h => hparts p hp (by simp [h, unquote])
  have hpath : path ≠ [] := by
    rintro rfl
    exact hne [] (by simp) rfl
  rw [load, if_neg hpath, loadLoop_eq [] not_mem_nil (Nat.zero_add 0).symm fun p hp => hne p (mem_of_mem_tail hp),
    nil_append]
  obtain hs | ⟨p, s, hsplit, hs⟩ := exists_component delim path
  · simp [hs, unquote, take_of_length_le, length_filter_le]
  · have htail : s.splitOn delim ≠ [] := splitOnP_ne_nil _ s
    have hcopy : unquote path = unquote p ++ delim :: unquote s := by simp [hsplit, unquote, hdelim]
    rw [hs, tail_cons, or_iff_right htail, ← tryPaths_unquote_iff]
    by_cases hp : '"' ∈ p
    · refine iff_of_false (fun h => ?_) fun h => unquote_eq_self.mp (tryPaths_head h).symm hp
      have hless : (unquote p).length < p.length := length_filter_lt_length_iff_exists.mpr ⟨'"', hp, by simp⟩
      have hlength := congrArg length (tryPaths_head h)
      simp only [hcopy, length_take, length_append, length_cons] at hlength
      omega
    · simp [hcopy, unquote_eq_self.mpr hp]

theorem searches_plain : load (· = ['b']) ':' ['a', ':', 'b', ':', 'c'] = ([['a'], ['b']], true) :=
  ((searches_iff (· = ['b']) ':' _ (by decide) (by decide)).mpr
    (.inr (by exact ⟨by decide, .inr ⟨by decide, .inl rfl⟩⟩))).trans (by decide)

theorem not_searches_quoted :
    (load (fun _ => false) ':' ['"', 'a', '"', ':', 'b']).1 = [['a', ':', 'b'], ['b']] ∧
      (['"', 'a', '"', ':', 'b'].splitOn ':').map unquote = [['a'], ['b']] := by
  decide

end OpenMama.Properties
