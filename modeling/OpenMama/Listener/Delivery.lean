import OpenMama.Listener.Session
import Mathlib.Data.Int.Order.Basic

/-!
# Delivery of the deltas

`invokeDeltaHandlers` clears the list of deltas after each handler, so a handler behind the first one
iterates an empty list; a single delta is kept elsewhere and reaches them all. `delivered_iff` says when
every handler sees what the listener holds.
-/

namespace OpenMama.Listener

open OrderBook List Collected

variable {B M P T : Type} [LinearOrder P]

/-! ### What the listener holds -/

namespace Collected

def delivery (d : Collected P) (handler : Handler) : Call :=
  if d.count = 1 then .onBookDelta handler ((d.simple.map (·.delta)).getD {})
  else .onBookComplexDelta handler d.complex.iterate

variable {c : DeltaList P} {d : Collected P}

theorem clear_clear (c : DeltaList P) : c.clear.clear = c.clear := by
  obtain ⟨_, _, _, deltas, levels, entries, _, _⟩ := c
  cases deltas <;> cases levels <;> cases entries <;> rfl

theorem addDelta_count (d : Collected P) (r : Recording P) : (d.addDelta r).count = d.count + 1 := by
  unfold addDelta
  split <;> rename_i hcount <;> rw [hcount]

theorem foldl_addDelta_count (ds : List (Recording P)) (d : Collected P) :
    (ds.foldl addDelta d).count = d.count + ds.length := by
  induction ds generalizing d with
  | nil => rfl
  | cons r _ ih =>
    rw [foldl_cons, ih, addDelta_count, length_cons]
    omega

/-- What the list shows is left by `clear`, which empties the first container only: it keeps no deltas, shows none, or
shows a later map. -/
def Spared (c : DeltaList P) : Prop :=
  c.keepDeltas = false ∨ c.iterate = some []
    ∨ c.conflateDeltas = true ∧ (c.deltas ≠ none ∨ c.processEntries = true ∧ c.levelDeltas ≠ none)

theorem values_empty {α : Type} : ({} : Sided P α).values = [] := rfl

theorem iterate_clear_iff (c : DeltaList P) : c.clear.iterate = c.iterate ↔ Spared c := by
  obtain ⟨keep, conflate, process, deltas, levels, entries, _, _⟩ := c
  cases keep <;> cases conflate <;> cases process <;> cases deltas <;> cases levels <;> cases entries <;>
    simp [DeltaList.clear, DeltaList.iterate, Spared, values_empty, @eq_comm _ ([] : List BasicDelta)]

structure Plain (c : DeltaList P) (ds : List BasicDelta) : Prop where
  keepDeltas : c.keepDeltas
  conflateDeltas : c.conflateDeltas = false
  deltas : c.deltas.getD [] = ds

theorem Plain.add {ds : List BasicDelta} (h : Plain c ds) (r : Recording P) :
    Plain (addToComplex c (some r)) (ds ++ [r.delta]) := by
  have hadd : addToComplex c (some r) = { c with deltas := some (c.deltas.getD [] ++ [r.delta]) } := by
    rw [addToComplex, DeltaList.add, if_pos h.keepDeltas, h.conflateDeltas]
    rfl
  rw [hadd, h.deltas]
  exact ⟨h.keepDeltas, h.conflateDeltas, rfl⟩

theorem plain_clear (hkeep : c.keepDeltas) (hconflate : c.conflateDeltas = false) : Plain c.clear [] := by
  obtain ⟨_, _, _, deltas, levels, entries, _, _⟩ := c
  cases deltas <;> cases levels <;> cases entries <;> exact ⟨hkeep, hconflate, rfl⟩

theorem Plain.iterate {ds : List BasicDelta} (h : Plain c ds) : c.iterate = some ds := by
  rw [DeltaList.iterate, if_pos h.keepDeltas, h.conflateDeltas, ← h.deltas]
  rfl

/-- The deltas that were collected: a simple one, or a list. -/
structure Holds (d : Collected P) (ds : List (Recording P)) : Prop where
  count : d.count = ds.length
  plain : ∃ old, Plain d.complex old
  simple : ∀ r, ds = [r] → d.simple = some r
  complex : 2 ≤ ds.length → Plain d.complex (ds.map (·.delta))

theorem holds_nil (hcount : d.count = 0) (hkeep : d.complex.keepDeltas) (hconflate : d.complex.conflateDeltas = false) :
    Holds d [] :=
  ⟨hcount, ⟨_, hkeep, hconflate, rfl⟩, fun r hr => by simp at hr, fun htwo => by simp at htwo⟩

theorem Holds.addDelta {ds : List (Recording P)} (h : Holds d ds) (r : Recording P) :
    Holds (d.addDelta r) (ds ++ [r]) := by
  have hcount : (d.addDelta r).count = (ds ++ [r]).length := by
    rw [addDelta_count, h.count, length_append]
    rfl
  match ds with
  | [] =>
    have hadd : d.addDelta r = { d with count := 1, simple := some r } := by
      rw [Collected.addDelta, h.count]
      rfl
    rw [hadd] at hcount ⊢
    refine ⟨hcount, h.plain, fun r' hr => ?_, fun htwo => ?_⟩
    · rw [nil_append, singleton_inj] at hr
      rw [hr]
    · simp at htwo
  | [first] =>
    obtain ⟨_, hplain⟩ := h.plain
    have hcomplex : (d.addDelta r).complex = addToComplex (addToComplex d.complex.clear (some first)) (some r) := by
      rw [Collected.addDelta, h.count, h.simple first rfl]
      rfl
    have hboth : Plain (d.addDelta r).complex (([first] ++ [r]).map (·.delta)) := by
      rw [hcomplex]
      exact ((plain_clear hplain.keepDeltas hplain.conflateDeltas).add first).add r
    exact ⟨hcount, ⟨_, hboth⟩, fun r' hr => by simp at hr, fun _ => hboth⟩
  | first :: second :: rest =>
    have hcomplex : (d.addDelta r).complex = addToComplex d.complex (some r) := by
      rw [Collected.addDelta, h.count]
      rfl
    have hmore : Plain (d.addDelta r).complex ((first :: second :: rest ++ [r]).map (·.delta)) := by
      rw [hcomplex, map_append]
      exact (h.complex (by simp)).add r
    exact ⟨hcount, ⟨_, hmore⟩, fun r' hr => by simp at hr, fun _ => hmore⟩

theorem Holds.foldl_addDelta {held : List (Recording P)} (h : Holds d held) (ds : List (Recording P)) :
    Holds (ds.foldl Collected.addDelta d) (held ++ ds) := by
  induction ds generalizing d held with
  | nil => simpa using h
  | cons r _ ih => simpa using ih (h.addDelta r)

def sees (ds : List (Recording P)) (handler : Handler) : Call :=
  match ds with
  | [r] => .onBookDelta handler r.delta
  | ds => .onBookComplexDelta handler (some (ds.map (·.delta)))

theorem Holds.delivery_eq {ds : List (Recording P)} (h : Holds d ds) (hds : ds ≠ []) (handler : Handler) :
    d.delivery handler = sees ds handler := by
  match ds with
  | [] => exact absurd rfl hds
  | [r] =>
    have hone : d.count = 1 := h.count
    rw [delivery, if_pos hone, h.simple r rfl]
    rfl
  | first :: second :: rest =>
    have hmany : d.count ≠ 1 := by simp [h.count]
    rw [delivery, if_neg hmany, (h.complex (by simp)).iterate]
    rfl

end Collected

/-! ### The handlers -/

namespace Session

variable {l : Session B P T}

theorem foldl_invoke_one (hl : l.deltas.count = 1) (handlers : List Handler) :
    handlers.foldl invokeDeltaHandler l = l.call (handlers.map l.deltas.delivery) := by
  induction handlers generalizing l with
  | nil => simp [call]
  | cons handler _ ih =>
    have hone : invokeDeltaHandler l handler = l.call [l.deltas.delivery handler] := by
      rw [invokeDeltaHandler, delivery, hl]
      rfl
    rw [foldl_cons, hone, ih (l := l.call [l.deltas.delivery handler]) hl]
    simp [call]

def afterComplex (l : Session B P T) (handler : Handler) : Session B P T :=
  { l.call [l.deltas.delivery handler] with deltas := l.deltas.clearComplex }

theorem invokeDeltaHandler_many (hl : 2 ≤ l.deltas.count) (handler : Handler) :
    invokeDeltaHandler l handler = l.afterComplex handler := by
  obtain ⟨n, hn⟩ := Nat.exists_eq_add_of_le' hl
  rw [invokeDeltaHandler, afterComplex, delivery, hn, if_neg (by omega)]

theorem foldl_invoke_cleared (hl : 2 ≤ l.deltas.count) (hcleared : l.deltas.clearComplex = l.deltas)
    (handlers : List Handler) :
    (handlers.foldl invokeDeltaHandler l).log = l.log ++ handlers.map l.deltas.delivery := by
  induction handlers generalizing l with
  | nil => simp
  | cons handler _ ih =>
    have hafter : l.afterComplex handler = l.call [l.deltas.delivery handler] := by
      rw [afterComplex, hcleared]
      rfl
    rw [foldl_cons, invokeDeltaHandler_many hl, hafter, ih (l := l.call [l.deltas.delivery handler]) hl hcleared]
    simp [call]

theorem foldl_invoke_plain (handlers : List Handler) (h : ∃ old, Collected.Plain l.deltas.complex old) :
    ∃ old, Collected.Plain (handlers.foldl invokeDeltaHandler l).deltas.complex old := by
  induction handlers generalizing l with
  | nil => exact h
  | cons _ _ ih =>
    apply ih
    obtain ⟨old, hplain⟩ := h
    unfold invokeDeltaHandler
    split
    · exact ⟨old, hplain⟩
    · exact ⟨old, hplain⟩
    · exact ⟨[], plain_clear hplain.keepDeltas hplain.conflateDeltas⟩

def told (ds : List (Recording P)) : List Handler → List Call
  | [] => []
  | handler :: rest => sees ds handler :: rest.map (sees (if ds.length = 1 then ds else []))

theorem foldl_invoke_holds {ds : List (Recording P)} (h : l.deltas.Holds ds) (hds : ds ≠ []) (handlers : List Handler) :
    (handlers.foldl invokeDeltaHandler l).log = l.log ++ told ds handlers := by
  have hsees : l.deltas.delivery = sees ds := funext (h.delivery_eq hds)
  cases handlers with
  | nil => simp [told]
  | cons handler rest =>
    by_cases hone : ds.length = 1
    · rw [foldl_invoke_one (h.count.trans hone), hsees, told, if_pos hone]
      rfl
    · have htwo : 2 ≤ ds.length := by
        have hpos := length_pos_iff.mpr hds
        omega
      have hcount : 2 ≤ l.deltas.count := h.count ▸ htwo
      have hempty : l.deltas.clearComplex.delivery = sees ([] : List (Recording P)) := by
        funext handler'
        obtain ⟨_, hplain⟩ := h.plain
        have hclear := (plain_clear hplain.keepDeltas hplain.conflateDeltas).iterate
        simp only [delivery, clearComplex, hclear]
        exact if_neg (by omega)
      have hrest := foldl_invoke_cleared (l := l.afterComplex handler) hcount
        (by simp [afterComplex, clearComplex, clear_clear]) rest
      rw [foldl_cons, invokeDeltaHandler_many hcount, hrest, told, if_neg hone]
      simp only [afterComplex, call, hempty, hsees, append_assoc, singleton_append]

theorem invokeDeltaHandlers_iff (E : Engine B M P T) (hl : l.deltas.count ≠ 0) :
    (l.invokeDeltaHandlers E).log = l.log ++ l.handlers.map l.deltas.delivery
      ↔ l.deltas.count = 1 ∨ l.handlers.length ≤ 1 ∨ Spared l.deltas.complex := by
  have hlog : (l.invokeDeltaHandlers E).log = (l.handlers.foldl invokeDeltaHandler l).log := by
    rw [invokeDeltaHandlers, if_neg hl]
  rw [hlog]
  by_cases hone : l.deltas.count = 1
  · rw [foldl_invoke_one hone]
    exact iff_of_true rfl (.inl hone)
  · have htwo : 2 ≤ l.deltas.count := by omega
    cases hhandlers : l.handlers with
    | nil => simp
    | cons handler handlers =>
      have hrest :=
        foldl_invoke_cleared (l := l.afterComplex handler) htwo
          (by simp [afterComplex, clearComplex, clear_clear]) handlers
      have hsame (h : Handler) : l.deltas.clearComplex.delivery h = l.deltas.delivery h
          ↔ Spared l.deltas.complex := by
        simp [delivery, clearComplex, hone, iterate_clear_iff]
      rw [foldl_cons, invokeDeltaHandler_many htwo, hrest]
      simp only [afterComplex, call, append_assoc, singleton_append, map_cons,
        append_cancel_left_eq, List.cons.injEq, true_and, map_inj_left, length_cons]
      cases handlers with
      | nil => simp
      | cons second _ =>
        constructor
        · intro hall
          exact .inr (.inr ((hsame second).mp (hall second mem_cons_self)))
        · rintro (h | h | h)
          · exact absurd h hone
          · simp at h
          · exact fun handler' _ => (hsame handler').mpr h

/-- After a message or an interval that added deltas, every handler is called once, in order, with what
the listener holds, exactly when one delta was added, or there is at most one handler, or clearing the
list spares what it shows. Without conflation what is held are the deltas that were added. -/
theorem delivered_iff (E : Engine B M P T) (l : Session B P T) (d : Collected P)
    (ds : List (Recording P)) (hd : d.count = 0) (hds : ds ≠ [])
    (hl : l.deltas = ds.foldl addDelta d) :
    ((l.invokeDeltaHandlers E).log = l.log ++ l.handlers.map l.deltas.delivery
        ↔ ds.length = 1 ∨ l.handlers.length ≤ 1 ∨ Spared l.deltas.complex)
      ∧ (d.complex.keepDeltas → d.complex.conflateDeltas = false →
          l.deltas.delivery = sees ds) := by
  have hcount : l.deltas.count = ds.length := by rw [hl, foldl_addDelta_count, hd, Nat.zero_add]
  have hsome : l.deltas.count ≠ 0 := by
    rw [hcount]
    exact fun hzero => hds (length_eq_zero_iff.mp hzero)
  refine ⟨?_, fun hkeep hconflate => funext fun handler => ?_⟩
  · rw [← hcount]
    exact invokeDeltaHandlers_iff E hsome
  · rw [hl]
    exact ((holds_nil hd hkeep hconflate).foldl_addDelta ds).delivery_eq hds handler

def deltasOnly : Engine Unit (List (Recording Int)) Int Unit where
  clear := id
  createDelta := fun _ msg _ => { book := (), deltas := msg.body }
  cleanupDetached := id
  top := id
  moved := fun _ _ => false

def levelUpdate (level : LevelRef) (price : Int) : Recording Int :=
  { isBid := true, price := price, delta := { priceLevel := some level, plAction := .update } }

def holding (handlers : List Handler) (ds : List (Recording Int)) : Session Unit Int Unit :=
  { handlers := handlers, book := (), topOfBook := (), deltas := ds.foldl addDelta {} }

theorem delivered_one :
    ((holding [1, 2] [levelUpdate 0 100]).invokeDeltaHandlers deltasOnly).log
      = [.onBookDelta 1 (levelUpdate 0 100).delta, .onBookDelta 2 (levelUpdate 0 100).delta] :=
  ((delivered_iff deltasOnly (holding [1, 2] [levelUpdate 0 100]) {} [levelUpdate 0 100] rfl
    (by decide) rfl).1.mpr (.inl rfl)).trans rfl

theorem not_delivered_two :
    ((holding [1, 2] [levelUpdate 0 100, levelUpdate 1 101]).invokeDeltaHandlers deltasOnly).log
      = [.onBookComplexDelta 1 (some [(levelUpdate 0 100).delta, (levelUpdate 1 101).delta]),
        .onBookComplexDelta 2 (some [])] := by
  decide

end Session

end OpenMama.Listener
