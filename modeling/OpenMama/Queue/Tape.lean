import OpenMama.Lib.Simulation
import OpenMama.Queue.Shape

/-!
# The queue with its iterator

A list of items with a cursor on one of them, before the first or after the last. The queue follows such a tape until
an element is removed under the iterator, an element's callback is replaced, or the element under the iterator is
dispatched. The size stays within the maximum where the size and a chunk add up without overflow.
-/

namespace OpenMama

open List Queue

namespace Queue

variable {κ δ : Type}

namespace Cursor

/-- The items, and where the iterator is among them. -/
inductive Tape (κ δ : Type) where
  | beforeFirst (items : List (Item κ δ))
  | on (before : List (Item κ δ)) (i : Item κ δ) (after : List (Item κ δ))
  | afterLast (items : List (Item κ δ))

namespace Tape

def items : Tape κ δ → List (Item κ δ)
  | .beforeFirst items => items
  | .on before i after => before ++ i :: after
  | .afterLast items => items

def onFirst : List (Item κ δ) → Tape κ δ
  | [] => .afterLast []
  | i :: rest => .on [] i rest

def onLast (items : List (Item κ δ)) : Tape κ δ :=
  match items.getLast? with
  | none => .beforeFirst []
  | some i => .on items.dropLast i []

/-- At the end `next` does not move. From after the last item it moves to the last one and reports the end, too. -/
def next : Tape κ δ → Tape κ δ × Option (Item κ δ)
  | .beforeFirst [] => (.beforeFirst [], none)
  | .beforeFirst (i :: rest) => (.on [] i rest, some i)
  | .on before i [] => (.on before i [], none)
  | .on before i (j :: after) => (.on (before ++ [i]) j after, some j)
  | .afterLast items => (onLast items, none)

def prev : Tape κ δ → Tape κ δ × Option (Item κ δ)
  | .beforeFirst items => (onFirst items, none)
  | .on before i after =>
    match before.getLast? with
    | none => (.on before i after, none)
    | some j => (.on before.dropLast j (i :: after), some j)
  | .afterLast items => (if items = [] then .afterLast [] else onLast items, items.getLast?)

def current : Tape κ δ → Option (Item κ δ)
  | .on _ i _ => some i
  | _ => none

def remove : Tape κ δ → Tape κ δ
  | .on before _ [] => .afterLast before
  | .on before _ (j :: after) => .on before j after
  | t => t

def replace (i : Item κ δ) : Tape κ δ → Tape κ δ
  | .on before _ after => .on before i after
  | t => t

def append (i : Item κ δ) : Tape κ δ → Tape κ δ
  | .beforeFirst items => .beforeFirst (items ++ [i])
  | .on before j after => .on before j (after ++ [i])
  | .afterLast items => .afterLast (items ++ [i])

def toFront : Tape κ δ → Tape κ δ
  | .afterLast items => .beforeFirst items
  | t => t

def toBack : Tape κ δ → Tape κ δ
  | .beforeFirst items => .afterLast items
  | t => t

def insertAfter (i : Item κ δ) : Tape κ δ → Tape κ δ
  | .beforeFirst items => .beforeFirst (i :: items)
  | .on before j after => .on before j (i :: after)
  | .afterLast items => .beforeFirst (i :: items)

def insertBefore (i : Item κ δ) : Tape κ δ → Tape κ δ
  | .beforeFirst items => .afterLast (items ++ [i])
  | .on before j after => .on (before ++ [i]) j after
  | .afterLast items => .afterLast (items ++ [i])

/-- What taking the first item does; under the iterator, that is left open. -/
def Drops : Tape κ δ → Tape κ δ → Prop
  | .beforeFirst items, t' => t' = .beforeFirst items.tail
  | .on [] _ after, t' => t'.items = after
  | .on (_ :: before) i after, t' => t' = .on before i after
  | .afterLast items, t' => t' = .afterLast items.tail

end Tape

inductive Op (κ δ : Type) where
  | enqueue (i : Item κ δ)
  | insertBefore (i : Item κ δ)
  | insertAfter (i : Item κ δ)
  | replace (i : Item κ δ)
  | remove
  | toBegin
  | toEnd
  | next
  | prev
  | cur
  | poll
  | timedDispatch

def perform (q : Queue κ δ) : Op κ δ → Queue κ δ × Reply κ δ
  | .enqueue i => q.enqueue i
  | .insertBefore i => q.insertBefore i
  | .insertAfter i => q.insertAfter i
  | .replace i => q.replace i
  | .remove => q.remove
  | .toBegin => q.begin
  | .toEnd => q.end
  | .next => q.next
  | .prev => q.prev
  | .cur => q.cur
  | .poll => q.poll
  | .timedDispatch => q.timedDispatch

def step (q : Queue κ δ) (op : Op κ δ) : Queue κ δ := (perform q op).1

def readReply : Option (Item κ δ) → Reply κ δ
  | none => { status := .atEnd, out := some (none, none) }
  | some i => { status := .ok, out := some (i.data, i.closure) }

def Adds (q : Queue κ δ) (reply : Reply κ δ) (t added t' : Tape κ δ) : Prop :=
  reply = { status := .ok } ∧ t' = added ∨
  reply = { status := .full } ∧ q.maxSize.toNat < q.getSize + q.chunkSize.toNat ∧ t' = t

def Takes (none' : Status) (reply : Reply κ δ) (t t' : Tape κ δ) : Prop :=
  match t.items with
  | [] => reply = { status := none' } ∧ t' = t
  | i :: _ => reply = took i ∧ t.Drops t'

/-- What the operation may reply and do to the tape. -/
def Spec (q : Queue κ δ) (op : Op κ δ) (t t' : Tape κ δ) : Prop :=
  let reply := (perform q op).2
  match op with
  | .enqueue i => Adds q reply t (t.append i) t'
  | .insertBefore i => Adds q reply t.toBack (t.insertBefore i) t'
  | .insertAfter i => Adds q reply t.toFront (t.insertAfter i) t'
  | .replace i => reply = { status := if t.current.isSome then .ok else .atEnd } ∧ t' = t.replace i
  | .remove =>
    reply = (match t.current with
      | none => { status := .atEnd }
      | some i => { status := .ok, out := some (i.data, i.closure) }) ∧ t' = t.remove
  | .toBegin => reply = { status := .ok } ∧ t' = .beforeFirst t.items
  | .toEnd => reply = { status := .ok } ∧ t' = .afterLast t.items
  | .next => reply = readReply t.next.2 ∧ t' = t.next.1
  | .prev => reply = readReply t.prev.2 ∧ t' = t.prev.1
  | .cur => reply = readReply t.current ∧ t' = t
  | .poll => Takes .wouldBlock reply t t'
  | .timedDispatch => Takes .timeout reply t t'

def Points (q : Queue κ δ) (nodes : List Nat) : Tape κ δ → Prop
  | .beforeFirst items => q.iterator = .head ∧ q.itemsOf nodes = items
  | .on before i after =>
    ∃ ns n ms, nodes = ns ++ n :: ms ∧ q.iterator = .node n ∧ q.itemsOf ns = before ∧ q.itemOf (.node n) = i ∧
      q.itemsOf ms = after
  | .afterLast items => q.iterator = .tail ∧ q.itemsOf nodes = items

/-- The queue holds the tape, and its size is the number of items and at most the maximum. -/
structure Shows (q : Queue κ δ) (t : Tape κ δ) : Prop where
  points : ∃ nodes free, q.Holds nodes free ∧ Points q nodes t
  chunkSize : q.chunkSize ≠ 0
  unblocking : q.unblocking = false
  getSize : q.getSize = t.items.length
  le_maxSize : q.getSize ≤ q.maxSize.toNat

/-- No element is removed under the iterator, no callback is replaced by another, and the element under the iterator
is not dispatched. -/
def Faithful (q : Queue κ δ) : Op κ δ → Prop
  | .replace i => q.AtSentinel ∨ i.cb = (q.itemOf q.iterator).cb
  | .remove => q.AtSentinel
  | .poll => q.getSize = 0 ∨ q.iterator ≠ q.nextOf .head
  | .timedDispatch => q.getSize = 0 ∨ q.iterator ≠ q.nextOf .head
  | _ => True

def Admits (q : Queue κ δ) : Op κ δ → Prop
  | .enqueue _ => q.Refuses ∨ q.getSize < q.maxSize.toNat
  | .insertBefore _ => q.Refuses ∨ q.getSize < q.maxSize.toNat
  | .insertAfter _ => q.Refuses ∨ q.getSize < q.maxSize.toNat
  | _ => True

instance [DecidableEq κ] (q : Queue κ δ) : (op : Op κ δ) → Decidable (Faithful q op)
  | .replace _ => inferInstanceAs (Decidable (_ ∨ _))
  | .remove => inferInstanceAs (Decidable q.AtSentinel)
  | .poll => inferInstanceAs (Decidable (_ ∨ _))
  | .timedDispatch => inferInstanceAs (Decidable (_ ∨ _))
  | .enqueue _ | .insertBefore _ | .insertAfter _ | .toBegin | .toEnd | .next | .prev | .cur => isTrue trivial

instance (q : Queue κ δ) : (op : Op κ δ) → Decidable (Admits q op)
  | .enqueue _ => inferInstanceAs (Decidable (_ ∨ _))
  | .insertBefore _ => inferInstanceAs (Decidable (_ ∨ _))
  | .insertAfter _ => inferInstanceAs (Decidable (_ ∨ _))
  | .replace _ | .remove | .toBegin | .toEnd | .next | .prev | .cur | .poll | .timedDispatch => isTrue trivial

variable {q : Queue κ δ} {t t' : Tape κ δ} {nodes free xs ys : List Nat} {i : Item κ δ}

theorem Points.itemsOf_eq (h : Points q nodes t) : q.itemsOf nodes = t.items := by
  cases t with
  | beforeFirst _ => exact h.2
  | on _ i _ =>
    obtain ⟨_, n, _, rfl, -, hbefore, hi, hafter⟩ := h
    rw [← hbefore, ← hi, ← hafter, itemsOf, map_append]
    rfl
  | afterLast _ => exact h.2

theorem Points.atSentinel_iff (h : Points q nodes t) : q.AtSentinel ↔ t.current = none := by
  cases t with
  | beforeFirst _ => exact iff_of_true (.inl h.1) rfl
  | on _ i _ =>
    obtain ⟨_, n, _, -, hiterator, -⟩ := h
    refine iff_of_false ?_ nofun
    rintro (hhead | htail)
    · cases hiterator.symm.trans hhead
    · cases hiterator.symm.trans htail
  | afterLast _ => exact iff_of_true (.inr h.1) rfl

theorem Points.current_eq (h : Points q nodes t) (hcurrent : t.current = some i) : q.current = (i.data, i.closure) := by
  cases t with
  | beforeFirst _ => cases hcurrent
  | on _ j _ =>
    obtain ⟨_, n, _, -, hiterator, -, hj, -⟩ := h
    rw [current, hiterator, hj, Option.some.inj hcurrent]
  | afterLast _ => cases hcurrent

/-! ### Moving the iterator -/

theorem Shows.move (h : Shows q t) {r : Ref} (hholds : q.Holds nodes free)
    (hpoints : Points { q with iterator := r } nodes t') : Shows { q with iterator := r } t' := by
  obtain ⟨_, _, hholds', hpoints'⟩ := h.points
  obtain rfl := hholds.unique hholds'
  have hitems : t'.items = t.items := hpoints.itemsOf_eq.symm.trans hpoints'.itemsOf_eq
  exact ⟨⟨nodes, free, { hholds with }, hpoints⟩, h.chunkSize, h.unblocking, hitems ▸ h.getSize, h.le_maxSize⟩

theorem points_onFirst (q : Queue κ δ) (nodes : List Nat) :
    Points { q with iterator := firstRef nodes } nodes (Tape.onFirst (q.itemsOf nodes)) := by
  cases nodes with
  | nil => exact ⟨rfl, rfl⟩
  | cons n ms => exact ⟨[], n, ms, rfl, rfl, rfl, rfl, rfl⟩

theorem points_onLast (q : Queue κ δ) (nodes : List Nat) :
    Points { q with iterator := lastRef nodes } nodes (Tape.onLast (q.itemsOf nodes)) := by
  rcases eq_nil_or_concat' nodes with rfl | ⟨ns, n, rfl⟩
  · exact ⟨rfl, rfl⟩
  · have hitems : q.itemsOf (ns ++ [n]) = q.itemsOf ns ++ [q.itemOf (.node n)] := map_append
    rw [hitems, Tape.onLast, getLast?_concat, dropLast_concat]
    exact ⟨ns, n, [], rfl, by simp [lastRef], rfl, rfl, rfl⟩

theorem next_of_tail (h : q.nextOf q.iterator = .tail) :
    q.next = ({ q with iterator := q.prevOf .tail }, readReply none) := by
  simp only [next, h]
  rfl

theorem next_of_ne (h : q.nextOf q.iterator ≠ .tail) :
    q.next = ({ q with iterator := q.nextOf q.iterator }, readReply (some (q.itemOf (q.nextOf q.iterator)))) := by
  rw [next, if_neg h]
  rfl

theorem prev_of_head (h : q.prevOf q.iterator = .head) :
    q.prev = ({ q with iterator := q.nextOf .head }, readReply none) := by
  simp only [prev, h]
  rfl

theorem prev_of_ne (h : q.prevOf q.iterator ≠ .head) :
    q.prev = ({ q with iterator := q.prevOf q.iterator }, readReply (some (q.itemOf (q.prevOf q.iterator)))) := by
  rw [prev, if_neg h]
  rfl

section

variable (h : Shows q t)
include h

theorem Shows.next : q.next.2 = readReply t.next.2 ∧ Shows q.next.1 t.next.1 := by
  obtain ⟨nodes, _, hholds, hpoints⟩ := h.points
  cases t with
  | beforeFirst _ =>
    obtain ⟨hiterator, rfl⟩ := hpoints
    have hnext : q.nextOf q.iterator = firstRef nodes := hiterator ▸ hholds.first
    cases nodes with
    | nil =>
      rw [next_of_tail hnext, hholds.last]
      exact ⟨rfl, h.move hholds ⟨rfl, rfl⟩⟩
    | cons n ms =>
      rw [next_of_ne (hnext ▸ by nofun), hnext]
      exact ⟨rfl, h.move hholds ⟨[], n, ms, rfl, rfl, rfl, rfl, rfl⟩⟩
  | on _ i _ =>
    obtain ⟨ns, n, ms, rfl, hiterator, rfl, rfl, rfl⟩ := hpoints
    have hnext : q.nextOf q.iterator = firstRef ms := hiterator ▸ hholds.after
    cases ms with
    | nil =>
      rw [next_of_tail hnext, hholds.last, lastRef_concat]
      exact ⟨rfl, h.move hholds ⟨ns, n, [], rfl, rfl, rfl, rfl, rfl⟩⟩
    | cons m ms =>
      rw [next_of_ne (hnext ▸ by nofun), hnext]
      refine ⟨rfl, h.move hholds ⟨ns ++ [n], m, ms, ?_, rfl, map_append, rfl, rfl⟩⟩
      rw [append_assoc]
      rfl
  | afterLast _ =>
    obtain ⟨hiterator, rfl⟩ := hpoints
    rw [next_of_tail (hiterator ▸ hholds.tailNext), hholds.last]
    exact ⟨rfl, h.move hholds (points_onLast q nodes)⟩

theorem Shows.prev : q.prev.2 = readReply t.prev.2 ∧ Shows q.prev.1 t.prev.1 := by
  obtain ⟨nodes, _, hholds, hpoints⟩ := h.points
  cases t with
  | beforeFirst _ =>
    obtain ⟨hiterator, rfl⟩ := hpoints
    rw [prev_of_head (hiterator ▸ hholds.headPrev), hholds.first]
    exact ⟨rfl, h.move hholds (points_onFirst q nodes)⟩
  | on _ i _ =>
    obtain ⟨ns, n, ms, rfl, hiterator, rfl, rfl, rfl⟩ := hpoints
    have hprev : q.prevOf q.iterator = lastRef ns := hiterator ▸ hholds.adjacent.2
    rcases eq_nil_or_concat' ns with rfl | ⟨ns, m, rfl⟩
    · rw [prev_of_head hprev, hholds.first]
      exact ⟨rfl, h.move hholds ⟨[], n, ms, rfl, rfl, rfl, rfl, rfl⟩⟩
    · have hitems : q.itemsOf (ns ++ [m]) = q.itemsOf ns ++ [q.itemOf (.node m)] := map_append
      rw [lastRef_concat] at hprev
      rw [prev_of_ne (hprev ▸ by nofun), hprev, hitems, Tape.prev, getLast?_concat, dropLast_concat]
      refine ⟨rfl, h.move hholds ⟨ns, m, n :: ms, ?_, rfl, rfl, rfl, rfl⟩⟩
      rw [append_assoc]
      rfl
  | afterLast _ =>
    obtain ⟨hiterator, rfl⟩ := hpoints
    have hprev : q.prevOf q.iterator = lastRef nodes := hiterator ▸ hholds.last
    rcases eq_nil_or_concat' nodes with rfl | ⟨ns, n, rfl⟩
    · rw [prev_of_head hprev, hholds.first]
      exact ⟨rfl, h.move hholds ⟨rfl, rfl⟩⟩
    · have hitems : q.itemsOf (ns ++ [n]) = q.itemsOf ns ++ [q.itemOf (.node n)] := map_append
      have hne : q.itemsOf (ns ++ [n]) ≠ [] := by rw [hitems]; simp
      have hlast := points_onLast q (ns ++ [n])
      rw [lastRef_concat] at hprev hlast
      rw [prev_of_ne (hprev ▸ by nofun), hprev, Tape.prev, if_neg hne]
      refine ⟨?_, h.move hholds hlast⟩
      rw [hitems, getLast?_concat]

theorem Shows.cur : q.cur = (q, readReply t.current) := by
  obtain ⟨_, _, -, hpoints⟩ := h.points
  by_cases hsentinel : q.AtSentinel
  · rw [Queue.cur, if_pos hsentinel, hpoints.atSentinel_iff.mp hsentinel]
    rfl
  · obtain ⟨i, hi⟩ := Option.ne_none_iff_exists'.mp (fun hnone => hsentinel (hpoints.atSentinel_iff.mpr hnone))
    rw [Queue.cur, if_neg hsentinel, hi, hpoints.current_eq hi]
    rfl

theorem Shows.toBegin : Shows q.begin.1 (.beforeFirst t.items) := by
  obtain ⟨_, _, hholds, hpoints⟩ := h.points
  exact h.move hholds ⟨rfl, hpoints.itemsOf_eq⟩

theorem Shows.toEnd : Shows q.end.1 (.afterLast t.items) := by
  obtain ⟨_, _, hholds, hpoints⟩ := h.points
  exact h.move hholds ⟨rfl, hpoints.itemsOf_eq⟩

theorem Shows.remove_iff :
    (∃ t', Spec q .remove t t' ∧ Shows (step q .remove) t') ↔ Faithful q .remove := by
  obtain ⟨_, _, -, hpoints⟩ := h.points
  by_cases hsentinel : q.AtSentinel
  · have hnone := hpoints.atSentinel_iff.mp hsentinel
    have hremove : q.remove = (q, { status := .atEnd }) := by rw [remove, if_pos hsentinel]
    have hstay : t.remove = t := by
      cases t with
      | beforeFirst _ => rfl
      | on _ i _ => cases hnone
      | afterLast _ => rfl
    refine iff_of_true ⟨t.remove, ⟨?_, rfl⟩, ?_⟩ hsentinel
    · rw [perform, hremove, hnone]
    · rw [step, perform, hremove, hstay]
      exact h
  · refine iff_of_false ?_ hsentinel
    rintro ⟨_, ⟨-, rfl⟩, hshows⟩
    have hsize : (step q .remove).getSize = q.getSize := by
      rw [step, perform, remove, if_neg hsentinel]
      rfl
    have hlength : t.remove.items.length + 1 = t.items.length := by
      cases t with
      | beforeFirst | afterLast => exact absurd (hpoints.atSentinel_iff.mpr rfl) hsentinel
      | on _ i after => cases after <;> simp [Tape.remove, Tape.items, Nat.add_assoc]
    have hgetSize := hshows.getSize
    have hgetSize' := h.getSize
    omega

theorem Shows.replace_iff (i : Item κ δ) :
    (∃ t', Spec q (.replace i) t t' ∧ Shows (step q (.replace i)) t') ↔ Faithful q (.replace i) := by
  obtain ⟨_, free, hholds, hpoints⟩ := h.points
  change _ ↔ q.AtSentinel ∨ i.cb = (q.itemOf q.iterator).cb
  by_cases hsentinel : q.AtSentinel
  · have hnone := hpoints.atSentinel_iff.mp hsentinel
    have hreplace : q.replace i = (q, { status := .atEnd }) := by rw [replace, if_pos hsentinel]
    have hstay : t.replace i = t := by
      cases t with
      | beforeFirst _ => rfl
      | on _ j _ => cases hnone
      | afterLast _ => rfl
    refine iff_of_true ⟨t.replace i, ⟨?_, rfl⟩, ?_⟩ (.inl hsentinel)
    · rw [perform, hreplace, hnone]
      rfl
    · rw [step, perform, hreplace, hstay]
      exact h
  · rw [or_iff_right hsentinel]
    cases t with
    | beforeFirst _ => exact absurd (.inl hpoints.1) hsentinel
    | on before j after =>
      obtain ⟨ns, n, ms, rfl, hiterator, hbefore, hj, hafter⟩ := hpoints
      have hreplace : q.replace i =
          ({ q with itemOf := Function.update q.itemOf (.node n) { i with cb := j.cb } }, { status := .ok }) := by
        rw [replace, if_neg hsentinel, hiterator, hj]
      have hnodup := hholds.nodes_nodup
      rw [nodup_middle, nodup_cons, mem_append, not_or] at hnodup
      have hkeep : ∀ ks : List Nat, n ∉ ks → ks.map (fun m =>
          Function.update q.itemOf (.node n) { i with cb := j.cb } (.node m)) = q.itemsOf ks := by
        intro _ hn
        refine map_congr_left (fun m hm => Function.update_of_ne (fun heq => hn ?_) _ _)
        rwa [← Ref.node.inj heq]
      have hself := Function.update_self (Ref.node n) { i with cb := j.cb } q.itemOf
      rw [hiterator, hj]
      constructor
      · rintro ⟨_, ⟨-, rfl⟩, hshows⟩
        rw [step, perform, hreplace] at hshows
        obtain ⟨_, _, _, _, n', _, _, hiterator', _, hitem, _⟩ := hshows.points
        obtain rfl : n = n' := Ref.node.inj (hiterator.symm.trans hiterator')
        exact (congrArg Item.cb (hself.symm.trans hitem)).symm
      · intro hcb
        refine ⟨.on before i after, ⟨by rw [perform, hreplace]; rfl, rfl⟩, ?_⟩
        rw [step, perform, hreplace]
        refine ⟨⟨_, free, { hholds with }, ns, n, ms, rfl, hiterator, ?_, ?_, ?_⟩, h.chunkSize,
          h.unblocking, ?_, h.le_maxSize⟩
        · exact (hkeep ns hnodup.1.1).trans hbefore
        · exact hself.trans (by rw [← hcb])
        · exact (hkeep ms hnodup.1.2).trans hafter
        · have hgetSize := h.getSize
          simp only [Tape.items, length_append, length_cons] at hgetSize ⊢
          exact hgetSize
    | afterLast _ => exact absurd (.inr hpoints.1) hsentinel

theorem Shows.take_iff {rest : List (Item κ δ)} (hitems : t.items = i :: rest) :
    (∃ t', (q.down.takeFirst.2 = took i ∧ t.Drops t') ∧ Shows q.down.takeFirst.1 t') ↔ q.iterator ≠ q.nextOf .head := by
  obtain ⟨nodes, free, hholds, hpoints⟩ := h.points
  have hnodes := hpoints.itemsOf_eq.trans hitems
  cases nodes with
  | nil => cases hnodes
  | cons n nodes =>
    obtain ⟨rfl, rfl⟩ := List.cons.inj hnodes
    have hdown : q.down.Holds (n :: nodes) free := { hholds with }
    obtain ⟨hholds', hreply⟩ := hdown.takeFirst
    have hnodup := nodup_cons.mp hholds.nodes_nodup
    have hlength : q.down.takeFirst.1.getSize = nodes.length := by
      have hgetSize := h.getSize
      rw [hitems, length_cons, length_map] at hgetSize
      change q.sem - 1 = nodes.length
      change q.sem = _ at hgetSize
      omega
    -- the rest is spelled out by any tape for which the iterator is right
    have hshow : ∀ t' : Tape κ δ, Points q.down.takeFirst.1 nodes t' → Shows q.down.takeFirst.1 t' := by
      intro _ hpoints'
      refine ⟨⟨_, _, hholds', hpoints'⟩, h.chunkSize, h.unblocking, ?_, ?_⟩
      · rw [hlength, ← hpoints'.itemsOf_eq, itemsOf, length_map]
      · exact Nat.le_trans (Nat.sub_le _ _) h.le_maxSize
    rw [hholds.nextOf_head_cons]
    cases t with
    | beforeFirst items =>
      obtain ⟨hiterator, -⟩ := hpoints
      refine iff_of_true ⟨.beforeFirst items.tail, ⟨hreply, rfl⟩, hshow _ ⟨hiterator, ?_⟩⟩ (by simp [hiterator])
      rw [show items = _ from hitems, tail_cons]
      rfl
    | on _ j _ =>
      obtain ⟨ns, m, ms, hsplit, hiterator, rfl, rfl, rfl⟩ := hpoints
      cases ns with
      | nil =>
        obtain ⟨rfl, rfl⟩ := List.cons.inj hsplit
        refine iff_of_false ?_ (fun hne => hne hiterator)
        rintro ⟨t', -, hshows⟩
        obtain ⟨_, _, hholds'', hpoints'⟩ := hshows.points
        obtain rfl := hholds'.unique hholds''
        cases t' with
        | beforeFirst _ => cases hiterator.symm.trans hpoints'.1
        | on _ _ _ =>
          obtain ⟨_, m', _, rfl, hiterator', -⟩ := hpoints'
          obtain rfl : n = m' := Ref.node.inj (hiterator.symm.trans hiterator')
          exact hnodup.1 (by simp)
        | afterLast _ => cases hiterator.symm.trans hpoints'.1
      | cons k ns =>
        obtain ⟨rfl, rfl⟩ := List.cons.inj hsplit
        refine iff_of_true ⟨.on (q.itemsOf ns) (q.itemOf (.node m)) (q.itemsOf ms), ⟨hreply, rfl⟩,
          hshow _ ⟨ns, m, ms, rfl, hiterator, rfl, rfl, rfl⟩⟩ ?_
        rw [hiterator]
        exact fun heq => hnodup.1 (Ref.node.inj heq ▸ by simp)
    | afterLast items =>
      obtain ⟨hiterator, -⟩ := hpoints
      refine iff_of_true ⟨.afterLast items.tail, ⟨hreply, rfl⟩, hshow _ ⟨hiterator, ?_⟩⟩ (by simp [hiterator])
      rw [show items = _ from hitems]
      rfl

theorem Shows.getSize_eq_zero : q.getSize = 0 ↔ t.items = [] := by rw [h.getSize, length_eq_zero_iff]

theorem Shows.takes_iff {r : Queue κ δ × Reply κ δ} {none' : Status}
    (hempty : q.sem = 0 → r = (q, { status := none' })) (hfull : q.sem ≠ 0 → r = q.down.takeFirst) :
    (∃ t', Takes none' r.2 t t' ∧ Shows r.1 t') ↔ q.getSize = 0 ∨ q.iterator ≠ q.nextOf .head := by
  rw [h.getSize_eq_zero]
  simp only [Takes]
  cases hitems : t.items with
  | nil =>
    rw [hempty (h.getSize_eq_zero.mpr hitems)]
    exact iff_of_true ⟨t, ⟨rfl, rfl⟩, h⟩ (.inl rfl)
  | cons i _ =>
    have hsem : q.sem ≠ 0 := fun hzero => nomatch hitems.symm.trans (h.getSize_eq_zero.mp hzero)
    rw [hfull hsem, or_iff_right nofun]
    exact h.take_iff hitems

theorem Shows.poll_iff : (∃ t', Spec q .poll t t' ∧ Shows (step q .poll) t') ↔ Faithful q .poll :=
  h.takes_iff (r := q.poll) (fun hsem => if_pos hsem) fun hsem => if_neg hsem

theorem Shows.timedDispatch_iff :
    (∃ t', Spec q .timedDispatch t t' ∧ Shows (step q .timedDispatch) t') ↔ Faithful q .timedDispatch := by
  refine h.takes_iff (r := q.timedDispatch) (fun hsem => if_pos hsem) fun hsem => ?_
  obtain ⟨_, _, hholds, hpoints⟩ := h.points
  have hhead : q.down.nextOf .head ≠ .tail := by
    intro hnil
    rw [hholds.nextOf_head.mp hnil] at hpoints
    exact hsem (h.getSize_eq_zero.mpr hpoints.itemsOf_eq.symm)
  rw [timedDispatch, if_neg hsem, dispatchSection, if_neg (by simp [down, h.unblocking]), if_neg hhead]

/-! ### Adding an item -/

theorem Shows.adds_iff (hholds : q.Holds (xs ++ ys) free) (i : Item κ δ)
    {put : Queue κ δ → Ref → Queue κ δ} {added : Tape κ δ}
    (hput : ∀ (q' : Queue κ δ) (n : Nat), q'.iterator = q.iterator → q'.nextOf (lastRef xs) = firstRef ys →
      q'.prevOf (firstRef ys) = lastRef xs → lastRef xs ≠ .node n →
      put q' (.node n) = q'.between (lastRef xs) (.node n) (firstRef ys))
    (hpoints : ∀ (q' : Queue κ δ) (n : Nat), q'.iterator = q.iterator → q'.itemsOf xs = q.itemsOf xs →
      q'.itemOf (.node n) = i → q'.itemsOf ys = q.itemsOf ys → Points q' (xs ++ n :: ys) added) :
    (∃ t', Adds q (announce (q.add i put)).2 t added t' ∧ Shows (announce (q.add i put)).1 t')
      ↔ q.Refuses ∨ q.getSize < q.maxSize.toNat := by
  by_cases hrefuses : q.Refuses
  · rw [hrefuses.add_eq]
    refine iff_of_true ⟨t, .inr ⟨rfl, ?_, rfl⟩, h⟩ (.inl hrefuses)
    have hlt := UInt32.lt_iff_toNat_lt.mp hrefuses.2
    rw [UInt32.toNat_add, UInt32.toNat_ofNat'] at hlt
    change q.maxSize.toNat < q.sem + q.chunkSize.toNat
    omega
  · rw [or_iff_right hrefuses]
    obtain ⟨_, _, hgap⟩ := gap_refs xs ys
    obtain ⟨q', n, _, hadd, hholds', hkeeps, -, hitems⟩ := hholds.add (i := i) h.chunkSize hrefuses hgap put hput
    have hannounce : announce (q.add i put) = (q'.post, { status := .ok }) := by
      rw [hadd]
      rfl
    have hsplit : q'.itemsOf xs ++ q'.itemsOf (n :: ys) = q.itemsOf xs ++ i :: q.itemsOf ys :=
      map_append.symm.trans hitems
    obtain ⟨hxs, hcons⟩ := append_inj hsplit (by simp [itemsOf])
    obtain ⟨hi, hys⟩ := List.cons.inj hcons
    have hpoints' := hpoints q'.post n hkeeps.iterator hxs hi hys
    have hlength : added.items.length = q.getSize + 1 := by
      obtain ⟨_, _, hold, hpointsOld⟩ := h.points
      rw [← hpoints'.itemsOf_eq, h.getSize, ← hpointsOld.itemsOf_eq, ← hholds.unique hold]
      simp [itemsOf, Nat.add_assoc]
    have hgetSize : q'.post.getSize = q.getSize + 1 := congrArg (· + 1) hkeeps.sem
    have hmaxSize : q'.post.maxSize = q.maxSize := hkeeps.maxSize
    rw [hannounce]
    constructor
    · rintro ⟨_, -, hshows⟩
      have hle := hshows.le_maxSize
      rw [hgetSize, hmaxSize] at hle
      exact hle
    · intro hlt
      refine ⟨added, .inl ⟨rfl, rfl⟩, ⟨_, _, { hholds' with }, hpoints'⟩, ?_, ?_, ?_, ?_⟩
      · exact hkeeps.chunkSize ▸ h.chunkSize
      · exact hkeeps.unblocking.trans h.unblocking
      · rw [hgetSize, hlength]
      · rw [hgetSize, hmaxSize]
        exact hlt

theorem Shows.enqueue_iff (i : Item κ δ) :
    (∃ t', Spec q (.enqueue i) t t' ∧ Shows (step q (.enqueue i)) t') ↔ Admits q (.enqueue i) := by
  obtain ⟨nodes, free, hholds, hpoints⟩ := h.points
  have hnodes : q.Holds (nodes ++ []) free := by rwa [append_nil]
  apply h.adds_iff hnodes i (fun q' n _ _ hprev _ => putBefore_eq hprev)
  intro q' n hiterator hxs hi _
  have hitems : q'.itemsOf (nodes ++ [n]) = q.itemsOf nodes ++ [i] := by
    rw [← hxs, ← hi]
    exact map_append
  cases t with
  | beforeFirst | afterLast => exact ⟨hiterator.trans hpoints.1, hitems.trans (by rw [hpoints.2])⟩
  | on _ j _ =>
    obtain ⟨ns, m, ms, rfl, hm, rfl, rfl, rfl⟩ := hpoints
    obtain ⟨hns, hrest⟩ := append_inj ((map_append).symm.trans (hxs.trans map_append)) (by simp)
    obtain ⟨hj, hms⟩ := List.cons.inj hrest
    refine ⟨ns, m, ms ++ [n], by simp, hiterator.trans hm, hns, hj, ?_⟩
    have hlast : q'.itemsOf (ms ++ [n]) = q'.itemsOf ms ++ [q'.itemOf (.node n)] := map_append
    rw [hlast, hi, show q'.itemsOf ms = q.itemsOf ms from hms]

theorem Shows.insertAfter_iff (i : Item κ δ) :
    (∃ t', Spec q (.insertAfter i) t t' ∧ Shows (step q (.insertAfter i)) t') ↔ Admits q (.insertAfter i) := by
  obtain ⟨nodes, free, hholds, hpoints⟩ := h.points
  -- before the first element, whether the iterator was there or has gone round
  have hfront : ∀ {q₀ : Queue κ δ} {t₀ : Tape κ δ}, Shows q₀ t₀ → q₀.Holds ([] ++ nodes) free →
      q₀.iterator = .head →
      ((∃ t', Adds q₀ (announce (q₀.add i (fun q item => q.putAfter item q.iterator))).2 t₀
          (.beforeFirst (i :: q₀.itemsOf nodes)) t' ∧
        Shows (announce (q₀.add i (fun q item => q.putAfter item q.iterator))).1 t')
        ↔ q₀.Refuses ∨ q₀.getSize < q₀.maxSize.toNat) := by
    intro _ _ h₀ hholds₀ hhead
    refine h₀.adds_iff hholds₀ i ?_ ?_
    · intro _ n hiterator hnext _ hne
      exact (hiterator.trans hhead).symm ▸ putAfter_eq hnext hne
    · intro _ n hiterator _ hi hys
      exact ⟨hiterator.trans hhead, by rw [← hi, ← hys]; rfl⟩
  cases t with
  | beforeFirst _ =>
    obtain ⟨hhead, rfl⟩ := hpoints
    simp only [Spec, step, perform, insertAfter, if_neg (show q.iterator ≠ .tail from hhead ▸ by nofun)]
    exact hfront h hholds hhead
  | on _ j _ =>
    obtain ⟨ns, m, ms, rfl, hm, rfl, rfl, rfl⟩ := hpoints
    have hnodes : q.Holds ((ns ++ [m]) ++ ms) free := by rwa [append_assoc]
    simp only [Spec, step, perform, insertAfter, if_neg (show q.iterator ≠ .tail from hm ▸ by nofun)]
    refine h.adds_iff hnodes i ?_ ?_
    · intro _ n hiterator hnext _ hne
      rw [lastRef_concat] at hnext hne ⊢
      exact (hiterator.trans hm).symm ▸ putAfter_eq hnext hne
    · intro _ n hiterator hxs hi hys
      obtain ⟨hns, hj⟩ := append_inj ((map_append).symm.trans (hxs.trans map_append)) (by simp)
      refine ⟨ns, m, n :: ms, by simp, hiterator.trans hm, hns, (List.cons.inj hj).1, ?_⟩
      rw [← hi, ← hys]
      rfl
  | afterLast _ =>
    obtain ⟨htail, rfl⟩ := hpoints
    simp only [Spec, step, perform, insertAfter, if_pos htail]
    exact hfront (h.move hholds ⟨rfl, rfl⟩) { hholds with } rfl

theorem Shows.insertBefore_iff (i : Item κ δ) :
    (∃ t', Spec q (.insertBefore i) t t' ∧ Shows (step q (.insertBefore i)) t') ↔ Admits q (.insertBefore i) := by
  obtain ⟨nodes, free, hholds, hpoints⟩ := h.points
  have hback : ∀ {q₀ : Queue κ δ} {t₀ : Tape κ δ}, Shows q₀ t₀ → q₀.Holds (nodes ++ []) free →
      q₀.iterator = .tail →
      ((∃ t', Adds q₀ (announce (q₀.add i (fun q item => q.putBefore item q.iterator))).2 t₀
          (.afterLast (q₀.itemsOf nodes ++ [i])) t' ∧
        Shows (announce (q₀.add i (fun q item => q.putBefore item q.iterator))).1 t')
        ↔ q₀.Refuses ∨ q₀.getSize < q₀.maxSize.toNat) := by
    intro _ _ h₀ hholds₀ htail
    refine h₀.adds_iff hholds₀ i ?_ ?_
    · intro _ n hiterator _ hprev _
      exact (hiterator.trans htail).symm ▸ putBefore_eq hprev
    · intro _ n hiterator hxs hi _
      exact ⟨hiterator.trans htail, by rw [← hi, ← hxs]; exact map_append⟩
  have hnodes : q.Holds (nodes ++ []) free := by rwa [append_nil]
  cases t with
  | beforeFirst _ =>
    obtain ⟨hhead, rfl⟩ := hpoints
    simp only [Spec, step, perform, insertBefore, if_pos hhead]
    exact hback (h.move hholds ⟨rfl, rfl⟩) { hnodes with } rfl
  | on _ j _ =>
    obtain ⟨ns, m, ms, rfl, hm, rfl, rfl, rfl⟩ := hpoints
    simp only [Spec, step, perform, insertBefore, if_neg (show q.iterator ≠ .head from hm ▸ by nofun)]
    refine h.adds_iff hholds i ?_ ?_
    · intro _ n hiterator _ hprev _
      exact (hiterator.trans hm).symm ▸ putBefore_eq hprev
    · intro _ n hiterator hxs hi hys
      obtain ⟨hj, hms⟩ := List.cons.inj hys
      refine ⟨ns ++ [n], m, ms, by simp, hiterator.trans hm, ?_, hj, hms⟩
      rw [← hi, ← hxs]
      exact map_append
  | afterLast _ =>
    obtain ⟨htail, rfl⟩ := hpoints
    simp only [Spec, step, perform, insertBefore, if_neg (show q.iterator ≠ .head from htail ▸ by nofun)]
    exact hback h hnodes htail

theorem Shows.step_iff (op : Op κ δ) :
    (∃ t', Spec q op t t' ∧ Shows (step q op) t') ↔ Faithful q op ∧ Admits q op := by
  cases op with
  | enqueue i => exact (h.enqueue_iff i).trans (and_iff_right trivial).symm
  | insertBefore i => exact (h.insertBefore_iff i).trans (and_iff_right trivial).symm
  | insertAfter i => exact (h.insertAfter_iff i).trans (and_iff_right trivial).symm
  | replace i => exact (h.replace_iff i).trans (and_iff_left trivial).symm
  | remove => exact h.remove_iff.trans (and_iff_left trivial).symm
  | toBegin => exact iff_of_true ⟨_, ⟨rfl, rfl⟩, h.toBegin⟩ ⟨trivial, trivial⟩
  | toEnd => exact iff_of_true ⟨_, ⟨rfl, rfl⟩, h.toEnd⟩ ⟨trivial, trivial⟩
  | next => exact iff_of_true ⟨_, ⟨h.next.1, rfl⟩, h.next.2⟩ ⟨trivial, trivial⟩
  | prev => exact iff_of_true ⟨_, ⟨h.prev.1, rfl⟩, h.prev.2⟩ ⟨trivial, trivial⟩
  | cur =>
    refine iff_of_true ⟨t, ⟨congrArg Prod.snd h.cur, rfl⟩, ?_⟩ ⟨trivial, trivial⟩
    rw [step, perform, h.cur]
    exact h
  | poll => exact h.poll_iff.trans (and_iff_left trivial).symm
  | timedDispatch => exact h.timedDispatch_iff.trans (and_iff_left trivial).symm

end

theorem follows_iff_of_fresh (h : q.Fresh) (ops : List (Op κ δ)) :
    Follows step Spec Shows q (.beforeFirst []) ops ↔ Along step (fun q op => Faithful q op ∧ Admits q op) q ops := by
  obtain ⟨free, hholds⟩ := h.holds
  refine follows_iff_along (fun _ _ op hshows => hshows.step_iff op) ?_ ops
  exact ⟨⟨[], free, hholds, h.iterator, rfl⟩, h.chunkSize, h.unblocking, h.sem,
    (Nat.le_of_eq h.sem).trans (Nat.zero_le _)⟩

/-- From its creation on the queue behaves as a list with a cursor, exactly if every operation is one that it is
faithful at and that keeps it within its maximum size. -/
theorem follows_tape_iff {maxSize initialSize growBySize : UInt32}
    (h : create maxSize initialSize growBySize = (q, .ok)) (ops : List (Op κ δ)) :
    Follows step Spec Shows q (.beforeFirst []) ops
      ↔ Along step (fun q op => Faithful q op ∧ Admits q op) q ops :=
  follows_iff_of_fresh (fresh_create h) ops

theorem follows_tape_inserted :
    create 4 2 2 = (small, .ok) ∧
      Follows step Spec Shows small (.beforeFirst [])
        [.enqueue first, .enqueue second, .next, .next, .insertBefore first, .replace second, .poll, .prev, .cur,
          .toEnd, .timedDispatch, .timedDispatch, .timedDispatch] :=
  ⟨create_small, (follows_tape_iff create_small _).mpr (by decide)⟩

theorem not_follows_tape :
    ¬ Follows step Spec Shows small (.beforeFirst []) [.enqueue first, .next, .remove] ∧
      ¬ Follows step Spec Shows small (.beforeFirst []) [.enqueue first, .next, .replace second] ∧
      ¬ Follows step Spec Shows small (.beforeFirst []) [.enqueue first, .next, .poll] := by
  have hfresh : small.Fresh := fresh_create create_small
  rw [follows_iff_of_fresh hfresh, follows_iff_of_fresh hfresh, follows_iff_of_fresh hfresh]
  decide

end Cursor

end Queue

end OpenMama
