import Mathlib.Algebra.Group.Nat.Defs
import OpenMama.Lib.Run
import OpenMama.Qpid.Nested

/-!
# Access to a payload while it is iterated

Every accessor moves the cursor of the message and puts it back to where the iterator was, except a getter that does
not find its field: it leaves the cursor behind the last field. And reading a message with opaque data, or another
field that is not `Clean`, is undefined. `yields_iff_inPlace` says that nothing else disturbs the iteration.
-/

namespace OpenMama.Qpid

open List Payload FieldNode

theorem resetToIteratorState_of_holds {p : Payload} {fields : List FieldNode} (h : Holds p.body fields) {k : Nat}
    (hoffset : p.dataIteratorOffset.toInt = k) :
    p.resetToIteratorState = { p with body := content (fields.take k).reverse (fields.drop k) } := by
  have hpos : ¬ p.dataIteratorOffset < 0 := by
    rw [Int16.lt_iff_toInt_lt, hoffset]
    exact Int.not_lt.mpr (Int.natCast_nonneg k)
  rw [resetToIteratorState, if_neg hpos, hoffset, moveDataToContentLocation_eq h, Int.toNat_natCast,
    advance_content, append_nil]

/-- `update` of a field that exists, on the list of fields. -/
def writeFirst (name : Option String) (fid : UInt16) (v : Value) : List FieldNode → List FieldNode
  | [] => []
  | f :: fields => if f.isWanted name fid then f.write true v :: fields else f :: writeFirst name fid v fields

theorem length_writeFirst (name : Option String) (fid : UInt16) (v : Value) (fields : List FieldNode) :
    (writeFirst name fid v fields).length = fields.length := by
  induction fields with
  | nil => rfl
  | cons f _ ih =>
    rw [writeFirst]
    split
    · rfl
    · rw [length_cons, ih, length_cons]

theorem writeFirst_append {name : Option String} {fid : UInt16} {before after : List FieldNode} {f : FieldNode}
    (hbefore : ∀ g ∈ before, g.isWanted name fid = false) (hf : f.isWanted name fid) (v : Value) :
    writeFirst name fid v (before ++ f :: after) = before ++ f.write true v :: after := by
  induction before with
  | nil => exact if_pos hf
  | cons g _ ih =>
    obtain ⟨hg, hrest⟩ := forall_mem_cons.mp hbefore
    rw [cons_append, writeFirst, hg, ih hrest]
    rfl

section

variable {b : Body} {fields : List FieldNode} {name : Option String} {fid : UInt16} (h : Holds b fields)
  (hwanted : name ≠ none ∨ fid ≠ 0)
include h hwanted

theorem Holds.findField_none (hfind : fields.find? (·.isWanted name fid) = none) :
    findField b name fid = (content fields.reverse [], .notFound) :=
  findField_of_none h hwanted (by simpa using hfind)

/-- `findField` stops inside the first field that is wanted. -/
theorem Holds.findField_some {f : FieldNode} (hfind : fields.find? (·.isWanted name fid) = some f) :
    ∃ before after, fields = before ++ f :: after ∧ (∀ g ∈ before, g.isWanted name fid = false)
      ∧ f.isWanted name fid ∧ findField b name fid = (inside before.reverse f after [] (f.value :: f.rest), .ok) := by
  obtain ⟨hf, before, after, rfl, hnone⟩ := find?_eq_some_iff_append.mp hfind
  have hbefore : ∀ g ∈ before, g.isWanted name fid = false := by simpa using hnone
  exact ⟨before, after, rfl, hbefore, hf, findField_of_found h hwanted hbefore hf⟩

end

section

variable {f : FieldNode} {v : Value} {depth : Nat}

theorem FieldNode.rest_write (isUpdate : Bool) (v : Value) (hrest : ∀ n ∈ f.rest, IsByte n) :
    ∀ n ∈ (f.write isUpdate v).rest, IsByte n := by
  -- what follows the first node belongs to the value or to what followed the old first node
  have htail := congrArg tail (f.write_children isUpdate v)
  rw [tail_cons, tail_append_of_ne_nil (v.nodes_ne_nil isUpdate)] at htail
  intro n hn
  rw [htail, mem_append] at hn
  rcases hn with hn | hn
  · exact v.tail_nodes isUpdate n hn
  · obtain ⟨k, hk⟩ : ∃ k, (v.nodes isUpdate).length = k + 1 :=
      Nat.exists_eq_succ_of_ne_zero (mt length_eq_zero_iff.mp (v.nodes_ne_nil isUpdate))
    rw [hk] at hn
    exact hrest n (mem_of_mem_drop hn)

theorem FieldNode.Built.write (h : f.Built depth) (hv : v.isRejected = false) : (f.write true v).Built depth := by
  have hrest := f.rest_write true v h.rest
  by_cases htime : v.type = .vectorTime
  · cases v with
    | vectorTime ts =>
      have helements : Elements ((Value.vectorTime ts).atoms.map Node.leaf) _ := elements_leaves
      exact .vectorMsg hrest rfl helements (by simp)
    | scalar _ _ | opaqueData _ | price _ | time _ | vector _ _ | vectorPrice _ => cases htime
  · exact .value hrest hv (Value.nodes_update htime ▸ f.write_children true v)

theorem FieldNode.built_new (name : Option String) (fid : UInt16) (hv : v.isRejected = false) :
    (new name fid v).Built depth :=
  .value (v.tail_nodes false) hv ((children_new name fid v).trans (append_nil _).symm)

theorem built_writeFirst {fields : List FieldNode} (h : ∀ f ∈ fields, f.Built depth) (name : Option String)
    (fid : UInt16) (hv : v.isRejected = false) : ∀ f ∈ writeFirst name fid v fields, f.Built depth := by
  induction fields with
  | nil => exact h
  | cons f fields ih =>
    obtain ⟨hf, hrest⟩ := forall_mem_cons.mp h
    rw [writeFirst]
    split
    · exact forall_mem_cons.mpr ⟨hf.write hv, hrest⟩
    · exact forall_mem_cons.mpr ⟨hf, ih hrest⟩

theorem children_of_nodes {n : Node Atom} {rest extra : List (Node Atom)} (h : n :: rest = v.nodes false ++ extra) :
    n.atom.type ≠ .list ∧ ∃ atoms : List Atom, n.children = atoms.map Node.leaf := by
  cases v with
  | scalar type _ =>
    obtain ⟨rfl, -⟩ := cons.inj h
    exact ⟨by cases type <;> exact PnType.noConfusion, [], rfl⟩
  | opaqueData _ | price _ | time _ =>
    obtain ⟨rfl, -⟩ := cons.inj h
    exact ⟨PnType.noConfusion, [], rfl⟩
  | vector _ _ | vectorPrice _ | vectorTime _ =>
    obtain ⟨rfl, -⟩ := cons.inj h
    exact ⟨PnType.noConfusion, _, rfl⟩

theorem FieldNode.Built.children (h : f.Built depth) (harray : f.value.atom.type = .array) :
    ∃ contents, Elements f.value.children contents ∧ ∀ fields ∈ contents, ∀ g ∈ fields, Nested depth g := by
  cases h with
  | value _ _ hnodes =>
    obtain ⟨-, atoms, hatoms⟩ := children_of_nodes hnodes
    exact ⟨_, hatoms ▸ elements_leaves, by simp⟩
  | msg _ hvalue _ =>
    rw [hvalue] at harray
    cases harray
  | vectorMsg _ hvalue helements hcontents =>
    rw [hvalue]
    exact ⟨_, helements, hcontents⟩

/-- An atom that is read as a field of a message has no type, and is passed over. -/
theorem getMessageFromBuffer_leaves (parents : Path) (atoms : List Atom) :
    getMessageFromBuffer (copyField (depth + 1) false false) ⟨parents, [], atoms.map Node.leaf⟩ = some create := by
  have heach (passed : List (Node Atom)) : eachField (copyField (depth + 1) false false) (atoms.map Node.leaf).length
      ⟨parents, passed, atoms.map Node.leaf⟩ create = some create := by
    induction atoms generalizing passed with
    | nil => rfl
    | cons a _ ih => exact ih (.leaf a :: passed)
  exact heach []

variable (before after : List FieldNode)

theorem enter_value (f : FieldNode) : (inside before f after [] (f.value :: f.rest)).next.enter
    = ⟨([f.fidNode, f.nameNode], f.value.atom, f.rest) :: (inside before f after [] []).parents, [],
      f.value.children⟩ := by
  cases f.value
  rfl

theorem isSome_getMsg (h : f.Built (depth + 1)) (hvector : f.value.atom ≠ messageArray) :
    (getMessageFromBuffer (copyField (depth + 1) false false)
        (inside before f after [] (f.value :: f.rest)).next.enter).isSome
      ↔ (f.value.atom.type = .list → IsReadable f.value) := by
  rw [enter_value]
  cases h with
  | value _ _ hnodes =>
    obtain ⟨hlist, atoms, hatoms⟩ := children_of_nodes hnodes
    rw [hatoms, getMessageFromBuffer_leaves]
    exact iff_of_true rfl fun h => absurd h hlist
  | @msg fields _ hvalue hfields =>
    rw [hvalue]
    have hread := getMessageFromBuffer_eq
      (fun g hg => (hfields g hg).copies false false fun h => by cases h)
      (([f.fidNode, f.nameNode], messageList, f.rest) :: (inside before f after [] []).parents)
    refine (iff_of_eq (congrArg (·.isSome = true) hread)).trans ((isSome_definedIf _).trans ?_)
    simp only [IsReadable, messageNode, Node.children, node_mem_map]
    exact ⟨fun hall _ => hall, fun h => h rfl⟩
  | vectorMsg _ hvalue _ _ => exact absurd (congrArg Node.atom hvalue) hvector

theorem isSome_getVectorMsg (h : f.Built depth) :
    (eachMessage (getMessageFromBuffer (copyField depth false false))
        (getArray (inside before f after [] (f.value :: f.rest)).next)
        (inside before f after [] (f.value :: f.rest)).next.enter).isSome
      ↔ (f.value.atom.type = .array → ∀ n ∈ f.value.children, IsReadable n) := by
  have hcount : getArray (inside before f after [] (f.value :: f.rest)).next
      = if f.value.atom.type = .array then f.value.children.length else 0 := rfl
  rw [enter_value, hcount]
  by_cases harray : f.value.atom.type = .array
  · obtain ⟨contents, helements, hnested⟩ := h.children harray
    have hread := eachMessage_eq helements
      (fun fields hfields g hg => (hnested fields hfields g hg).copies false false fun h => by cases h)
      (([f.fidNode, f.nameNode], f.value.atom, f.rest) :: (inside before f after [] []).parents) []
    rw [if_pos harray, hread, isSome_definedIf, isReadable_iff helements]
    exact ⟨fun hall _ => hall, fun h => h harray⟩
  · rw [if_neg harray]
    exact iff_of_true rfl fun h => absurd h harray

theorem isSome_getField (h : f.Built depth) :
    (getFieldFromBuffer (copyField depth false false)
        (inside before f after [] (f.value :: f.rest)).exit.enter).isSome ↔ ∀ n ∈ f.messages, IsReadable n := by
  have hfield := getFieldFromBuffer_eq (copyField depth false false) f (inside before f after [] []).parents.tail
    (before.map node) (after.map node)
  refine (iff_of_eq (congrArg (·.isSome = true) hfield)).trans ?_
  rw [getMessages_built h, map_definedIf, isSome_definedIf]

end

/-! ### Interleavings -/

/-- A call during an iteration. -/
inductive Access where
  | next
  | get (getter : Getter) (name : Option String) (fid : UInt16)
  | getMsg (name : Option String) (fid : UInt16)
  | getVectorMsg (name : Option String) (fid : UInt16)
  | getField (name : Option String) (fid : UInt16)
  | update (name : Option String) (fid : UInt16) (v : Value)
  | getNumFields
deriving DecidableEq

/-- A message that is iterated: its fields, the calls of the iterator, and whether a getter missed its field since the
cursor was last put back. -/
structure Walk where
  payload : Payload
  fields : List FieldNode
  calls : Nat := 0
  lost : Bool := false

/-- What a caller sees of a field: its data, and the nodes of its messages. -/
def Field.shown (field : Field) : FieldView × List (List (Node Atom)) :=
  (field.toFieldView, field.messages.map fun message => message.body.roots)

def FieldNode.shown (f : FieldNode) : FieldView × List (List (Node Atom)) :=
  (f.view, f.messages.map fun n => [.node messageList n.children])

namespace Walk

def find (w : Walk) (name : Option String) (fid : UInt16) : Option FieldNode := w.fields.find? (·.isWanted name fid)

/-- The payload after a call, if the call is defined. -/
def call (depth : Nat) (w : Walk) : Access → Option Payload
  | .next => (w.payload.iterNext depth).map Prod.fst
  | .get getter name fid => some (w.payload.get getter name fid).1
  | .getMsg name fid => (w.payload.getMsg depth name fid).map Prod.fst
  | .getVectorMsg name fid => (w.payload.getVectorMsg depth name fid).map Prod.fst
  | .getField name fid => (w.payload.getField depth name fid).map Prod.fst
  | .update name fid v => some (w.payload.update name fid v).1
  | .getNumFields => some w.payload.getNumFields.1

def step (depth : Nat) (w : Walk) (a : Access) : Walk :=
  let after := { w with payload := (w.call depth a).getD w.payload }
  match a with
  | .next => { after with calls := w.calls + 1 }
  | .get _ name fid | .getMsg name fid | .getVectorMsg name fid | .getField name fid =>
    { after with lost := (w.find name fid).isNone }
  | .update name fid v =>
    if v.isRejected then after else { after with fields := writeFirst name fid v w.fields, lost := false }
  | .getNumFields => { after with lost := false }

/-- The calls: a name or an id is given, an update is of a field that exists, and `getMsg` is not called for
an array of messages. -/
def Addresses (w : Walk) : Access → Prop
  | .next | .getNumFields => True
  | .get _ name fid | .getVectorMsg name fid | .getField name fid => name ≠ none ∨ fid ≠ 0
  | .getMsg name fid => (name ≠ none ∨ fid ≠ 0) ∧ ∀ f ∈ w.find name fid, f.value.atom ≠ messageArray
  | .update name fid _ => (name ≠ none ∨ fid ≠ 0) ∧ (w.find name fid).isSome

/-- Every call is defined, and the iterator returns the field that is due, or NULL behind the last. -/
def Yields (depth : Nat) (w : Walk) : Access → Prop
  | .next => (w.payload.iterNext depth).map (fun r => r.2.map Field.shown)
      = some (w.fields[w.calls]?.map FieldNode.shown)
  | a => (w.call depth a).isSome

/-- The iterator is not called while a getter has left the cursor behind the last field, unless it has returned all, and
no message is read that cannot be copied. -/
def InPlace (w : Walk) : Access → Prop
  | .next => (w.lost = false ∨ w.fields.length ≤ w.calls)
      ∧ ∀ f ∈ w.fields[w.calls]?, ∀ n ∈ f.messages, IsReadable n
  | .getMsg name fid => ∀ f ∈ w.find name fid, f.value.atom.type = .list → IsReadable f.value
  | .getVectorMsg name fid =>
      ∀ f ∈ w.find name fid, f.value.atom.type = .array → ∀ n ∈ f.value.children, IsReadable n
  | .getField name fid => ∀ f ∈ w.find name fid, ∀ n ∈ f.messages, IsReadable n
  | .get _ _ _ | .update _ _ _ | .getNumFields => True

/-- The payload is where the calls of the iterator, or a getter that failed, have left it. -/
structure Walking (depth : Nat) (w : Walk) : Prop where
  built : ∀ f ∈ w.fields, f.Built depth
  holds : Holds w.payload.body w.fields
  length : w.fields.length < 2 ^ 15
  offset : w.payload.dataIteratorOffset.toInt = (min w.calls w.fields.length : Nat)
  place : w.payload.body = if w.lost then content w.fields.reverse []
    else content (w.fields.take w.calls).reverse (w.fields.drop w.calls)

variable {depth : Nat} {w : Walk}

theorem Walking.reset (h : Walking depth w) {p : Payload} {fields : List FieldNode}
    (hoffset : p.dataIteratorOffset = w.payload.dataIteratorOffset) (hp : Holds p.body fields)
    (hlength : fields.length = w.fields.length) (hbuilt : ∀ f ∈ fields, f.Built depth) :
    Walking depth { w with payload := p.resetToIteratorState, fields := fields, lost := false } := by
  have hk : p.dataIteratorOffset.toInt = (min w.calls fields.length : Nat) := by rw [hoffset, hlength, h.offset]
  have htake : fields.take (min w.calls fields.length) = fields.take w.calls := by simp [take_eq_take_iff]
  have hdrop : fields.drop (min w.calls fields.length) = fields.drop w.calls := by simp [drop_eq_drop_iff]
  have hreset := resetToIteratorState_of_holds hp hk
  rw [htake, hdrop] at hreset
  have hbody : p.resetToIteratorState.body = content (fields.take w.calls).reverse (fields.drop w.calls) := by
    rw [hreset]
  refine ⟨hbuilt, ?_, ?_, ?_, hbody⟩
  · rw [hbody]
    exact holds_content_take w.calls fields
  · exact hlength ▸ h.length
  · rw [hreset]
    exact hk

theorem iterNext_content (p : Payload) {passed ahead : List FieldNode} {f : FieldNode} (hf : f.Built depth)
    (hbody : p.body = content passed (f :: ahead)) :
    p.iterNext depth = definedIf (∀ n ∈ f.messages, IsReadable n) ({ p with
      body := content (f :: passed) ahead
      dataIteratorOffset := p.dataIteratorOffset + 1 }, some f.asRead) := by
  have hnext : p.body.hasNext := by
    rw [hbody]
    rfl
  have hfield := getFieldFromBuffer_eq (copyField depth false false) f (content [] []).parents (passed.map node)
    (ahead.map node)
  rw [getMessages_built hf] at hfield
  rw [iterNext, if_pos hnext, hbody, next_content]
  rw [show content (f :: passed) ahead = ⟨(content [] []).parents, f.node :: passed.map node, ahead.map node⟩ from rfl,
    hfield, map_definedIf, map_definedIf]
  rfl

theorem iterNext_of_end {p : Payload} {passed : List FieldNode} (hbody : p.body = content passed []) :
    p.iterNext depth = some (p, none) := by
  have hnext : p.body.hasNext = false := by
    rw [hbody]
    rfl
  rw [iterNext, hnext, if_neg Bool.false_ne_true]

theorem shown_asRead (f : FieldNode) : f.asRead.shown = f.shown := by
  simp [Field.shown, FieldNode.shown, FieldNode.asRead, roots_messageOf]

theorem toInt_add_one {offset : Int16} {k : Nat} (h : offset.toInt = k) (hk : k + 1 < 2 ^ 15) :
    (offset + 1).toInt = (k + 1 : Nat) := by
  have hone : (1 : Int16).toInt = 1 := by decide
  rw [Int16.toInt_add, h, Int.bmod_eq_of_le]
  · rfl
  · omega
  · omega

section

variable {name : Option String} {fid : UInt16} (h : Walking depth w)
include h

theorem Walking.iterNext_of_lt (hlost : w.lost = false) (hcalls : w.calls < w.fields.length) :
    w.payload.iterNext depth = definedIf (∀ n ∈ w.fields[w.calls].messages, IsReadable n) ({ w.payload with
      body := content (w.fields.take (w.calls + 1)).reverse (w.fields.drop (w.calls + 1))
      dataIteratorOffset := w.payload.dataIteratorOffset + 1 }, some w.fields[w.calls].asRead) := by
  have hplace := h.place
  rw [hlost, drop_eq_getElem_cons hcalls] at hplace
  have hbody : content (w.fields[w.calls] :: (w.fields.take w.calls).reverse) (w.fields.drop (w.calls + 1))
      = content (w.fields.take (w.calls + 1)).reverse (w.fields.drop (w.calls + 1)) := by
    rw [take_succ_eq_append_getElem hcalls, reverse_append]
    rfl
  rw [iterNext_content w.payload (h.built _ (getElem_mem hcalls)) hplace, hbody]

theorem Walking.next_of_end (hend : w.lost ∨ w.fields.length ≤ w.calls) :
    w.payload.iterNext depth = some (w.payload, none) := by
  have hplace := h.place
  cases hlost : w.lost with
  | true =>
    rw [hlost] at hplace
    exact iterNext_of_end hplace
  | false =>
    have hcalls := hend.resolve_left (hlost ▸ Bool.false_ne_true)
    rw [hlost, drop_eq_nil_of_le hcalls] at hplace
    exact iterNext_of_end hplace

theorem Walking.yields_next_iff : w.Yields depth .next ↔ w.InPlace .next := by
  rw [Yields, InPlace]
  by_cases hcalls : w.fields.length ≤ w.calls
  · rw [h.next_of_end (.inr hcalls), getElem?_eq_none hcalls]
    exact iff_of_true rfl ⟨.inr hcalls, by simp⟩
  · have hlt := Nat.not_le.mp hcalls
    rw [getElem?_eq_getElem hlt]
    cases hlost : w.lost with
    | true =>
      rw [h.next_of_end (.inl hlost)]
      refine iff_of_false (fun hno => ?_) fun hplace => hplace.1.elim (fun hno => by cases hno) hcalls
      cases Option.some.inj hno
    | false =>
      rw [h.iterNext_of_lt hlost hlt, map_definedIf]
      simp only [Option.mem_def, Option.some.injEq, forall_eq', Option.map_some, shown_asRead]
      by_cases hall : ∀ n ∈ w.fields[w.calls].messages, IsReadable n
      · exact iff_of_true (definedIf_of hall _) ⟨.inl trivial, hall⟩
      · rw [definedIf_of_not hall]
        exact iff_of_false (fun hno => by cases hno) fun hplace => hall hplace.2

theorem Walking.next (hplace : w.InPlace .next) : Walking depth (w.step depth .next) := by
  by_cases hcalls : w.fields.length ≤ w.calls
  · have hpayload : (w.step depth .next).payload = w.payload := by
      change ((w.payload.iterNext depth).map Prod.fst).getD w.payload = w.payload
      rw [h.next_of_end (.inr hcalls)]
      rfl
    have hbody := h.place
    refine ⟨h.built, hpayload ▸ h.holds, h.length, ?_, ?_⟩
    · rw [hpayload]
      change w.payload.dataIteratorOffset.toInt = (min (w.calls + 1) w.fields.length : Nat)
      rw [Nat.min_eq_right (Nat.le_succ_of_le hcalls)]
      rw [← Nat.min_eq_right hcalls]
      exact h.offset
    · rw [hpayload]
      change w.payload.body = if w.lost then content w.fields.reverse []
        else content (w.fields.take (w.calls + 1)).reverse (w.fields.drop (w.calls + 1))
      rw [hbody, take_of_length_le hcalls, drop_eq_nil_of_le hcalls,
        take_of_length_le (Nat.le_succ_of_le hcalls), drop_eq_nil_of_le (Nat.le_succ_of_le hcalls)]
  · have hlt := Nat.not_le.mp hcalls
    have hlost := hplace.1.resolve_right hcalls
    have hread : ∀ n ∈ w.fields[w.calls].messages, IsReadable n := hplace.2 _ (getElem?_eq_getElem hlt)
    have hoffset := h.offset
    rw [Nat.min_eq_left (Nat.le_of_lt hlt)] at hoffset
    have hpayload : (w.step depth .next).payload = { w.payload with
        body := content (w.fields.take (w.calls + 1)).reverse (w.fields.drop (w.calls + 1))
        dataIteratorOffset := w.payload.dataIteratorOffset + 1 } := by
      change ((w.payload.iterNext depth).map Prod.fst).getD w.payload = _
      rw [h.iterNext_of_lt hlost hlt, definedIf_of hread]
      rfl
    refine ⟨h.built, ?_, h.length, ?_, ?_⟩
    · rw [hpayload]
      exact holds_content_take (w.calls + 1) w.fields
    · rw [hpayload]
      change (w.payload.dataIteratorOffset + 1).toInt = (min (w.calls + 1) w.fields.length : Nat)
      rw [Nat.min_eq_left hlt]
      exact toInt_add_one hoffset (Nat.lt_of_le_of_lt hlt h.length)
    · rw [hpayload]
      change _ = if w.lost then _ else _
      rw [hlost]
      rfl

theorem Walking.lost (hnone : w.find name fid = none) :
    Walking depth { w with
      payload := { w.payload with body := content w.fields.reverse [] }
      lost := (w.find name fid).isNone } := by
  rw [hnone]
  exact ⟨h.built, holds_content_end w.fields, h.length, h.offset, rfl⟩

/-- What a getter has read lies in the message, which is put back. -/
theorem Walking.found {f : FieldNode} (hf : w.find name fid = some f)
    {before after : List FieldNode} (hfields : w.fields = before ++ f :: after) {b : Body}
    (hb : b.roots = (inside before.reverse f after [] (f.value :: f.rest)).roots) :
    Walking depth { w with
      payload := { w.payload with body := b }.resetToIteratorState
      lost := (w.find name fid).isNone } := by
  rw [hf]
  refine h.reset (p := { w.payload with body := b }) rfl ?_ rfl h.built
  have hroots : (inside before.reverse f after [] (f.value :: f.rest)).roots
      = (content (f :: before.reverse) after).roots := by
    rw [← exit_inside, TreeCursor.roots_exit]
  rw [Holds, hb, hroots, hfields]
  simpa [Holds] using holds_content (f :: before.reverse) after

theorem Walking.get (getter : Getter) (hwanted : name ≠ none ∨ fid ≠ 0) :
    Walking depth (w.step depth (.get getter name fid)) := by
  rw [step, call, Option.getD_some, Payload.get, guard_of_wanted hwanted]
  cases hfind : w.find name fid with
  | none =>
    rw [h.holds.findField_none hwanted hfind]
    exact hfind ▸ h.lost hfind
  | some f =>
    obtain ⟨before, after, hfields, -, -, hfound⟩ := h.holds.findField_some hwanted hfind
    rw [hfound]
    exact hfind ▸ h.found hfind hfields (roots_read getter _)

/-- A getter of messages is defined if what it reads is, and then the iteration goes on. -/
theorem Walking.getWith {α : Type} (read : Body → Option (Body × α)) {ok : FieldNode → Prop}
    (hwanted : name ≠ none ∨ fid ≠ 0) (hroots : ∀ b r, read b = some r → r.1.roots = b.roots)
    (hread : ∀ f ∈ w.find name fid, ∀ before after,
      (read (inside before f after [] (f.value :: f.rest))).isSome ↔ ok f) :
    (((w.payload.getWith read name fid).map Prod.fst).isSome ↔ ∀ f ∈ w.find name fid, ok f)
      ∧ ∀ p ∈ (w.payload.getWith read name fid).map Prod.fst,
        Walking depth { w with payload := p, lost := (w.find name fid).isNone } := by
  rw [Payload.getWith]
  cases hfind : w.find name fid with
  | none =>
    rw [h.holds.findField_none hwanted hfind]
    refine ⟨iff_of_true rfl (by simp), fun p hp => ?_⟩
    obtain rfl := Option.some.inj hp
    exact hfind ▸ h.lost hfind
  | some f =>
    obtain ⟨before, after, hfields, -, -, hfound⟩ := h.holds.findField_some hwanted hfind
    rw [hfound]
    have hsome := hread f hfind before.reverse after
    refine ⟨by simpa using hsome, fun p hp => ?_⟩
    obtain ⟨_, hresult, rfl⟩ := Option.map_eq_some_iff.mp hp
    obtain ⟨r, hr, rfl⟩ := Option.map_eq_some_iff.mp hresult
    exact hfind ▸ h.found hfind hfields (hroots _ r hr)

theorem Walking.update (v : Value) (hwanted : name ≠ none ∨ fid ≠ 0)
    (hsome : (w.find name fid).isSome) : Walking depth (w.step depth (.update name fid v)) := by
  rw [step, call, Option.getD_some, Payload.update, guard_of_wanted hwanted, Bool.or_false]
  cases hrejected : v.isRejected with
  | true => exact h
  | false =>
    obtain ⟨f, hfind⟩ := Option.isSome_iff_exists.mp hsome
    obtain ⟨before, after, hfields, hbefore, hf, hfound⟩ := h.holds.findField_some hwanted hfind
    rw [hfound]
    refine h.reset rfl ?_ (length_writeFirst name fid v w.fields) (built_writeFirst h.built name fid hrejected)
    rw [hfields, writeFirst_append hbefore hf]
    exact holds_write true v before after f

theorem Walking.getNumFields : Walking depth (w.step depth .getNumFields) := by
  rw [step, call, Option.getD_some, Payload.getNumFields, moveDataToContentLocation_eq h.holds, toEnd_content,
    append_nil]
  exact h.reset rfl (holds_content_end w.fields) rfl h.built

end

theorem Walking.step (h : Walking (depth + 1) w) {a : Access} (haddresses : w.Addresses a) :
    (w.Yields (depth + 1) a ↔ w.InPlace a)
      ∧ (w.Yields (depth + 1) a → Walking (depth + 1) (w.step (depth + 1) a)) := by
  have hbuilt {name : Option String} {fid : UInt16} (f : FieldNode) (hf : f ∈ w.find name fid) :
      f.Built (depth + 1) := h.built f (mem_of_find?_eq_some hf)
  -- a getter of messages that is defined leaves the payload that the walk goes on with
  have hgoes {p? : Option Payload} {name : Option String} {fid : UInt16}
      (hp : ∀ p ∈ p?, Walking (depth + 1) { w with payload := p, lost := (w.find name fid).isNone })
      (hsome : p?.isSome) :
      Walking (depth + 1) { w with payload := p?.getD w.payload, lost := (w.find name fid).isNone } := by
    obtain ⟨p, rfl⟩ := Option.isSome_iff_exists.mp hsome
    exact hp p rfl
  cases a with
  | next => exact ⟨h.yields_next_iff, fun hyields => h.next (h.yields_next_iff.mp hyields)⟩
  | get getter _ _ => exact ⟨iff_of_true rfl trivial, fun _ => h.get getter haddresses⟩
  | getMsg name fid =>
    obtain ⟨hiff, hwalking⟩ := h.getWith
      (fun b => (getMessageFromBuffer (copyField (depth + 1) false false) b.next.enter).map fun message =>
        (b.next.enter.toEnd, message)) haddresses.1
      (fun b r hr => by
        obtain ⟨_, -, rfl⟩ := Option.map_eq_some_iff.mp hr
        simp)
      (fun f hf before after => by
        rw [Option.isSome_map]
        exact isSome_getMsg before after (hbuilt f hf) (haddresses.2 f hf))
    exact ⟨hiff, hgoes hwalking⟩
  | getVectorMsg name fid =>
    obtain ⟨hiff, hwalking⟩ := h.getWith
      (fun b => (eachMessage (getMessageFromBuffer (copyField (depth + 1) false false)) (getArray b.next)
        b.next.enter).map fun messages => ((passMessages (getArray b.next) b.next.enter).exit.exit, messages))
      haddresses
      (fun b r hr => by
        obtain ⟨_, -, rfl⟩ := Option.map_eq_some_iff.mp hr
        simp)
      (fun f hf before after => by
        rw [Option.isSome_map]
        exact isSome_getVectorMsg before after (hbuilt f hf))
    exact ⟨hiff, hgoes hwalking⟩
  | getField name fid =>
    obtain ⟨hiff, hwalking⟩ := h.getWith
      (fun b => getFieldFromBuffer (copyField (depth + 1) false false) b.exit.enter) haddresses
      (fun b r hr => by
        obtain ⟨_, -, rfl⟩ := Option.map_eq_some_iff.mp hr
        simp)
      (fun f hf before after => isSome_getField before after (hbuilt f hf))
    exact ⟨hiff, hgoes hwalking⟩
  | update name fid v => exact ⟨iff_of_true rfl trivial, fun _ => h.update v haddresses.1 haddresses.2⟩
  | getNumFields => exact ⟨iff_of_true rfl trivial, fun _ => h.getNumFields⟩

/-- The iterator of a message returns its fields in order and then NULL, whatever is read and updated in between,
exactly when it is not called where a getter that has not found its field has left the cursor, unless it has returned
all fields, and no message is read that cannot be copied. -/
theorem yields_iff_inPlace (depth : Nat) (p : Payload) (fields : List FieldNode) (hp : Holds p.body fields)
    (hbuilt : ∀ f ∈ fields, f.Built (depth + 1)) (hlength : fields.length < 2 ^ 15) (accesses : List Access)
    (haddresses : Along (step (depth + 1)) Addresses { payload := p.iterCreate, fields := fields } accesses) :
    Along (step (depth + 1)) (Yields (depth + 1)) { payload := p.iterCreate, fields := fields } accesses
      ↔ Along (step (depth + 1)) InPlace { payload := p.iterCreate, fields := fields } accesses := by
  have hbody : p.iterCreate.body = content [] fields := moveDataToContentLocation_eq hp
  have hwalking : Walking (depth + 1) { payload := p.iterCreate, fields := fields } := by
    refine ⟨hbuilt, ?_, hlength, by simp [iterCreate], hbody⟩
    exact hbody ▸ holds_content [] fields
  exact Along.congr_along hwalking haddresses fun _ _ hs ha => hs.step ha

def numberField (fid : UInt16) (bits : UInt64) : FieldNode := new (some "") fid (.scalar .i32 (.number bits))

theorem not_yields_missing : ¬ Along (step 1) (Yields 1)
    { payload := iterCreate { body := content [] [numberField 1 10, numberField 2 20] }
      fields := [numberField 1 10, numberField 2 20] }
    [.next, .get (.scalar .i32) none 3, .next] := by
  rintro ⟨-, -, hyields, -⟩
  cases Option.some.inj hyields

theorem yields_subMessage : Along (step 1) (Yields 1)
    { payload := iterCreate { body := content [] [numberField 1 10, msgField "" 2 [numberField 4 20]] }
      fields := [numberField 1 10, msgField "" 2 [numberField 4 20]] }
    [.next, .get (.scalar .i32) none 3, .getNumFields, .update none 1 (.scalar .i32 (.number 30)), .next,
      .getMsg none 2, .get (.scalar .i32) none 1, .next] := by
  have hreadable : IsReadable (messageNode [numberField 4 20]) := by
    intro g hg
    obtain rfl := mem_singleton.mp (node_mem_map.mp hg)
    exact (clean_new "" 4 (v := .scalar .i32 (.number 20)) trivial).mpr rfl
  refine (yields_iff_inPlace 0 { body := content [] [numberField 1 10, msgField "" 2 [numberField 4 20]] }
    [numberField 1 10, msgField "" 2 [numberField 4 20]] (holds_content [] _) ?_ (by decide) _ ?_).mpr ?_
  · have hnested : ∀ g ∈ [numberField 4 20], Nested 1 g :=
      forall_mem_singleton.mpr (.value "" 4 (v := .scalar .i32 (.number 20)) trivial)
    exact forall_mem_cons.mpr ⟨built_new (some "") 1 rfl,
      forall_mem_singleton.mpr (.msg (by simp [msgField]) rfl hnested)⟩
  · refine ⟨trivial, .inr (by decide), trivial, ⟨.inr (by decide), by decide⟩, trivial, ⟨.inr (by decide), ?_⟩,
      .inr (by decide), trivial, trivial⟩
    intro f hf
    obtain rfl := Option.some.inj hf
    decide
  · refine ⟨⟨.inl rfl, ?_⟩, trivial, trivial, trivial, ⟨.inl rfl, ?_⟩, ?_, trivial, ⟨.inr (by decide), ?_⟩, trivial⟩
    · intro f hf n hn
      obtain rfl := Option.some.inj hf
      cases hn
    · intro f hf n hn
      obtain rfl := Option.some.inj hf
      obtain rfl := mem_singleton.mp hn
      exact hreadable
    · intro f hf _
      obtain rfl := Option.some.inj hf
      exact hreadable
    · intro f hf
      cases hf

end Walk

end OpenMama.Qpid
