import Mathlib.Data.List.Basic
import Mathlib.Data.List.Forall2
import OpenMama.Qpid.Layout

/-!
# Messages in messages

A message in a field is read by copying its fields one by one into a payload of its own, and copied fields are written
at the cursor. `Nested.copies` says that a field is copied node by node, or that copying it is undefined, and that the
latter is so if it is not `Clean`. `getMessages_built` says it of the messages that are read with a field of a message.
-/

namespace OpenMama.Qpid

open List TreeCursor FieldNode Payload

/-- `a` where the condition holds, and undefined otherwise. -/
noncomputable def definedIf {α : Type} (c : Prop) (a : α) : Option α :=
  open scoped Classical in if c then some a else none

section

variable {α β : Type} {c d : Prop}

theorem definedIf_of (h : c) (a : α) : definedIf c a = some a := if_pos h

theorem definedIf_of_not (h : ¬ c) (a : α) : definedIf c a = none := if_neg h

theorem map_definedIf (f : α → β) (a : α) : (definedIf c a).map f = definedIf c (f a) := by
  by_cases h : c
  · rw [definedIf_of h, definedIf_of h, Option.map_some]
  · rw [definedIf_of_not h, definedIf_of_not h, Option.map_none]

theorem isSome_definedIf (a : α) : (definedIf c a).isSome ↔ c := by
  by_cases h : c
  · exact iff_of_true (by rw [definedIf_of h]; rfl) h
  · exact iff_of_false (by rw [definedIf_of_not h]; exact Bool.false_ne_true) h

theorem bind_definedIf {a : α} {b : β} {f : α → Option β} (h : c → f a = definedIf d b) :
    (definedIf c a).bind f = definedIf (c ∧ d) b := by
  by_cases hc : c
  · rw [definedIf_of hc, Option.bind_some, h hc, and_iff_right hc]
  · rw [definedIf_of_not hc, definedIf_of_not fun h => hc h.1, Option.bind_none]

end

/-- New fields come behind the siblings `l`, which are the last of their node. -/
structure Writable (p : Payload) (parents : Path) (l : List (Node Atom)) : Prop where
  body : p.body = ⟨parents, l, []⟩
  place : p.insertMode = .inline ∨ parents = [([], { type := .list }, [])]
  offset : p.dataIteratorOffset < 0

section Writing

variable {p : Payload} {parents : Path} {l : List (Node Atom)}

theorem reset_with_body (h : p.dataIteratorOffset < 0) (b : Body) :
    resetToIteratorState { p with body := b } = { p with body := b } := if_pos h

theorem Writable.location (h : Writable p parents l) : p.moveDataToInsertLocation = ⟨parents, l, []⟩ := by
  rw [moveDataToInsertLocation]
  cases hmode : p.insertMode with
  | inline => exact h.body
  | mainList =>
    obtain rfl := h.place.resolve_left (by rw [hmode]; decide)
    simp [moveDataToContentLocation, h.body, rewind, TreeCursor.roots, rootsOf,
      siblings, TreeCursor.next, TreeCursor.enter, toEnd]

theorem Writable.grow (h : Writable p parents l) (l' : List (Node Atom)) :
    Writable { p with body := ⟨parents, l', []⟩ } parents l' := ⟨rfl, h.place, h.offset⟩

theorem Writable.add (h : Writable p parents l) (name : String) (fid : UInt16) {v : Value}
    (hv : v.isRejected = false) : (p.add (some name) fid v).1
      = { p with body := ⟨parents, (new (some name) fid v).node :: l, []⟩ } := by
  have hguard : ¬ (v.isRejected || (v.isKeyed && (some name).isNone && fid = 0)) := by simp [hv]
  have hbegin : (((⟨parents, l, []⟩ : Body).put { type := .list }).enter.put
      { type := .string, data := .text ((some name).getD "") }).put { type := .ushort, data := .number fid.toUInt64 }
      = ⟨(l, { type := .list }, []) :: parents,
        [(new (some name) fid v).fidNode, (new (some name) fid v).nameNode], []⟩ := rfl
  rw [Payload.add, if_neg hguard, h.location]
  dsimp only
  rw [hbegin, write_eq, reset_with_body h.offset]
  simp [exit, siblings, node_new]

end Writing

/-! ### Copying the fields of a message -/

/-- The field is copied as it is if it is good, and copying it is undefined otherwise. -/
def Copies (copy : Body → Payload → Option Payload) (good : Prop) (f : FieldNode) : Prop :=
  ∀ parents l r p parents' l', Writable p parents' l' →
    copy ⟨parents, f.node :: l, r⟩ p = definedIf good { p with body := ⟨parents', f.node :: l', []⟩ }

/-- The payload that a message is read into, when it has been read. -/
def messageOf (nodes : List (Node Atom)) : Payload := { body := ⟨[([], { type := .list }, [])], nodes.reverse, []⟩ }

def messageNode (fields : List FieldNode) : Node Atom := .node messageList (fields.map node)

def msgField (name : String) (fid : UInt16) (fields : List FieldNode) : FieldNode :=
  { name := name, fid := fid, value := messageNode fields }

def vectorMsgField (name : String) (fid : UInt16) (contents : List (List FieldNode)) : FieldNode :=
  { name := name, fid := fid, value := .node messageArray (contents.map messageNode) }

theorem roots_messageOf (nodes : List (Node Atom)) : (messageOf nodes).body.roots = [.node messageList nodes] := by
  simp [messageOf, TreeCursor.roots, rootsOf, siblings, messageList]

theorem holds_payloadToMamaMsg (fields : List FieldNode) :
    Holds (payloadToMamaMsg (messageOf (fields.map node))).body fields := roots_messageOf _

section Copying

variable {copy : Body → Payload → Option Payload} {good : FieldNode → Prop} {fields : List FieldNode}
  {contents : List (List FieldNode)} {p : Payload} {parents : Path} {l : List (Node Atom)}

theorem eachField_eq (hcopy : ∀ f ∈ fields, Copies copy (good f) f) (hp : Writable p parents l) (parents' : Path)
    (passed : List (Node Atom)) :
    eachField copy fields.length ⟨parents', passed, fields.map node⟩ p
      = definedIf (∀ f ∈ fields, good f) { p with body := ⟨parents, (fields.map node).reverse ++ l, []⟩ } := by
  induction fields generalizing p l passed with
  | nil =>
    have hbody : p = { p with body := ⟨parents, l, []⟩ } := by rw [← hp.body]
    exact (congrArg some hbody).trans (definedIf_of (by simp) _).symm
  | cons f fields ih =>
    obtain ⟨hf, hrest⟩ := forall_mem_cons.mp hcopy
    have hnext : (⟨parents', passed, (f :: fields).map node⟩ : Body).next
        = ⟨parents', f.node :: passed, fields.map node⟩ := rfl
    have htail := ih hrest (hp.grow (f.node :: l)) (f.node :: passed)
    rw [length_cons, eachField, hnext, hf _ _ _ p parents l hp, readField_eq]
    simp only [forall_mem_cons]
    exact bind_definedIf fun _ => htail.trans (by simp)

theorem getMessageFromBuffer_eq (hcopy : ∀ f ∈ fields, Copies copy (good f) f) (parents : Path) :
    getMessageFromBuffer copy ⟨parents, [], fields.map node⟩
      = definedIf (∀ f ∈ fields, good f) (messageOf (fields.map node)) := by
  have hcreate : Writable create [([], { type := .list }, [])] [] := ⟨rfl, .inr rfl, by decide⟩
  have hlength : (fields.map node).length = fields.length := length_map _
  have hread := eachField_eq hcopy hcreate parents []
  rw [← hlength, append_nil] at hread
  exact hread

/-- The elements of the array are messages with these fields. -/
def Elements (elements : List (Node Atom)) (contents : List (List FieldNode)) : Prop :=
  List.Forall₂ (fun n fields => n.children = fields.map node) elements contents

theorem eachMessage_eq {elements : List (Node Atom)} (helements : Elements elements contents)
    (hcopy : ∀ fields ∈ contents, ∀ f ∈ fields, Copies copy (good f) f) (parents : Path) (l : List (Node Atom)) :
    eachMessage (getMessageFromBuffer copy) elements.length ⟨parents, l, elements⟩
      = definedIf (∀ fields ∈ contents, ∀ f ∈ fields, good f) (elements.map fun n => messageOf n.children) := by
  induction helements generalizing l with
  | nil => exact (definedIf_of (by simp) _).symm
  | @cons n fields elements contents hn _ ih =>
    obtain ⟨hfields, hrest⟩ := forall_mem_cons.mp hcopy
    have henter : (⟨parents, l, n :: elements⟩ : Body).next.enter
        = ⟨(l, n.atom, elements) :: parents, [], n.children⟩ := by cases n; rfl
    have hexit : (⟨parents, l, n :: elements⟩ : Body).next.enter.toEnd.exit = ⟨parents, n :: l, elements⟩ :=
      exit_of_level (cons_ne_nil _ _) (TreeCursor.Level.refl _).toEnd
    rw [length_cons, eachMessage, hexit, henter, hn, getMessageFromBuffer_eq hfields, ih hrest (n :: l)]
    simp only [forall_mem_cons]
    exact bind_definedIf fun _ => by rw [map_definedIf, map_cons, hn]

section

variable (hoffset : p.dataIteratorOffset < 0) (hbody : p.body = ⟨parents, l, []⟩)
include hoffset hbody

theorem addBareMsg_eq (hcopy : ∀ f ∈ fields, Copies copy (good f) f) :
    p.addBareMsg copy (payloadToMamaMsg (messageOf (fields.map node)))
      = definedIf (∀ f ∈ fields, good f) { p with body := ⟨parents, (fields.map node).reverse ++ l, []⟩ } := by
  have hinline : Writable { p with insertMode := .inline } parents l := ⟨hbody, .inl rfl, hoffset⟩
  have hlength : (content [] fields).ahead.length = fields.length := length_map _
  rw [addBareMsg, moveDataToContentLocation_eq (holds_payloadToMamaMsg fields), hlength, content,
    eachField_eq hcopy hinline, map_definedIf]

theorem putMessages_eq (hcopy : ∀ fields ∈ contents, ∀ f ∈ fields, Copies copy (good f) f) :
    putMessages copy (contents.map fun fields => payloadToMamaMsg (messageOf (fields.map node))) p
      = definedIf (∀ fields ∈ contents, ∀ f ∈ fields, good f)
        { p with body := ⟨parents, (contents.map messageNode).reverse ++ l, []⟩ } := by
  induction contents generalizing p l with
  | nil =>
    have hsame : p = { p with body := ⟨parents, l, []⟩ } := by rw [← hbody]
    exact (congrArg some hsame).trans (definedIf_of (by simp) _).symm
  | cons fields contents ih =>
    obtain ⟨hfields, hrest⟩ := forall_mem_cons.mp hcopy
    have henter : (p.body.put messageList).enter = ⟨(l, messageList, []) :: parents, [], []⟩ := by
      rw [hbody]
      rfl
    have hbare := addBareMsg_eq (p := { p with body := ⟨(l, messageList, []) :: parents, [], []⟩ }) hoffset rfl hfields
    have hexit : (⟨(l, messageList, []) :: parents, (fields.map node).reverse ++ [], []⟩ : Body).exit
        = ⟨parents, messageNode fields :: l, []⟩ := by
      simp [exit, siblings, messageNode]
    rw [map_cons, putMessages, henter, hbare]
    simp only [forall_mem_cons]
    have htail := ih (p := { p with body := ⟨parents, messageNode fields :: l, []⟩ }) hoffset rfl hrest
    refine bind_definedIf fun _ => ?_
    rw [hexit, htail]
    simp

end

theorem beginField_eq (hp : Writable p parents l) (name : String) (fid : UInt16) {f : FieldNode} (hname : f.name = name)
    (hfid : f.fid = fid) : p.beginField (some name) fid
      = ⟨(l, { type := .list }, []) :: parents, [f.fidNode, f.nameNode], []⟩ := by
  rw [beginField, hp.location, ← hname, ← hfid]
  rfl

theorem addMsg_eq (hcopy : ∀ f ∈ fields, Copies copy (good f) f) (hp : Writable p parents l) (name : String)
    (fid : UInt16) : p.addMsg copy (some name) fid (payloadToMamaMsg (messageOf (fields.map node)))
      = definedIf (∀ f ∈ fields, good f) { p with body := ⟨parents, (msgField name fid fields).node :: l, []⟩ } := by
  have henter : ((p.beginField (some name) fid).put messageList).enter
      = ⟨([(msgField name fid fields).fidNode, (msgField name fid fields).nameNode], messageList, [])
          :: (l, { type := .list }, []) :: parents, [], []⟩ := by
    rw [beginField_eq hp name fid (f := msgField name fid fields) rfl rfl]
    rfl
  have hbare := addBareMsg_eq (p := { p with body := ((p.beginField (some name) fid).put messageList).enter })
    hp.offset henter hcopy
  rw [addMsg, hbare, map_definedIf]
  refine congrArg (definedIf _) ((reset_with_body hp.offset _).trans ?_)
  simp [exit, siblings, node, msgField, messageNode]

theorem addVectorMsg_eq (hne : contents ≠ [])
    (hcopy : ∀ fields ∈ contents, ∀ f ∈ fields, Copies copy (good f) f) (hp : Writable p parents l) (name : String)
    (fid : UInt16) : p.addVectorMsg copy (some name) fid
        (contents.map fun fields => payloadToMamaMsg (messageOf (fields.map node)))
      = definedIf (∀ fields ∈ contents, ∀ f ∈ fields, good f)
        { p with body := ⟨parents, (vectorMsgField name fid contents).node :: l, []⟩ } := by
  have hguard : ¬ ((contents.map fun fields => payloadToMamaMsg (messageOf (fields.map node))).isEmpty
      || ((some name).isNone && fid = 0)) := by simpa using hne
  have henter : ((p.beginField (some name) fid).put messageArray).enter
      = ⟨([(vectorMsgField name fid contents).fidNode, (vectorMsgField name fid contents).nameNode], messageArray, [])
          :: (l, { type := .list }, []) :: parents, [], []⟩ := by
    rw [beginField_eq hp name fid (f := vectorMsgField name fid contents) rfl rfl]
    rfl
  have hput := putMessages_eq (p := { p with body := ((p.beginField (some name) fid).put messageArray).enter })
    hp.offset henter hcopy
  rw [addVectorMsg, if_neg hguard, hput, map_definedIf]
  refine congrArg (definedIf _) ((reset_with_body hp.offset _).trans ?_)
  simp [exit, siblings, node, vectorMsgField]

end Copying

/-! ### Fields that are copied -/

def FieldType.isCopied : FieldType → Bool
  | .opaqueData | .vectorPrice | .vectorTime => false
  | .scalar _ | .time | .price | .msg | .vector _ | .vectorMsg | .unknown => true

/-- A field of a message that is read can be copied: it has no opaque data, no vector of prices or times, and no array
of messages inside another. The flag says whether an array is in use. -/
inductive Clean : Bool → FieldNode → Prop
  | intro {isInUse : Bool} {f : FieldNode} (value : f.view.type.isCopied)
    (msg : f.view.type = .msg → ∀ g : FieldNode, g.node ∈ f.value.children → Clean isInUse g)
    (free : f.view.type = .vectorMsg → isInUse = false)
    (vectorMsg : f.view.type = .vectorMsg →
      ∀ n ∈ f.value.children, ∀ g : FieldNode, g.node ∈ n.children → Clean true g) : Clean isInUse f

/-- A value as `addFieldToPayload` writes it. -/
def Value.IsNested : Value → Prop
  | scalar _ _ | opaqueData _ | price _ => True
  | time t => Qpid.Packable t
  | vector _ values => values ≠ []
  | vectorPrice prices => prices ≠ []
  | vectorTime times => times ≠ []

/-- A field of a message in a message, with messages of less than the depth in it. -/
inductive Nested : Nat → FieldNode → Prop
  | value {depth : Nat} (name : String) (fid : UInt16) {v : Value} (hv : v.IsNested) :
    Nested (depth + 1) (new (some name) fid v)
  | msg {depth : Nat} (name : String) (fid : UInt16) {fields : List FieldNode}
    (hfields : ∀ g ∈ fields, Nested depth g) : Nested (depth + 1) (msgField name fid fields)
  | vectorMsg {depth : Nat} (name : String) (fid : UInt16) {contents : List (List FieldNode)} (hne : contents ≠ [])
    (hcontents : ∀ fields ∈ contents, ∀ g ∈ fields, Nested depth g) :
    Nested (depth + 1) (vectorMsgField name fid contents)

/-- The nodes of the messages that are read with a field. -/
def FieldNode.messages (f : FieldNode) : List (Node Atom) :=
  match f.view.type with
  | .msg => [f.value]
  | .vectorMsg => f.value.children
  | _ => []

section

variable {f : FieldNode} {v : Value} {fields : List FieldNode} {contents : List (List FieldNode)} {isInUse : Bool}

theorem node_injective : Function.Injective node := by
  rintro ⟨name, fid, value, rest⟩ ⟨name', fid', value', rest'⟩ h
  simpa [node, nameNode, fidNode, Node.leaf, UInt16.toUInt64_inj] using h

theorem node_mem_map {g : FieldNode} : g.node ∈ fields.map node ↔ g ∈ fields := mem_map_of_injective node_injective

theorem Value.IsNested.isRejected (h : v.IsNested) : v.isRejected = false := by
  cases v with
  | vector type values => cases type <;> cases values <;> first | rfl | exact absurd rfl h
  | vectorPrice l | vectorTime l => cases l <;> first | rfl | exact absurd rfl h
  | scalar _ _ | opaqueData _ | price _ | time _ => rfl

theorem view_new (name : Option String) (fid : UInt16) (hv : v.isRejected = false) :
    (new name fid v).view = { name := name.getD "", fid := fid, type := v.type, atoms := v.atoms } := by
  have hnodes : (new name fid v).value :: (new name fid v).rest = v.nodes false ++ [] := by
    rw [children_new, append_nil]
  have halone (h : v.isAlone) : (new name fid v).rest = [] := by
    cases v <;> first | rfl | cases h
  rw [view, valueView_nodes hnodes halone hv]
  rfl

theorem Value.type_ne (v : Value) : v.type ≠ .msg ∧ v.type ≠ .vectorMsg := by
  cases v <;> exact ⟨FieldType.noConfusion, FieldType.noConfusion⟩

theorem messages_of_msg (h : f.view.type = .msg) : f.messages = [f.value] := by
  rw [FieldNode.messages, h]

theorem messages_of_vectorMsg (h : f.view.type = .vectorMsg) : f.messages = f.value.children := by
  rw [FieldNode.messages, h]

theorem messages_of_value (hmsg : f.view.type ≠ .msg) (hvector : f.view.type ≠ .vectorMsg) : f.messages = [] := by
  rw [FieldNode.messages]
  split
  next h => exact absurd h hmsg
  next h => exact absurd h hvector
  · rfl

theorem Clean.of_inUse (h : Clean isInUse f) : Clean false f := by
  induction h with
  | intro value _ _ vectorMsg ih _ => exact .intro value ih (fun _ => rfl) vectorMsg

theorem clean_new (name : String) (fid : UInt16) (hv : v.IsNested) :
    Clean isInUse (new (some name) fid v) ↔ v.type.isCopied := by
  have htype : (new (some name) fid v).view.type = v.type := by rw [view_new _ _ hv.isRejected]
  constructor
  · rintro ⟨hvalue, -, -, -⟩
    exact htype ▸ hvalue
  · intro hvalue
    exact .intro (htype ▸ hvalue) (fun h => absurd (htype ▸ h) v.type_ne.1) (fun h => absurd (htype ▸ h) v.type_ne.2)
      fun h => absurd (htype ▸ h) v.type_ne.2

theorem clean_msg (name : String) (fid : UInt16) (fields : List FieldNode) :
    Clean isInUse (msgField name fid fields) ↔ ∀ g ∈ fields, Clean isInUse g := by
  constructor
  · rintro ⟨-, hmsg, -, -⟩ g hg
    exact hmsg rfl g (node_mem_map.mpr hg)
  · intro hfields
    exact .intro rfl (fun _ g hg => hfields g (node_mem_map.mp hg)) (fun h => by cases h) fun h => by cases h

theorem clean_vectorMsg (name : String) (fid : UInt16) (contents : List (List FieldNode)) :
    Clean isInUse (vectorMsgField name fid contents)
      ↔ isInUse = false ∧ ∀ fields ∈ contents, ∀ g ∈ fields, Clean true g := by
  constructor
  · rintro ⟨-, -, hfree, hvector⟩
    refine ⟨hfree rfl, fun fields hfields g hg => ?_⟩
    exact hvector rfl (messageNode fields) (mem_map_of_mem hfields) g (node_mem_map.mpr hg)
  · rintro ⟨hfree, hcontents⟩
    refine .intro rfl (fun h => by cases h) (fun _ => hfree) fun _ n hn g hg => ?_
    obtain ⟨fields, hfields, rfl⟩ := mem_map.mp hn
    exact hcontents fields hfields g (node_mem_map.mp hg)

theorem type_of_vectorMsg (h : f.view.type = .vectorMsg) : f.value.atom.type = .array := by
  obtain ⟨_, _, ⟨⟨type, _⟩, _⟩, rest⟩ := f
  cases type <;> first | rfl | (cases rest <;> cases h)

/-! ### The messages that are read with a field -/

variable {copy : Body → Payload → Option Payload} {good : FieldNode → Prop}

theorem getMessages_eq (hrest : f.view.type = .vectorMsg → f.rest = []) (helements : Elements f.messages contents)
    (hcopy : ∀ fields ∈ contents, ∀ g ∈ fields, Copies copy (good g) g) (parents : Path) (l r : List (Node Atom)) :
    getMessages copy ⟨parents, f.node :: l, r⟩
      = definedIf (∀ fields ∈ contents, ∀ g ∈ fields, good g) (f.messages.map fun n => messageOf n.children) := by
  have hvalue : (enter (⟨parents, f.node :: l, r⟩ : Body)).next.next.next
      = ⟨(l, { type := .list }, r) :: parents, f.value :: [f.fidNode, f.nameNode], f.rest⟩ := rfl
  have henter : (⟨(l, { type := .list }, r) :: parents, f.value :: [f.fidNode, f.nameNode], f.rest⟩ : Body).enter
      = ⟨([f.fidNode, f.nameNode], f.value.atom, f.rest) :: (l, { type := .list }, r) :: parents, [],
        f.value.children⟩ := by cases f.value; rfl
  rw [getMessages, readField_eq]
  dsimp only
  rw [hvalue]
  split
  next htype =>
    rw [messages_of_msg htype] at helements ⊢
    cases helements with
    | cons hfields hnil =>
      cases hnil
      rw [henter, hfields, getMessageFromBuffer_eq (hcopy _ mem_cons_self), map_definedIf]
      simp only [mem_singleton, forall_eq, map_cons, map_nil, hfields]
  next htype =>
    have harray := type_of_vectorMsg htype
    rw [messages_of_vectorMsg htype] at helements ⊢
    have hcount : getArray ⟨(l, { type := .list }, r) :: parents, f.value :: [f.fidNode, f.nameNode], []⟩
        = f.value.children.length := if_pos harray
    rw [hrest htype] at henter ⊢
    change eachMessage _ (getArray ⟨_, f.value :: _, []⟩) (enter ⟨_, f.value :: _, []⟩) = _
    rw [hcount, henter, eachMessage_eq helements hcopy]
  next hmsg hvector =>
    rw [messages_of_value hmsg hvector] at helements ⊢
    cases helements
    exact (definedIf_of (by simp) _).symm

theorem getFieldFromBuffer_eq (copy : Body → Payload → Option Payload) (f : FieldNode) (parents : Path)
    (l r : List (Node Atom)) : getFieldFromBuffer copy ⟨parents, f.node :: l, r⟩
      = (getMessages copy ⟨parents, f.node :: l, r⟩).map fun messages =>
        (⟨parents, f.node :: l, r⟩, { f.view with messages := messages }) := by
  rw [getFieldFromBuffer, readField_eq]

theorem copyField_of_messages {f : FieldNode} {depth : Nat} {messages : List Payload} (hasPlace isInUse : Bool)
    {parents : Path} {l r : List (Node Atom)}
    (hmessages : getMessages (copyField depth false false) ⟨parents, f.node :: l, r⟩ = some messages) (p : Payload) :
    copyField (depth + 1) hasPlace isInUse ⟨parents, f.node :: l, r⟩ p
      = addFieldToPayload (copyField depth true) hasPlace isInUse p { f.view with messages := messages } := by
  rw [copyField, getFieldFromBuffer_eq, hmessages]
  rfl

theorem addFieldToPayload_of_value (hv : v.IsNested) (copy : Bool → Body → Payload → Option Payload)
    {hasPlace : Bool} (isInUse : Bool) (hplace : hasPlace = true → v.type.isCopied) (p : Payload) (name : String)
    (fid : UInt16) :
    addFieldToPayload copy hasPlace isInUse p { name := name, fid := fid, type := v.type, atoms := v.atoms }
      = definedIf v.type.isCopied (p.add (some name) fid v).1 := by
  have hvalue : Value.ofAtoms v.type v.atoms = some v.readBack := v.ofAtoms_atoms
  have hback : v.type.isCopied → v.readBack = v := by
    rw [Value.readBack_eq_iff]
    cases v with
    | time t => exact fun _ => hv
    | vectorTime _ => exact fun h => by cases h
    | scalar _ _ | opaqueData _ | price _ | vector _ _ | vectorPrice _ => exact fun _ => trivial
  rw [addFieldToPayload, FieldView.value]
  dsimp only
  rw [hvalue]
  cases v with
  | scalar _ _ | price _ => exact (definedIf_of rfl _).symm
  | time t =>
    rw [hback rfl]
    exact (definedIf_of rfl _).symm
  | opaqueData _ =>
    cases hasPlace with
    | false => exact (definedIf_of_not Bool.false_ne_true _).symm
    | true => cases hplace rfl
  | vectorPrice _ | vectorTime _ => exact (definedIf_of_not Bool.false_ne_true _).symm
  | vector _ values =>
    cases values with
    | nil => exact absurd rfl hv
    | cons _ _ => exact (definedIf_of rfl _).symm

/-- A field of a message in a message is copied exactly if it is clean. With a place for opaque data, this
is said only of fields that were read before. -/
theorem Nested.copies {depth : Nat} (h : Nested depth f) (hasPlace isInUse : Bool)
    (hread : hasPlace = true → Clean false f) : Copies (copyField depth hasPlace isInUse) (Clean isInUse f) f := by
  induction h generalizing hasPlace isInUse with
  | @value depth name fid v hv =>
    intro parents l r p _ _ hp
    have hview := view_new (some name) fid hv.isRejected
    have htype : (new (some name) fid v).view.type = v.type := by rw [hview]
    have hnone := messages_of_value (htype ▸ v.type_ne.1) (htype ▸ v.type_ne.2)
    have hcopy : ∀ fields ∈ ([] : List (List FieldNode)), ∀ g ∈ fields,
        Copies (copyField depth false false) True g := by simp
    have hmessages := getMessages_eq (fun hvector => absurd (htype ▸ hvector) v.type_ne.2) (hnone ▸ Forall₂.nil)
      hcopy parents l r
    rw [definedIf_of (by simp)] at hmessages
    have hadd := addFieldToPayload_of_value hv (copyField depth true) isInUse
      (fun hplace => (clean_new name fid hv).mp (hread hplace)) p name fid
    rw [copyField_of_messages hasPlace isInUse hmessages, hnone, hview]
    apply hadd.trans
    simp only [clean_new name fid hv, hp.add name fid hv.isRejected]
  | @msg depth name fid fields hfields ih =>
    intro parents l r p _ _ hp
    have hcopy (g : FieldNode) (hg : g ∈ fields) := ih g hg false false (fun h => by cases h)
    have helements : Elements (msgField name fid fields).messages [fields] := Forall₂.cons rfl Forall₂.nil
    have hmessages := getMessages_eq (fun h => by cases h) helements (by simpa using hcopy) parents l r
    simp only [mem_singleton, forall_eq] at hmessages
    by_cases hall : ∀ g ∈ fields, Clean false g
    · rw [definedIf_of hall] at hmessages
      have hadd := addMsg_eq (fun g hg => ih g hg true isInUse fun _ => hall g hg) hp name fid
      rw [copyField_of_messages hasPlace isInUse hmessages]
      apply hadd.trans
      simp only [clean_msg]
    · rw [definedIf_of_not hall] at hmessages
      rw [copyField, getFieldFromBuffer_eq, hmessages]
      refine (definedIf_of_not (fun hclean => hall fun g hg => ?_) _).symm
      exact ((clean_msg name fid fields).mp hclean g hg).of_inUse
  | @vectorMsg depth name fid contents hne hcontents ih =>
    intro parents l r p _ _ hp
    have hcopy (fields : List FieldNode) (hfields : fields ∈ contents) (g : FieldNode) (hg : g ∈ fields) :=
      ih fields hfields g hg false false (fun h => by cases h)
    have helements : Elements (vectorMsgField name fid contents).messages contents := by
      refine forall₂_map_left_iff.mpr (forall₂_same.mpr fun _ _ => rfl)
    have hmessages := getMessages_eq (fun _ => rfl) helements hcopy parents l r
    by_cases hall : ∀ fields ∈ contents, ∀ g ∈ fields, Clean false g
    · rw [definedIf_of hall] at hmessages
      have hadd := addVectorMsg_eq hne
        (fun fields hfields g hg => ih fields hfields g hg true true fun _ => hall fields hfields g hg) hp name fid
      have hsent : ((vectorMsgField name fid contents).messages.map fun n => messageOf n.children).map payloadToMamaMsg
          = contents.map fun fields => payloadToMamaMsg (messageOf (fields.map node)) := by
        rw [map_map]
        exact map_map
      rw [copyField_of_messages hasPlace isInUse hmessages]
      simp only [clean_vectorMsg]
      cases isInUse with
      | true => exact (definedIf_of_not (fun h => by cases h.1) _).symm
      | false =>
        rw [← hsent] at hadd
        apply hadd.trans
        simp only [true_and]
    · rw [definedIf_of_not hall] at hmessages
      rw [copyField, getFieldFromBuffer_eq, hmessages]
      refine (definedIf_of_not (fun hclean => hall fun fields hfields g hg => ?_) _).symm
      exact (((clean_vectorMsg name fid contents).mp hclean).2 fields hfields g hg).of_inUse

/-! ### Fields as the calls leave them -/

/-- A field of a message. Behind a value or a message there can be bytes of earlier values. An update with date-times
leaves an array of messages too, with atoms for messages. -/
inductive FieldNode.Built (depth : Nat) (f : FieldNode) : Prop
  | value {v : Value} {extra : List (Node Atom)} (hrest : ∀ n ∈ f.rest, IsByte n) (hv : v.isRejected = false)
    (hnodes : f.value :: f.rest = v.nodes false ++ extra)
  | msg {fields : List FieldNode} (hrest : ∀ n ∈ f.rest, IsByte n) (hvalue : f.value = messageNode fields)
    (hfields : ∀ g ∈ fields, Nested depth g)
  | vectorMsg {elements : List (Node Atom)} {contents : List (List FieldNode)} (hrest : ∀ n ∈ f.rest, IsByte n)
    (hvalue : f.value = .node messageArray elements) (helements : Elements elements contents)
    (hcontents : ∀ fields ∈ contents, ∀ g ∈ fields, Nested depth g)

/-- The fields of the message can be copied. -/
def IsReadable (n : Node Atom) : Prop := ∀ g : FieldNode, g.node ∈ n.children → Clean false g

theorem isReadable_iff {elements : List (Node Atom)} (h : Elements elements contents) :
    (∀ fields ∈ contents, ∀ g ∈ fields, Clean false g) ↔ ∀ n ∈ elements, IsReadable n := by
  induction h with
  | nil => simp
  | @cons n fields _ _ hn _ ih =>
    rw [forall_mem_cons, forall_mem_cons, ih, IsReadable, hn]
    simp only [node_mem_map]

theorem elements_leaves {atoms : List Atom} :
    Elements (atoms.map Node.leaf) (atoms.map fun _ => ([] : List FieldNode)) := by
  induction atoms with
  | nil => exact Forall₂.nil
  | cons a _ ih => exact Forall₂.cons rfl ih

variable {depth : Nat}

theorem FieldNode.Built.rest (h : f.Built depth) : ∀ n ∈ f.rest, IsByte n := by
  cases h <;> assumption

/-- A byte that is left behind a double or a vector makes it a price, or nothing that is known. -/
theorem valueView_crowded {n m : Node Atom} {rest extra : List (Node Atom)} (hm : IsByte m) (halone : v.isAlone)
    (hnodes : n :: m :: rest = v.nodes false ++ extra) :
    v.type = .scalar .f64 ∧ (valueView n (m :: rest)).1 = .price ∨ (valueView n (m :: rest)).1 = .unknown := by
  have hunknown (data : Data) (elements : List (Node Atom)) :=
    congrArg Prod.fst (valueView_array_cons hm data elements rest)
  cases v with
  | scalar type _ =>
    obtain rfl : type = .f64 := by simpa [Value.isAlone, Value.type, Value.isVector, Value.arrayType?] using halone
    obtain ⟨rfl, -⟩ := cons.inj hnodes
    exact .inl ⟨rfl, rfl⟩
  | opaqueData _ | price _ | time _ => cases halone
  | vector _ _ | vectorPrice _ | vectorTime _ =>
    obtain ⟨rfl, -⟩ := cons.inj hnodes
    exact .inr (hunknown _ _)

/-- What is read of a value, before bytes that are left from earlier values. -/
theorem valueView_left {n : Node Atom} {rest extra : List (Node Atom)} (hrest : ∀ n ∈ rest, IsByte n)
    (hv : v.isRejected = false) (hnodes : n :: rest = v.nodes false ++ extra) :
    (valueView n rest).1 = v.type ∨ (valueView n rest).1 = .price ∨ (valueView n rest).1 = .unknown := by
  by_cases halone : v.isAlone → rest = []
  · exact .inl (congrArg Prod.fst (valueView_nodes hnodes halone hv))
  · obtain ⟨hv, hne⟩ := Classical.not_imp.mp halone
    obtain ⟨m, rest, rfl⟩ := exists_cons_of_ne_nil hne
    exact .inr ((valueView_crowded (hrest m mem_cons_self) hv hnodes).imp_left And.right)

theorem FieldNode.Built.elements (h : f.Built depth) : ∃ contents, Elements f.messages contents
      ∧ (∀ fields ∈ contents, ∀ g ∈ fields, Nested depth g) ∧ (f.view.type = .vectorMsg → f.rest = []) := by
  cases h with
  | @value v extra hrest hv hnodes =>
    have htype : f.view.type ≠ .msg ∧ f.view.type ≠ .vectorMsg := by
      rcases valueView_left hrest hv hnodes with htype | htype | htype
      · exact ⟨htype.trans_ne v.type_ne.1, htype.trans_ne v.type_ne.2⟩
      · exact ⟨htype.trans_ne FieldType.noConfusion, htype.trans_ne FieldType.noConfusion⟩
      · exact ⟨htype.trans_ne FieldType.noConfusion, htype.trans_ne FieldType.noConfusion⟩
    exact ⟨[], messages_of_value htype.1 htype.2 ▸ Forall₂.nil, by simp, fun h => absurd h htype.2⟩
  | @msg fields _ hvalue hfields =>
    obtain ⟨_, _, value, rest⟩ := f
    obtain rfl : value = messageNode fields := hvalue
    exact ⟨[fields], Forall₂.cons rfl Forall₂.nil, by simpa using hfields, fun h => by cases h⟩
  | @vectorMsg elements contents hrest hvalue helements hcontents =>
    obtain ⟨name, fid, value, rest⟩ := f
    obtain rfl : value = .node messageArray elements := hvalue
    cases rest with
    | nil => exact ⟨contents, helements, hcontents, fun _ => rfl⟩
    | cons m rest =>
      have hunknown : (view { name, fid, value := .node messageArray elements, rest := m :: rest }).type = .unknown :=
        congrArg Prod.fst (valueView_array_cons (hrest m mem_cons_self) (.elements .list) elements rest)
      refine ⟨[], ?_, by simp, fun h => by cases hunknown.symm.trans h⟩
      rw [messages_of_value (by rw [hunknown]; decide) (by rw [hunknown]; decide)]
      exact Forall₂.nil

/-- A field as it is read. -/
def FieldNode.asRead (f : FieldNode) : Field :=
  { f.view with messages := f.messages.map fun n => messageOf n.children }

/-- The messages that are read with a field of a message: those of its nodes, or undefined. -/
theorem getMessages_built (h : f.Built depth) (parents : Path) (l r : List (Node Atom)) :
    getMessages (copyField depth false false) ⟨parents, f.node :: l, r⟩
      = definedIf (∀ n ∈ f.messages, IsReadable n) (f.messages.map fun n => messageOf n.children) := by
  obtain ⟨contents, helements, hnested, hrest⟩ := h.elements
  rw [getMessages_eq hrest helements
    (fun fields hfields g hg => (hnested fields hfields g hg).copies false false fun h => by cases h) parents l r]
  simp only [isReadable_iff helements]

end

end OpenMama.Qpid
