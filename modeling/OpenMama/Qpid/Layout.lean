import OpenMama.Qpid.Values

/-!
# How fields lie in a payload

The body of a payload is one list, whose items are the fields of the message (`Holds`). This module says where the
cursor is after each of the functions that move it, and what is left of a field that is written.
-/

namespace OpenMama.Qpid

open List TreeCursor Node

/-- The nodes around the cursor that were entered. -/
abbrev Path := List (List (Node Atom) × Atom × List (Node Atom))

/-- A field of a message: its name and id, the first node of its value, and those that follow. -/
structure FieldNode where
  name : String
  fid : UInt16
  value : Node Atom
  rest : List (Node Atom) := []

namespace FieldNode

def nameNode (f : FieldNode) : Node Atom := .leaf { type := .string, data := .text f.name }

def fidNode (f : FieldNode) : Node Atom := .leaf { type := .ushort, data := .number f.fid.toUInt64 }

def node (f : FieldNode) : Node Atom := .node { type := .list } (f.nameNode :: f.fidNode :: f.value :: f.rest)

/-- Whether `findField` takes the field. -/
def isWanted (name : Option String) (fid : UInt16) (f : FieldNode) : Bool :=
  if fid ≠ 0 then fid = f.fid else name = some f.name

end FieldNode

open FieldNode

/-- The message has these fields. -/
def Holds (b : Body) (fields : List FieldNode) : Prop :=
  b.roots = [.node { type := .list } (fields.map FieldNode.node)]

/-- The cursor between two fields. -/
def content (passed ahead : List FieldNode) : Body :=
  { parents := [([], { type := .list }, [])]
    passed := passed.map FieldNode.node
    ahead := ahead.map FieldNode.node }

/-- The cursor in a field, behind its id and the nodes `l`. -/
def inside (passed : List FieldNode) (f : FieldNode) (ahead : List FieldNode) (l r : List (Node Atom)) : Body :=
  { parents := [(passed.map FieldNode.node, { type := .list }, ahead.map FieldNode.node),
      ([], { type := .list }, [])]
    passed := l ++ [f.fidNode, f.nameNode]
    ahead := r }

variable {b : Body} {fields : List FieldNode} {name : Option String} {fid : UInt16}

theorem holds_content (passed ahead : List FieldNode) : Holds (content passed ahead) (passed.reverse ++ ahead) := by
  simp [Holds, roots, rootsOf, siblings, content]

theorem holds_content_end (fields : List FieldNode) : Holds (content fields.reverse []) fields := by
  simpa using holds_content fields.reverse []

theorem holds_content_take (k : Nat) (fields : List FieldNode) :
    Holds (content (fields.take k).reverse (fields.drop k)) fields := by
  simpa using holds_content (fields.take k).reverse (fields.drop k)

theorem moveDataToContentLocation_eq (h : Holds b fields) : moveDataToContentLocation b = content [] fields := by
  rw [moveDataToContentLocation, rewind, h]
  rfl

theorem toEnd_content (passed ahead : List FieldNode) :
    (content passed ahead).toEnd = content (ahead.reverse ++ passed) [] := by
  simp [toEnd, content]

theorem next_content (passed ahead : List FieldNode) (f : FieldNode) :
    (content passed (f :: ahead)).next = content (f :: passed) ahead := rfl

theorem advance_content (n : Nat) (passed ahead : List FieldNode) :
    advance n (content passed ahead) = content ((ahead.take n).reverse ++ passed) (ahead.drop n) := by
  induction n generalizing passed ahead with
  | zero => rfl
  | succ n ih =>
    cases ahead with
    | nil => rfl
    | cons f ahead =>
      have hnext : advance (n + 1) (content passed (f :: ahead)) = advance n (content (f :: passed) ahead) := rfl
      rw [hnext, ih]
      simp

theorem guard_of_wanted (h : name ≠ none ∨ fid ≠ 0) (b : Bool) : (b && name.isNone && fid = 0) = false := by
  rcases h with hname | hfid
  · simp [hname]
  · simp [hfid]

section

variable (passed ahead : List FieldNode) (f : FieldNode)

theorem enter_content :
    (content (f :: passed) ahead).enter.next.next = inside passed f ahead [] (f.value :: f.rest) := rfl

theorem getUShort_inside (r : List (Node Atom)) : getUShort (inside passed f ahead [] r) = f.fid := by
  simp [getUShort, getAtom, inside, current?, fidNode, leaf, atom]

theorem exit_inside :
    (inside passed f ahead [] (f.value :: f.rest)).exit = content (f :: passed) ahead := rfl

end

theorem findField_eq_search (h : Holds b fields) (hwanted : name ≠ none ∨ fid ≠ 0) : ∃ check,
      (∀ f passed ahead, check (content (f :: passed) ahead)
        = if f.isWanted name fid then (inside passed f ahead [] (f.value :: f.rest), some ())
          else (content (f :: passed) ahead, none))
      ∧ findField b name fid = search check (content [] fields) := by
  by_cases hfid : fid = 0
  · obtain ⟨name, rfl⟩ := Option.ne_none_iff_exists'.mp (hwanted.resolve_right (not_not.mpr hfid))
    refine ⟨checkName name, fun f passed ahead => ?_, ?_⟩
    · change (if name = f.name then _ else (content (f :: passed) ahead, none)) = _
      simp [isWanted, hfid, enter_content]
    · simp [findField, moveDataToContentLocation_eq h, hfid]
  · refine ⟨checkFid fid, fun f passed ahead => ?_, ?_⟩
    · simp [checkFid, enter_content, getUShort_inside, exit_inside, isWanted, hfid]
    · simp [findField, moveDataToContentLocation_eq h, hfid]

theorem findField_of_none (h : Holds b fields) (hwanted : name ≠ none ∨ fid ≠ 0)
    (hnone : ∀ f ∈ fields, f.isWanted name fid = false) :
    findField b name fid = (content fields.reverse [], .notFound) := by
  obtain ⟨check, hcheck, hfind⟩ := findField_eq_search h hwanted
  have hloop : (content [] fields).eachNext check (content [] fields).ahead.length
      = ((content [] fields).toEnd, none) := by
    refine eachNext_toEnd (Nat.le_refl _) fun l n r hsplit => ?_
    obtain ⟨before, _, rfl, rfl, htail⟩ := map_eq_append_iff.mp hsplit
    obtain ⟨f, after, rfl, rfl, rfl⟩ := map_eq_cons_iff.mp htail
    have hpass := hcheck f before.reverse after
    rw [hnone f (by simp)] at hpass
    simpa [content] using hpass
  rw [hfind, search, hloop, toEnd_content, append_nil]
  rfl

theorem findField_of_found {before after : List FieldNode} {f : FieldNode} (h : Holds b (before ++ f :: after))
    (hwanted : name ≠ none ∨ fid ≠ 0) (hbefore : ∀ g ∈ before, g.isWanted name fid = false)
    (hf : f.isWanted name fid) :
    findField b name fid = (inside before.reverse f after [] (f.value :: f.rest), .ok) := by
  obtain ⟨check, hcheck, hfind⟩ := findField_eq_search h hwanted
  have hfound := hcheck f before.reverse after
  rw [hf] at hfound
  have hloop : (content [] (before ++ f :: after)).eachNext check (content [] (before ++ f :: after)).ahead.length
      = (inside before.reverse f after [] (f.value :: f.rest), some ()) := by
    have hsplit : content [] (before ++ f :: after)
        = ⟨[([], { type := .list }, [])], [], before.map FieldNode.node ++ f.node :: after.map FieldNode.node⟩ := by
      simp [content]
    rw [hsplit]
    refine eachNext_found (by simp) (fun l n r hlnr => ?_) (by simpa [content] using hfound)
    obtain ⟨first, _, rfl, rfl, htail⟩ := map_eq_append_iff.mp hlnr
    obtain ⟨g, last, rfl, rfl, rfl⟩ := map_eq_cons_iff.mp htail
    have hpass := hcheck g first.reverse (last ++ f :: after)
    rw [hbefore g (by simp)] at hpass
    simpa [content] using hpass
  rw [hfind, search, hloop]
  rfl

/-! ### Reading -/

theorem level_readAtomsHere (n : Nat) (b : Body) : Level b (readAtomsHere n b).1 := by
  induction n generalizing b with
  | zero => exact Level.refl b
  | succ n ih => exact (Level.refl b).next.trans (ih b.next)

variable (parents : Path)

theorem readAtomsHere_snd (n : Node Atom) (l r : List (Node Atom)) :
    (readAtomsHere (r.length + 1) ⟨parents, n :: l, r⟩).2 = (n :: r).map atom := by
  induction r generalizing n l with
  | nil => rfl
  | cons m r ih => exact congrArg (n.atom :: ·) (ih m (n :: l))

theorem level_passMessages {n : Nat} (h : n ≤ b.ahead.length) : Level b (passMessages n b) := by
  induction n generalizing b with
  | zero => exact Level.refl b
  | succ n ih =>
    obtain ⟨parents, passed, ahead⟩ := b
    cases ahead with
    | nil => exact absurd h (Nat.not_succ_le_zero n)
    | cons m ahead =>
      have hpass : (enter ⟨parents, m :: passed, ahead⟩).toEnd.exit = ⟨parents, m :: passed, ahead⟩ :=
        exit_of_level (cons_ne_nil m passed) (Level.refl _).toEnd
      have hstep : passMessages (n + 1) ⟨parents, passed, m :: ahead⟩
          = passMessages n ⟨parents, m :: passed, ahead⟩ := congrArg (passMessages n) hpass
      rw [hstep]
      exact Level.trans (d := ⟨parents, m :: passed, ahead⟩) ⟨rfl, by simp [siblings]⟩
        (ih (Nat.le_of_succ_le_succ h))

/-- What is read of an array that holds no messages. -/
def arrayView (contentType : PnType) (elements : List (Node Atom)) : FieldType × List Atom :=
  (if contentType = .double ∧ (elements.take 2).getLast?.map (·.atom.type) = some .ubyte then .vectorPrice
    else arrayToMamaType contentType, elements.map atom)

theorem readArray_eq (contentType : PnType) (elements : List (Node Atom)) :
    ∃ b, readArray elements.length contentType ⟨parents, [], elements⟩
      = (b, arrayView contentType elements) ∧ Level ⟨parents, [], elements⟩ b := by
  cases elements with
  | nil => exact ⟨_, by simp [readArray, arrayView], Level.refl _⟩
  | cons n elements =>
    -- the cursor goes to the second element, if there is one, and back to the first
    obtain ⟨second, hnext, hsecond⟩ : ∃ second : Node Atom,
        (next (next ⟨parents, [], n :: elements⟩)).prev.prev = ⟨parents, [n], elements⟩
        ∧ (getAtom (next (next ⟨parents, [], n :: elements⟩))).type = second.atom.type
        ∧ ((n :: elements).take 2).getLast? = some second := by
      cases elements with
      | nil => exact ⟨n, rfl, rfl, rfl⟩
      | cons m _ => exact ⟨m, rfl, rfl, rfl⟩
    refine ⟨(readAtomsHere (elements.length + 1) ⟨parents, [n], elements⟩).1, ?_, ?_⟩
    · have hread := readAtomsHere_snd parents n [] elements
      simp only [readArray, length_cons, Nat.succ_pos, gt_iff_lt, if_true, hnext, hsecond.1, arrayView,
        hsecond.2, Option.map_some, Option.some.injEq]
      rw [hread]
    · exact Level.trans (d := ⟨parents, [n], elements⟩) ⟨rfl, rfl⟩ (level_readAtomsHere _ _)

/-- What is read of the nodes of a value. -/
def valueView (v : Node Atom) (rest : List (Node Atom)) : FieldType × List Atom :=
  match v.atom.type with
  | .array =>
    let n := rest.head?.getD v
    let contentType := getArrayType { passed := [n] }
    if contentType = .list then (.vectorMsg, [])
    else if n.atom.type = .array then arrayView contentType n.children
    else (.unknown, [])
  | .timestamp => (.time, [v.atom, getAtom (next { passed := [v], ahead := rest }),
      getAtom (next { passed := [v], ahead := rest }).next])
  | .double => match rest with
      | [] => (.scalar .f64, [v.atom])
      | hints :: _ => (.price, [v.atom, hints.atom])
  | .list => (.msg, [])
  | type => (toMamaType type, [v.atom])

theorem getArrayType_of_ne {n : Node Atom} (h : n.atom.type ≠ .array) : getArrayType { passed := [n] } = .invalid := by
  obtain ⟨⟨type, _⟩, l⟩ := n
  cases type <;> first | rfl | exact absurd rfl h

theorem readValue_array (n : Node Atom) (l r : List (Node Atom)) :
    let b : Body := ⟨parents, n :: l, r⟩
    (if getArrayType b = .list then ((passMessages (getArray b) b.enter).exit, FieldType.vectorMsg, [])
      else
        let (c, type, atoms) := readArray (getArray b) (getArrayType b) b.enter
        (c.exit, type, atoms))
      = (b, if getArrayType { passed := [n] } = .list then (.vectorMsg, [])
        else if n.atom.type = .array then arrayView (getArrayType { passed := [n] }) n.children
        else (.unknown, [])) := by
  obtain ⟨a, elements⟩ := n
  have hne : (⟨parents, .node a elements :: l, r⟩ : Body).passed ≠ [] := cons_ne_nil _ _
  have htype : getArrayType ⟨parents, .node a elements :: l, r⟩ = getArrayType { passed := [.node a elements] } := rfl
  have hcount : getArray ⟨parents, .node a elements :: l, r⟩ = if a.type = .array then elements.length else 0 := rfl
  have henter : (⟨parents, .node a elements :: l, r⟩ : Body).enter = ⟨(l, a, r) :: parents, [], elements⟩ := rfl
  dsimp only
  rw [htype, hcount, henter]
  by_cases harray : a.type = .array
  · split
    · have hlevel := level_passMessages (b := ⟨(l, a, r) :: parents, [], elements⟩) (Nat.le_refl elements.length)
      rw [exit_of_level hne hlevel]
    · obtain ⟨c, hread, hlevel⟩ := readArray_eq ((l, a, r) :: parents)
        (getArrayType { passed := [.node a elements] }) elements
      rw [hread]
      rw [exit_of_level hne hlevel, if_pos (show (node a elements).atom.type = .array from harray)]
      rfl
  · have hinvalid := getArrayType_of_ne (n := .node a elements) harray
    rw [if_neg harray, hinvalid, if_neg (show ¬ (node a elements).atom.type = .array from harray)]
    simp only [readArray, Nat.lt_irrefl, gt_iff_lt, if_false]
    rfl

theorem readValue_eq (v : Node Atom) (l rest : List (Node Atom)) :
    ∃ b, readValue ⟨parents, v :: l, rest⟩ = (b, valueView v rest)
      ∧ Level ⟨parents, v :: l, rest⟩ b := by
  have hlevel := Level.refl (⟨parents, v :: l, rest⟩ : Body)
  have hatom : getAtom ⟨parents, v :: l, rest⟩ = v.atom := rfl
  unfold readValue valueView
  rw [hatom]
  cases htype : v.atom.type
  case array =>
    cases rest with
    | nil => exact ⟨_, readValue_array parents v l [], hlevel⟩
    | cons n rest => exact ⟨_, readValue_array parents n (v :: l) rest, hlevel.next⟩
  case timestamp =>
    refine ⟨_, ?_, hlevel.next.next⟩
    cases rest with
    | nil => rfl
    | cons n rest => cases rest <;> rfl
  case double =>
    cases rest with
    | nil => exact ⟨_, by simp [hasNext, toMamaType], hlevel⟩
    | cons n _ => exact ⟨_, rfl, hlevel.next⟩
  case list =>
    refine ⟨_, rfl, ?_⟩
    rw [exit_of_level (cons_ne_nil v l) (Level.refl _).toEnd]
    exact hlevel
  all_goals exact ⟨_, rfl, hlevel⟩

def FieldNode.view (f : FieldNode) : FieldView :=
  { name := f.name, fid := f.fid, type := (valueView f.value f.rest).1, atoms := (valueView f.value f.rest).2 }

theorem readField_eq (f : FieldNode) (l r : List (Node Atom)) :
    readField ⟨parents, f.node :: l, r⟩ = (⟨parents, f.node :: l, r⟩, f.view) := by
  have hvalue : (enter (⟨parents, f.node :: l, r⟩ : Body)).next.next.next
      = ⟨(l, { type := .list }, r) :: parents, f.value :: [f.fidNode, f.nameNode], f.rest⟩ := rfl
  have hlevel : Level (enter (⟨parents, f.node :: l, r⟩ : Body))
      ⟨(l, { type := .list }, r) :: parents, f.value :: [f.fidNode, f.nameNode], f.rest⟩ :=
    hvalue ▸ (Level.refl _).next.next.next
  obtain ⟨b, hread, hb⟩ := readValue_eq ((l, { type := .list }, r) :: parents) f.value [f.fidNode, f.nameNode] f.rest
  have hexit : b.exit = ⟨parents, f.node :: l, r⟩ := exit_of_level (cons_ne_nil _ _) (hlevel.trans hb)
  have hfid : getUShort (enter (⟨parents, f.node :: l, r⟩ : Body)).next.next = f.fid := by
    simp [getUShort, getAtom, FieldNode.node, fidNode, leaf, atom, TreeCursor.enter,
      TreeCursor.next, current?]
  rw [readField]
  rw [hvalue, hread, hfid]
  dsimp only
  rw [hexit]
  rfl

@[simp]
theorem roots_readAtoms (n : Nat) (b : Body) : (readAtoms n b).1.roots = b.roots := by
  induction n generalizing b with
  | zero => rfl
  | succ n ih => exact (ih b.next).trans (roots_next b)

@[simp]
theorem roots_readAtomsHere (n : Nat) (b : Body) : (readAtomsHere n b).1.roots = b.roots := by
  induction n generalizing b with
  | zero => rfl
  | succ n ih => exact (ih b.next).trans (roots_next b)

@[simp]
theorem roots_passMessages (n : Nat) (b : Body) : (passMessages n b).roots = b.roots := by
  induction n generalizing b with
  | zero => rfl
  | succ n ih =>
    rw [passMessages, ih]
    simp

@[simp]
theorem roots_readArray (count : Nat) (contentType : PnType) (b : Body) :
    (readArray count contentType b).1.roots = b.roots := by
  unfold readArray
  split <;> simp

@[simp]
theorem roots_readValue (b : Body) : (readValue b).1.roots = b.roots := by
  unfold readValue
  split
  · dsimp only
    split <;> simp
  · simp
  · split <;> simp
  · simp
  · rfl

@[simp]
theorem roots_readField (b : Body) : (readField b).1.roots = b.roots := by simp [readField]

theorem roots_read (getter : Getter) (b : Body) : (getter.read b).1.roots = b.roots := by
  cases getter <;> simp [Getter.read, Getter.readVector]

section Writing

theorem putAtoms_eq (atoms : List Atom) (parents : Path)
    (l r : List (Node Atom)) : putAtoms atoms ⟨parents, l, r⟩
      = ⟨parents, (atoms.map leaf).reverse ++ l, r.drop atoms.length⟩ := by
  induction atoms generalizing l r with
  | nil => rfl
  | cons a atoms ih =>
    have hput : putAtoms (a :: atoms) ⟨parents, l, r⟩ = putAtoms atoms ⟨parents, .leaf a :: l, r.tail⟩ := rfl
    rw [hput, ih]
    simp [drop_tail]

namespace Value

def nodes (isUpdate : Bool) (v : Value) : List (Node Atom) :=
  match v.arrayType? isUpdate with
  | some type => [.node { type := .array, data := .elements type } (v.atoms.map leaf)]
  | none => v.atoms.map leaf

theorem nodes_ne_nil (isUpdate : Bool) (v : Value) : v.nodes isUpdate ≠ [] := by
  cases v <;> simp [nodes, arrayType?, atoms, Price.atoms, Time.atoms]

end Value

variable (isUpdate : Bool) (v : Value)

theorem write_eq (parents : Path)
    (l r : List (Node Atom)) : Payload.write isUpdate v ⟨parents, l, r⟩
      = ⟨parents, (v.nodes isUpdate).reverse ++ l, r.drop (v.nodes isUpdate).length⟩ := by
  unfold Payload.write Value.nodes
  cases v.arrayType? isUpdate with
  | none => rw [putAtoms_eq, length_map]
  | some type =>
    have henter : (put { type := .array, data := .elements type } (⟨parents, l, r⟩ : Body)).enter
        = ⟨(l, { type := .array, data := .elements type }, r.tail) :: parents, [], []⟩ := rfl
    dsimp only
    rw [henter, putAtoms_eq]
    simp [exit, siblings]

/-- A field with another value. What the value does not cover of the old one stays behind it. -/
def FieldNode.write (f : FieldNode) : FieldNode :=
  let nodes := v.nodes isUpdate ++ (f.value :: f.rest).drop (v.nodes isUpdate).length
  { f with value := nodes.headD f.value, rest := nodes.tail }

theorem FieldNode.write_children (f : FieldNode) :
    (f.write isUpdate v).value :: (f.write isUpdate v).rest
      = v.nodes isUpdate ++ (f.value :: f.rest).drop (v.nodes isUpdate).length := by
  cases h : v.nodes isUpdate with
  | nil => exact absurd h (v.nodes_ne_nil isUpdate)
  | cons n _ => simp [write, h]

theorem holds_write (before after : List FieldNode) (f : FieldNode) :
    Holds (Payload.write isUpdate v (inside before.reverse f after [] (f.value :: f.rest)))
      (before ++ f.write isUpdate v :: after) := by
  have hnode : (f.write isUpdate v).node = .node { type := .list }
      (f.nameNode :: f.fidNode :: (v.nodes isUpdate ++ (f.value :: f.rest).drop (v.nodes isUpdate).length)) := by
    rw [← write_children]
    rfl
  rw [inside, write_eq, Holds, roots]
  simp [rootsOf, siblings, hnode]

/-- The field that `add` appends. -/
def FieldNode.new (name : Option String) (fid : UInt16) (v : Value) : FieldNode :=
  { name := name.getD "", fid := fid, value := (v.nodes false).headD (.leaf { type := .null })
    rest := (v.nodes false).tail }

variable (name) (fid) (v : Value)

theorem FieldNode.children_new :
    (new name fid v).value :: (new name fid v).rest = v.nodes false := by
  cases h : v.nodes false with
  | nil => exact absurd h (v.nodes_ne_nil false)
  | cons n _ => simp [new, h]

theorem FieldNode.node_new : (new name fid v).node = .node { type := .list }
      ((new name fid v).nameNode :: (new name fid v).fidNode :: v.nodes false) := by
  rw [FieldNode.node, children_new]

theorem holds_add (fields : List FieldNode) :
    Holds ((Payload.write false v ((((content fields.reverse []).put { type := .list }).enter.put
        { type := .string, data := .text (name.getD "") }).put
        { type := .ushort, data := .number fid.toUInt64 })).exit)
      (fields ++ [new name fid v]) := by
  have hput : (((content fields.reverse []).put { type := .list }).enter.put
      { type := .string, data := .text (name.getD "") }).put { type := .ushort, data := .number fid.toUInt64 }
      = ⟨[(fields.reverse.map FieldNode.node, { type := .list }, []), ([], { type := .list }, [])],
        [(new name fid v).fidNode, (new name fid v).nameNode], []⟩ := rfl
  rw [hput, write_eq, Holds, roots_exit, roots]
  simp [rootsOf, siblings, node_new]

end Writing

/-! ### Reading what was written -/

variable {v : Value}

/-- The getter of the type of a value. -/
def Value.getter : Value → Getter
  | scalar type _ => .scalar type
  | opaqueData _ => .opaqueData
  | price _ => .price
  | time _ => .time
  | vector type _ => .vector type
  | vectorPrice _ => .vectorPrice
  | vectorTime _ => .vectorTime

/-- A double or a vector is read as something else if a node follows it. -/
def Value.isAlone (v : Value) : Bool := v.type = .scalar .f64 || v.isVector

/-- How many nodes a value is written as. -/
def Value.width : Value → Nat
  | price _ => 2
  | time _ => 3
  | scalar _ _ | opaqueData _ | vector _ _ | vectorPrice _ | vectorTime _ => 1

theorem Value.length_nodes (isUpdate : Bool) (v : Value) : (v.nodes isUpdate).length = v.width := by
  cases v <;> rfl

theorem Value.nodes_update (h : v.type ≠ .vectorTime) : v.nodes true = v.nodes false := by
  cases v with
  | vectorTime _ => exact absurd rfl h
  | scalar _ _ | opaqueData _ | price _ | time _ | vector _ _ | vectorPrice _ => rfl

/-- The hints or the precision of a price or a date-time. -/
def IsByte (n : Node Atom) : Prop := ∃ x, n = .leaf (ubyteAtom x)

theorem Value.tail_nodes (isUpdate : Bool) (v : Value) : ∀ n ∈ (v.nodes isUpdate).tail, IsByte n := by
  have hbyte (x : UInt8) : IsByte (.leaf (ubyteAtom x)) := ⟨x, rfl⟩
  cases v <;> simp [nodes, arrayType?, atoms, Price.atoms, Time.atoms, hbyte]

theorem valueView_array {type : PnType} (htype : type ≠ .list) (elements : List (Node Atom)) :
    valueView (.node { type := .array, data := .elements type } elements) [] = arrayView type elements :=
  if_neg htype

theorem map_atom_leaf (atoms : List Atom) : (atoms.map leaf).map atom = atoms := by
  simp [Function.comp_def, leaf, atom]

theorem arrayView_vector (type : ElementType) (values : List Data) :
    arrayView type.pnType ((values.map type.atom).map leaf) = (.vector type, values.map type.atom) := by
  have hsecond : ¬ (type.pnType = .double
      ∧ (((values.map type.atom).map leaf).take 2).getLast?.map (·.atom.type) = some .ubyte) := by
    rintro ⟨htype, hlast⟩
    obtain ⟨n, hn, hubyte⟩ := Option.map_eq_some_iff.mp hlast
    obtain ⟨a, ha, rfl⟩ := mem_map.mp (mem_of_mem_take (mem_of_getLast? hn))
    obtain ⟨_, -, rfl⟩ := mem_map.mp ha
    cases htype.symm.trans hubyte
  rw [arrayView, if_neg hsecond, map_atom_leaf]
  cases type <;> rfl

theorem arrayView_prices {prices : List Price} (h : prices ≠ []) :
    arrayView .double ((prices.flatMap Price.atoms).map leaf) = (.vectorPrice, prices.flatMap Price.atoms) := by
  have hsecond : (((prices.flatMap Price.atoms).map leaf).take 2).getLast?.map (·.atom.type) = some .ubyte := by
    cases prices with
    | nil => exact absurd rfl h
    | cons p _ => rfl
  rw [arrayView, if_pos ⟨rfl, hsecond⟩, map_atom_leaf]

theorem valueView_nodes {n : Node Atom} {rest extra : List (Node Atom)} (hnodes : n :: rest = v.nodes false ++ extra)
    (halone : v.isAlone → rest = []) (haccepted : v.isRejected = false) : valueView n rest = (v.type, v.atoms) := by
  cases v with
  | scalar type _ =>
    obtain ⟨rfl, -⟩ := cons.inj hnodes
    by_cases htype : type = .f64
    · subst htype
      rw [halone rfl]
      rfl
    · cases type <;> first | rfl | exact absurd rfl htype
  | opaqueData _ =>
    obtain ⟨rfl, -⟩ := cons.inj hnodes
    rfl
  | price | time =>
    obtain ⟨rfl, rfl⟩ := cons.inj hnodes
    rfl
  | vector type values =>
    obtain ⟨rfl, -⟩ := cons.inj hnodes
    rw [halone rfl, valueView_array (by cases type <;> decide)]
    exact arrayView_vector type values
  | vectorPrice _ =>
    obtain ⟨rfl, -⟩ := cons.inj hnodes
    rw [halone rfl]
    refine arrayView_prices fun hnil => ?_
    rw [hnil] at haccepted
    cases haccepted
  | vectorTime _ =>
    obtain ⟨rfl, -⟩ := cons.inj hnodes
    rw [halone rfl]
    exact congrArg (Prod.mk FieldType.vectorTime) (map_atom_leaf _)

theorem valueView_array_cons {m : Node Atom} (hm : IsByte m) (data : Data) (elements rest : List (Node Atom)) :
    valueView (.node { type := .array, data := data } elements) (m :: rest) = (.unknown, []) := by
  have hne : m.atom.type ≠ .array := by
    obtain ⟨x, rfl⟩ := hm
    exact PnType.noConfusion
  change (if getArrayType { passed := [m] } = .list then _ else if m.atom.type = .array then _ else _) = _
  rw [getArrayType_of_ne hne, if_neg (by decide), if_neg hne]

theorem readAtoms_snd (parents : Path) (l r : List (Node Atom)) :
    (readAtoms r.length ⟨parents, l, r⟩).2 = r.map atom := by
  induction r generalizing l with
  | nil => rfl
  | cons n r ih => exact congrArg (n.atom :: ·) (ih (n :: l))

theorem readVector_snd {type : PnType} {atoms : List Atom} {width : Nat} (hwidth : width ∣ atoms.length)
    (parents : Path) (l r : List (Node Atom)) :
    (Getter.readVector width
      ⟨parents, l, .node { type := .array, data := .elements type } (atoms.map leaf) :: r⟩).2 = atoms := by
  have hread := readAtoms_snd ((l, { type := .array, data := .elements type }, r) :: parents) [] (atoms.map leaf)
  have hcount : (atoms.map leaf).length / width * width = (atoms.map leaf).length :=
    Nat.div_mul_cancel (by rwa [length_map])
  rw [← hcount, map_atom_leaf] at hread
  exact hread

theorem dvd_length_flatMap {α : Type} {atoms : α → List Atom} {width : Nat} (h : ∀ a, (atoms a).length = width)
    (l : List α) : width ∣ (l.flatMap atoms).length := by
  induction l with
  | nil => exact Nat.dvd_zero width
  | cons a l ih =>
    rw [flatMap_cons, length_append, h]
    exact Nat.dvd_add (Nat.dvd_refl width) ih

theorem read_nodes (v : Value) (parents : Path)
    (l extra : List (Node Atom)) : (v.getter.read ⟨parents, l, v.nodes false ++ extra⟩).2 = v.atoms := by
  cases v with
  | scalar | opaqueData | price | time => rfl
  | vector _ _ => exact readVector_snd (Nat.one_dvd _) parents l extra
  | vectorPrice prices =>
    have hpairs (p : Price) : p.atoms.length = 2 := rfl
    exact readVector_snd (dvd_length_flatMap hpairs prices) parents l extra
  | vectorTime times =>
    have htriples (t : Time) : t.atoms.length = 3 := rfl
    exact readVector_snd (dvd_length_flatMap htriples (getAllWithHints unread times)) parents l extra

end OpenMama.Qpid
