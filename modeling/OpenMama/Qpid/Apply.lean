import OpenMama.Qpid.FieldList

/-!
# Applying a payload

`qpidmsgPayload_apply` iterates the source and updates the destination with each field. A message is handed on as a
payload where a `mamaMsg` is expected, which C leaves undefined (`none`). For a vector of messages the source is
encoded while it is iterated, and nothing is said of where `pn_message_encode` leaves its cursor. `applied_iff_arrives`
says which fields of the source arrive, wherever that is.
-/

namespace OpenMama.Qpid

open List FieldNode Keyed

section Apply

variable (encoded : Body → Body) (depth : Nat)

/-- The `switch` of `apply`. A vector without elements is not read, and an update without one is refused. -/
def applyField (dest src : Payload) (name : Option String) (field : Field) : Option Payload :=
  let updated := field.value.map fun v => (dest.update name field.fid v).1
  match field.type with
  | .scalar _ | .opaqueData | .price | .time => updated
  | .vector _ => if field.atoms.isEmpty then some dest else updated
  | .msg => none
  | .vectorMsg =>
    ((payloadToMamaMsg src).getVectorMsg depth name field.fid).bind fun (_, messages) =>
      dest.updateVectorMsg (copyField depth true false) name field.fid (messages.toOption.getD [])
  | .vectorPrice | .vectorTime | .unknown => some dest

/-- The loop of `apply`, for so many passes at most. A field without a name goes by the name before it. `encoded` is
where the encoding leaves the cursor of the source. -/
def applyFields : Nat → Option String → Payload → Payload → Option (Payload × Payload)
  | 0, _, _, _ => none
  | bound + 1, name, dest, src =>
    (src.iterNext depth).bind fun
      | (src, none) => some (dest, src)
      | (src, some field) =>
        let name := if field.name = "" then name else some field.name
        (applyField depth dest src name field).bind fun dest =>
          applyFields bound name dest
            (if field.type = .vectorMsg then { src with body := encoded src.body } else src)

def apply (bound : Nat) (dest src : Payload) : Option (Payload × Payload) :=
  (applyFields encoded depth bound none dest src.iterCreate).map fun (dest, src) => (dest, src.iterDestroy)

end Apply

/-- Two fields that read the same but for their names. -/
structure SameValue (f g : FieldNode) : Prop where
  type : g.view.type = f.view.type
  value : g.view.value = f.view.value
  messages : g.messages = f.messages

/-- The fields of the source are there, the others are as they were, and no id occurs twice. -/
structure Merged (destFields srcFields fields : List FieldNode) : Prop where
  brings : ∀ f ∈ srcFields, ∃ g ∈ fields, g.fid = f.fid ∧ SameValue f g
  keeps : fields.filter (fun g => g.fid ∉ srcFields.map fid)
    = destFields.filter fun g => g.fid ∉ srcFields.map fid
  distinct : (fields.map fid).Nodup

/-- The call is defined and ends, with the fields merged and the source as it was. -/
def Applied (destFields srcFields : List FieldNode) (result : Option (Payload × Payload)) : Prop :=
  ∃ dest src fields, result = some (dest, src) ∧ Holds dest.body fields ∧ Merged destFields srcFields fields
    ∧ Holds src.body srcFields

/-- The field holds a value other than a vector of prices or times. -/
structure FieldNode.Carries (f : FieldNode) (v : Value) : Prop where
  type : f.view.type = v.type
  value : f.view.value = some v
  noPrices : v.type ≠ .vectorPrice
  noTimes : v.type ≠ .vectorTime

/-- The field holds a message, messages, or a value. -/
def FieldNode.IsSource (f : FieldNode) : Prop := f.view.type = .msg ∨ f.view.type = .vectorMsg ∨ ∃ v, f.Carries v

/-- A field of the source that arrives: it holds no messages, an empty vector is in the destination before, and a double
or another vector meets no field with more than one node. -/
def FieldNode.Arrives (destFields : List FieldNode) (f : FieldNode) : Prop :=
  match f.view.type with
  | .msg | .vectorMsg => False
  | .vector type =>
    if f.view.value = some (.vector type []) then ∃ g ∈ destFields, g.fid = f.fid ∧ SameValue f g
    else ∀ g ∈ destFields, g.fid = f.fid → g.rest = []
  | .scalar .f64 => ∀ g ∈ destFields, g.fid = f.fid → g.rest = []
  | _ => True

/-! ### One field -/

variable {v : Value} {f : FieldNode} {fields destFields srcFields : List FieldNode} {depth : Nat}

def Value.isEmptyVector : Value → Bool
  | vector _ values => values.isEmpty
  | scalar _ _ | opaqueData _ | price _ | time _ | vectorPrice _ | vectorTime _ => false

/-- The field of an id in the destination, after a value of the source was applied. -/
def FieldNode.appliedTo (name : Option String) (fid : UInt16) (v : Value) (g? : Option FieldNode) : Option FieldNode :=
  if v.isEmptyVector then g? else some (updated name fid v g?)

def applyTo (name : Option String) (fid : UInt16) (v : Value) (fields : List FieldNode) : List FieldNode :=
  if v.isEmptyVector then fields else alter FieldNode.fid fid (updated name fid v) fields

section

variable (hf : f.Carries v)
include hf

theorem FieldNode.Carries.isRejected (hne : v.isEmptyVector = false) : v.isRejected = false := by
  cases v with
  | vector type values => cases type <;> cases values <;> first | rfl | cases hne
  | vectorPrice _ => exact absurd rfl hf.noPrices
  | vectorTime _ => exact absurd rfl hf.noTimes
  | scalar _ _ | opaqueData _ | price _ | time _ => rfl

theorem FieldNode.Carries.readBack : v.readBack = v := by
  rw [Value.readBack_eq_iff]
  cases v with
  | time t =>
    have hvalue := hf.value
    rw [FieldView.value, hf.type] at hvalue
    obtain ⟨times, -, hhead⟩ := Option.bind_eq_some_iff.mp hvalue
    obtain ⟨s, -, hs⟩ := Option.map_eq_some_iff.mp hhead
    exact Value.time.inj hs ▸ packable_setWithHints s
  | vectorTime _ => exact absurd rfl hf.noTimes
  | scalar _ _ | opaqueData _ | price _ | vector _ _ | vectorPrice _ => trivial

theorem FieldNode.Carries.type_ne : f.view.type ≠ .msg ∧ f.view.type ≠ .vectorMsg := hf.type ▸ v.type_ne

theorem FieldNode.Carries.applyField (dest src : Payload) (name : Option String) :
    applyField depth dest src name f.asRead
      = some (if v.isEmptyVector then dest else (dest.update name f.fid v).1) := by
  have htype : f.asRead.type = v.type := hf.type
  have hvalue : f.asRead.value = some v := hf.value
  rw [Qpid.applyField, hvalue, htype]
  cases v with
  | vectorPrice _ => exact absurd rfl hf.noPrices
  | vectorTime _ => exact absurd rfl hf.noTimes
  | scalar _ _ | opaqueData _ | price _ | time _ => rfl
  | vector type values =>
    have hatoms : values = f.asRead.atoms.map Atom.data := by
      rw [FieldView.value, htype] at hvalue
      exact (Value.vector.inj (Option.some.inj hvalue)).2.symm
    rw [hatoms]
    cases f.asRead.atoms <;> rfl

end

theorem key_updated (name : Option String) (fid : UInt16) (v : Value) (fields : List FieldNode) :
    (updated name fid v (lookup FieldNode.fid fid fields)).fid = fid :=
  key_change (f := updated name fid v) (fun _ => rfl) rfl fields

theorem lookup_applyTo (name : Option String) (fid : UInt16) (v : Value) (fields : List FieldNode) (k : UInt16) :
    lookup FieldNode.fid k (applyTo name fid v fields)
      = if fid = k then appliedTo name fid v (lookup FieldNode.fid k fields) else lookup FieldNode.fid k fields := by
  rw [applyTo, appliedTo]
  split
  · split <;> rfl
  · rw [lookup_alter (key_updated name fid v fields)]
    split
    next hk => rw [hk]
    · rfl

/-- What a field shows that a value of the source was written to. -/
theorem sameValue_updated_iff (hf : f.Carries v) (hne : v.isEmptyVector = false) (name : Option String) (fid : UInt16)
    {g? : Option FieldNode} (hbytes : ∀ g ∈ g?, ∀ n ∈ g.rest, IsByte n) :
    SameValue f (updated name fid v g?) ↔ (v.isAlone → ∀ g ∈ g?, g.rest = []) := by
  have haccepted := hf.isRejected hne
  have hsame {g : FieldNode} (hview : (valueView g.value g.rest) = (v.type, v.atoms)) : SameValue f g := by
    have htype : g.view.type = v.type := congrArg Prod.fst hview
    have hatoms : g.view.atoms = v.atoms := congrArg Prod.snd hview
    refine ⟨htype.trans hf.type.symm, ?_, ?_⟩
    · rw [hf.value, FieldView.value, htype, hatoms, v.ofAtoms_atoms, hf.readBack]
    · rw [messages_of_value (htype ▸ v.type_ne.1) (htype ▸ v.type_ne.2),
        messages_of_value hf.type_ne.1 hf.type_ne.2]
  have hone (halone : v.isAlone) : (v.nodes false).length = 1 := by
    cases v <;> first | rfl | cases halone
  cases g? with
  | none =>
    have hchildren := children_new name fid v
    have hnodes := hchildren.trans (append_nil _).symm
    refine iff_of_true (hsame (valueView_nodes hnodes (fun halone => ?_) haccepted)) (by simp)
    have hlength := congrArg List.length hchildren
    rw [hone halone] at hlength
    exact eq_nil_of_length_eq_zero (Nat.succ.inj hlength)
  | some g =>
    constructor
    · rintro ⟨hview, -, -⟩ halone _ hg
      obtain rfl := Option.some.inj hg
      by_contra hrest
      exact type_write_ne (hbytes g rfl) (fun h => hrest (h.2 halone)) (hview.trans hf.type)
    · intro hfits
      have hchildren := g.write_children true v
      rw [Value.nodes_update hf.noTimes] at hchildren
      refine hsame (valueView_nodes hchildren (fun halone => ?_) haccepted)
      have hlength := congrArg List.length hchildren
      rw [hfits halone g rfl, length_append, hone halone] at hlength
      exact eq_nil_of_length_eq_zero (Nat.succ.inj hlength)

/-! ### The fields of the destination -/

/-- The fields of the destination after those of the source were applied. -/
def merge : Option String → List FieldNode → List FieldNode → List FieldNode
  | _, [], fields => fields
  | name, f :: src, fields =>
    let name := if f.name = "" then name else some f.name
    merge name src (f.view.value.elim fields fun v => applyTo name f.fid v fields)

theorem lookup_merge_of_not_mem (name : Option String) {k : UInt16} (hk : k ∉ srcFields.map fid)
    (hvalues : ∀ f ∈ srcFields, ∃ v, f.Carries v) (fields : List FieldNode) :
    lookup fid k (merge name srcFields fields) = lookup fid k fields := by
  induction srcFields generalizing name fields with
  | nil => rfl
  | cons f srcFields ih =>
    obtain ⟨⟨v, hv⟩, hrest⟩ := forall_mem_cons.mp hvalues
    obtain ⟨hne, hk⟩ := not_or.mp (mt mem_cons.mpr hk)
    rw [merge, ih _ hk hrest, hv.value, Option.elim_some, lookup_applyTo, if_neg (Ne.symm hne)]

theorem lookup_merge (name : Option String) (hids : (srcFields.map fid).Nodup)
    (hvalues : ∀ f ∈ srcFields, ∃ v, f.Carries v) (hmem : f ∈ srcFields) (hf : f.Carries v) (fields : List FieldNode) :
    ∃ name', lookup fid f.fid (merge name srcFields fields) = appliedTo name' f.fid v (lookup fid f.fid fields) := by
  induction srcFields generalizing name fields with
  | nil => cases hmem
  | cons f' srcFields ih =>
    obtain ⟨hnot, hids⟩ := nodup_cons.mp hids
    obtain ⟨⟨v', hv'⟩, hrest⟩ := forall_mem_cons.mp hvalues
    rw [merge, hv'.value, Option.elim_some]
    rcases mem_cons.mp hmem with rfl | hmem
    · obtain rfl := Option.some.inj (hv'.value.symm.trans hf.value)
      rw [lookup_merge_of_not_mem _ hnot hrest, lookup_applyTo, if_pos rfl]
      exact ⟨_, rfl⟩
    · obtain ⟨name', hlookup⟩ := ih _ hids hrest hmem _
      have hne : f'.fid ≠ f.fid := fun h => hnot (h ▸ mem_map_of_mem hmem)
      rw [hlookup, lookup_applyTo, if_neg hne]
      exact ⟨name', rfl⟩

theorem filter_merge (name : Option String) (hvalues : ∀ f ∈ srcFields, ∃ v, f.Carries v) (fields : List FieldNode) :
    (merge name srcFields fields).filter (fun g => g.fid ∉ srcFields.map fid)
      = fields.filter fun g => g.fid ∉ srcFields.map fid := by
  induction srcFields generalizing name fields with
  | nil => rfl
  | cons f srcFields ih =>
    obtain ⟨⟨v, hv⟩, hrest⟩ := forall_mem_cons.mp hvalues
    have hsplit (l : List FieldNode) : l.filter (fun g => g.fid ∉ (f :: srcFields).map fid)
        = (l.filter fun g => g.fid ∉ srcFields.map fid).filter fun g => g.fid ≠ f.fid := by
      rw [filter_filter]
      refine filter_congr fun g _ => ?_
      simp [not_or]
    rw [merge, hv.value, Option.elim_some, hsplit, hsplit, ih _ hrest, applyTo]
    split
    · rfl
    · rw [filter_comm, filter_alter (key_updated _ f.fid v fields), filter_comm]

theorem nodup_merge (name : Option String) (hvalues : ∀ f ∈ srcFields, ∃ v, f.Carries v)
    (hfields : (fields.map fid).Nodup) : ((merge name srcFields fields).map fid).Nodup := by
  induction srcFields generalizing name fields with
  | nil => exact hfields
  | cons f srcFields ih =>
    obtain ⟨⟨v, hv⟩, hrest⟩ := forall_mem_cons.mp hvalues
    rw [merge, hv.value, Option.elim_some, applyTo]
    refine ih _ hrest ?_
    split
    · exact hfields
    · exact nodup_alter (key_updated _ f.fid v fields) hfields

theorem exists_mem_iff (hids : (fields.map fid).Nodup) (k : UInt16) (P : FieldNode → Prop) :
    (∃ g ∈ fields, g.fid = k ∧ P g) ↔ ∃ g ∈ lookup fid k fields, P g := by
  constructor
  · rintro ⟨g, hg, rfl, hP⟩
    exact ⟨g, lookup_of_mem hids hg, hP⟩
  · rintro ⟨g, hg, hP⟩
    exact ⟨g, mem_of_lookup hg, key_of_lookup hg, hP⟩

theorem forall_mem_iff (hids : (fields.map fid).Nodup) (k : UInt16) (P : FieldNode → Prop) :
    (∀ g ∈ fields, g.fid = k → P g) ↔ ∀ g ∈ lookup fid k fields, P g := by
  constructor
  · intro h g hg
    exact h g (mem_of_lookup hg) (key_of_lookup hg)
  · rintro h g hg rfl
    exact h g (lookup_of_mem hids hg)

/-- A value of the source is shown by the destination exactly if it arrives. -/
theorem appliedTo_iff (hf : f.Carries v) (hids : (destFields.map fid).Nodup)
    (hbytes : ∀ g ∈ destFields, ∀ n ∈ g.rest, IsByte n) (name : Option String) :
    (∃ g ∈ appliedTo name f.fid v (lookup fid f.fid destFields), SameValue f g) ↔ f.Arrives destFields := by
  have hwritten (hne : v.isEmptyVector = false) :
      (∃ g ∈ appliedTo name f.fid v (lookup fid f.fid destFields), SameValue f g)
        ↔ (v.isAlone → ∀ g ∈ destFields, g.fid = f.fid → g.rest = []) := by
    rw [forall_mem_iff hids, appliedTo, hne, if_neg Bool.false_ne_true]
    simp only [Option.mem_def, Option.some.injEq, exists_eq_left']
    exact sameValue_updated_iff hf hne name f.fid fun g hg => hbytes g (mem_of_lookup hg)
  rw [Arrives, hf.type, hf.value]
  cases v with
  | vectorPrice _ => exact absurd rfl hf.noPrices
  | vectorTime _ => exact absurd rfl hf.noTimes
  | opaqueData _ | price _ | time _ => exact (hwritten rfl).trans (iff_of_true (fun h => by cases h) trivial)
  | scalar type _ =>
    refine (hwritten rfl).trans ?_
    cases type with
    | f64 => exact ⟨fun h => h rfl, fun h _ => h⟩
    | _ => exact iff_of_true (fun h => by cases h) trivial
  | vector type values =>
    cases values with
    | nil =>
      rw [exists_mem_iff hids]
      exact (iff_of_eq (if_pos rfl)).symm
    | cons _ _ =>
      refine (hwritten rfl).trans (Iff.trans ⟨fun h => h rfl, fun h _ => h⟩ (iff_of_eq (if_neg ?_)).symm)
      exact fun h => by cases Option.some.inj h

theorem merged_iff (hvalues : ∀ f ∈ srcFields, ∃ v, f.Carries v) (hsrcIds : (srcFields.map fid).Nodup)
    (hdestIds : (destFields.map fid).Nodup) (hbytes : ∀ g ∈ destFields, ∀ n ∈ g.rest, IsByte n) (name : Option String) :
    Merged destFields srcFields (merge name srcFields destFields) ↔ ∀ f ∈ srcFields, f.Arrives destFields := by
  have hdistinct := nodup_merge name hvalues hdestIds
  have hbrings (f : FieldNode) (hf : f ∈ srcFields) :
      (∃ g ∈ merge name srcFields destFields, g.fid = f.fid ∧ SameValue f g) ↔ f.Arrives destFields := by
    obtain ⟨v, hv⟩ := hvalues f hf
    obtain ⟨name', hlookup⟩ := lookup_merge name hsrcIds hvalues hf hv destFields
    rw [exists_mem_iff hdistinct, hlookup]
    exact appliedTo_iff hv hdestIds hbytes name'
  constructor
  · intro hmerged f hf
    exact (hbrings f hf).mp (hmerged.brings f hf)
  · intro harrives
    exact ⟨fun f hf => (hbrings f hf).mpr (harrives f hf), filter_merge name hvalues destFields, hdistinct⟩

/-! ### The loop -/

variable {passed ahead : List FieldNode} {dest src : Payload} {bound : Nat}

theorem Settled.applyTo (h : Settled dest destFields) (hfid : f.fid ≠ 0) (hf : f.Carries v) (name : Option String) :
    Settled (if v.isEmptyVector then dest else (dest.update name f.fid v).1) (applyTo name f.fid v destFields) := by
  rw [Qpid.applyTo]
  split
  · exact h
  next hne => exact h.update hfid (hf.isRejected (Bool.eq_false_iff.mpr hne)) name

/-- A pass of the loop over a field that holds a value. -/
theorem applyFields_cons (encoded : Body → Body) (hf : f.Carries v) (hbuilt : f.Built depth)
    (hbody : src.body = content passed (f :: ahead)) (name : Option String) :
    ∃ src', src'.body = content (f :: passed) ahead ∧
      applyFields encoded depth (bound + 1) name dest src
        = applyFields encoded depth bound (if f.name = "" then name else some f.name)
          (if v.isEmptyVector then dest
            else (dest.update (if f.name = "" then name else some f.name) f.fid v).1) src' := by
  obtain ⟨hmsg, hvector⟩ := hf.type_ne
  have hread : ∀ n ∈ f.messages, IsReadable n := by simp [messages_of_value hmsg hvector]
  refine ⟨{ src with
    body := content (f :: passed) ahead
    dataIteratorOffset := src.dataIteratorOffset + 1 }, rfl, ?_⟩
  rw [applyFields, Walk.iterNext_content src hbuilt hbody, definedIf_of hread, Option.bind_some]
  dsimp only
  rw [hf.applyField, Option.bind_some, if_neg (show f.asRead.type ≠ .vectorMsg from hvector)]
  rfl

theorem applyFields_of_values (encoded : Body → Body) (hvalues : ∀ f ∈ ahead, ∃ v, f.Carries v)
    (hids : ∀ f ∈ ahead, f.fid ≠ 0) (hbuilt : ∀ f ∈ ahead, f.Built depth) (hdest : Settled dest destFields)
    (hbody : src.body = content passed ahead) (hbound : ahead.length < bound) (name : Option String) :
    ∃ dest' src', applyFields encoded depth bound name dest src = some (dest', src')
      ∧ Settled dest' (merge name ahead destFields) ∧ Holds src'.body (passed.reverse ++ ahead) := by
  induction ahead generalizing passed destFields dest src bound name with
  | nil =>
    obtain ⟨bound, rfl⟩ := Nat.exists_eq_succ_of_ne_zero (Nat.ne_of_gt hbound)
    refine ⟨dest, src, ?_, hdest, hbody ▸ holds_content passed []⟩
    rw [applyFields, Walk.iterNext_of_end hbody]
    rfl
  | cons f ahead ih =>
    obtain ⟨bound, rfl⟩ := Nat.exists_eq_succ_of_ne_zero (Nat.ne_of_gt (Nat.zero_lt_of_lt hbound))
    obtain ⟨⟨v, hv⟩, hvalues⟩ := forall_mem_cons.mp hvalues
    obtain ⟨hfid, hids⟩ := forall_mem_cons.mp hids
    obtain ⟨hf, hbuilt⟩ := forall_mem_cons.mp hbuilt
    obtain ⟨src', hbody', hpass⟩ := applyFields_cons encoded hv hf hbody name
    obtain ⟨dest', src'', hrun, hsettled, hkept⟩ := ih hvalues hids hbuilt (hdest.applyTo hfid hv _) hbody'
      (Nat.lt_of_succ_lt_succ hbound) _
    refine ⟨dest', src'', hpass.trans hrun, ?_, by simpa using hkept⟩
    rw [merge, hv.value]
    exact hsettled

/-- From before the root of the message, the root is read as a field that holds a message. -/
theorem iterNext_rewound {p : Payload} {field? : Option Field} (hne : fields ≠ [])
    (hbody : src.body = { ahead := [.node { type := .list } (fields.map node)] })
    (hnext : src.iterNext depth = some (p, field?)) : ∃ field, field? = some field ∧ field.type = .msg := by
  have htype : (readField { passed := [.node { type := .list } (fields.map node)] }).2.type = .msg := by
    obtain ⟨f, fields, rfl⟩ := exists_cons_of_ne_nil hne
    -- the name, the id and the value are the first nodes of the list, or the last one again
    rcases fields with - | ⟨g, - | ⟨h, fields⟩⟩ <;> rfl
  rw [Payload.iterNext, hbody, if_pos (show TreeCursor.hasNext _ = true from rfl)] at hnext
  obtain ⟨⟨b, field⟩, hfield, hresult⟩ := Option.map_eq_some_iff.mp hnext
  obtain ⟨messages, -, hread⟩ := Option.map_eq_some_iff.mp hfield
  refine ⟨field, (Prod.ext_iff.mp hresult).2.symm, ?_⟩
  obtain ⟨-, rfl⟩ := Prod.mk.inj hread
  exact htype

theorem applyFields_rewound (encoded : Body → Body) {b : Body} (hholds : Holds b fields) (hne : fields ≠ [])
    (hrewound : src.body = b.rewind) (name : Option String) :
    applyFields encoded depth bound name dest src = none := by
  cases bound with
  | zero => rfl
  | succ bound =>
    have hbody : src.body = { ahead := [.node { type := .list } (fields.map node)] } := by
      rw [hrewound, TreeCursor.rewind, hholds]
    rw [applyFields]
    refine Option.bind_eq_none_iff.mpr fun r hr => ?_
    obtain ⟨field, hfield, htype⟩ := iterNext_rewound hne hbody hr
    obtain ⟨p, _⟩ := r
    obtain rfl := hfield
    dsimp only
    rw [applyField, htype]
    rfl

/-- A field that holds messages ends in undefined behaviour, if the encoding rewinds the source. -/
theorem applyFields_of_messages (hsource : ∀ f ∈ ahead, f.IsSource) (hbuilt : ∀ f ∈ ahead, f.Built depth)
    (hbody : src.body = content passed ahead) (hmem : f ∈ ahead)
    (htype : f.view.type = .msg ∨ f.view.type = .vectorMsg) (name : Option String) :
    applyFields TreeCursor.rewind depth bound name dest src = none := by
  induction ahead generalizing passed dest src bound name with
  | nil => cases hmem
  | cons f' ahead ih =>
    obtain ⟨hf', hsource⟩ := forall_mem_cons.mp hsource
    obtain ⟨hbuilt', hbuilt⟩ := forall_mem_cons.mp hbuilt
    cases bound with
    | zero => rfl
    | succ bound =>
      have hmessage (htype : f'.view.type = .msg ∨ f'.view.type = .vectorMsg) :
          applyFields TreeCursor.rewind depth (bound + 1) name dest src = none := by
        rw [applyFields, Walk.iterNext_content src hbuilt' hbody]
        by_cases hread : ∀ n ∈ f'.messages, IsReadable n
        · rw [definedIf_of hread, Option.bind_some]
          dsimp only
          rcases htype with hmsg | hvector
          · rw [applyField, show f'.asRead.type = .msg from hmsg]
            rfl
          · rw [if_pos (show f'.asRead.type = .vectorMsg from hvector)]
            have hne : (f' :: passed).reverse ++ ahead ≠ [] := by simp
            exact Option.bind_eq_none_iff.mpr fun dest' _ =>
              applyFields_rewound _ (holds_content (f' :: passed) ahead) hne rfl _
        · rw [definedIf_of_not hread]
          rfl
      rcases hf' with hmsg | hvector | ⟨v, hv⟩
      · exact hmessage (.inl hmsg)
      · exact hmessage (.inr hvector)
      · obtain ⟨src', hbody', hpass⟩ := applyFields_cons TreeCursor.rewind hv hbuilt' hbody name
        rw [hpass]
        refine ih hsource hbuilt hbody' ?_ _
        rcases mem_cons.mp hmem with rfl | hmem
        · exact absurd htype (not_or.mpr hv.type_ne)
        · exact hmem

theorem Holds.unique {b : Body} {fields' : List FieldNode} (h : Holds b fields) (h' : Holds b fields') :
    fields = fields' := by
  have hnodes := (Node.node.inj (List.cons.inj (h.symm.trans h')).1).2
  exact map_injective_iff.mpr node_injective hnodes

/-- `apply` is defined and leaves the fields of the source in the destination with their types and values, the other
fields of the destination and the source as they were and no id twice, wherever the encoding moves the cursor of the
source, exactly if each field of the source arrives. The destination may be in the middle of an iteration. -/
theorem applied_iff_arrives (depth bound : Nat) (dest src : Payload) (destFields srcFields : List FieldNode)
    (hdest : Settled dest destFields) (hsrc : Holds src.body srcFields) (hdestIds : (destFields.map fid).Nodup)
    (hsrcIds : (srcFields.map fid).Nodup) (hnonzero : ∀ f ∈ srcFields, f.fid ≠ 0)
    (hdestBuilt : ∀ g ∈ destFields, g.Built depth) (hsrcBuilt : ∀ f ∈ srcFields, f.Built depth)
    (hsource : ∀ f ∈ srcFields, f.IsSource) (hbound : srcFields.length < bound) :
    (∀ encoded, (∀ b, (encoded b).roots = b.roots) → Applied destFields srcFields (apply encoded depth bound dest src))
      ↔ ∀ f ∈ srcFields, f.Arrives destFields := by
  have hbody : src.iterCreate.body = content [] srcFields := moveDataToContentLocation_eq hsrc
  have hbytes (g : FieldNode) (hg : g ∈ destFields) : ∀ n ∈ g.rest, IsByte n := (hdestBuilt g hg).rest
  by_cases hmessages : ∃ f ∈ srcFields, f.view.type = .msg ∨ f.view.type = .vectorMsg
  · obtain ⟨f, hf, htype⟩ := hmessages
    refine iff_of_false (fun happlied => ?_) fun harrives => ?_
    · obtain ⟨_, _, _, hresult, -⟩ := happlied TreeCursor.rewind TreeCursor.roots_rewind
      rw [apply, applyFields_of_messages hsource hsrcBuilt hbody hf htype] at hresult
      cases hresult
    · have hf := harrives f hf
      rcases htype with htype | htype <;> rw [Arrives, htype] at hf <;> exact hf
  · have hvalues (f : FieldNode) (hf : f ∈ srcFields) : ∃ v, f.Carries v := by
      rcases hsource f hf with hmsg | hvector | hv
      · exact absurd ⟨f, hf, .inl hmsg⟩ hmessages
      · exact absurd ⟨f, hf, .inr hvector⟩ hmessages
      · exact hv
    have hrun (encoded : Body → Body) :=
      applyFields_of_values encoded hvalues hnonzero hsrcBuilt hdest hbody hbound none
    rw [← merged_iff hvalues hsrcIds hdestIds hbytes none]
    constructor
    · intro happlied
      obtain ⟨dest', src', hresult, hsettled, -⟩ := hrun id
      obtain ⟨_, _, fields, happly, hholds, hmerged, -⟩ := happlied id fun _ => rfl
      rw [apply, hresult] at happly
      obtain ⟨rfl, -⟩ := Prod.mk.inj (Option.some.inj happly)
      exact hholds.unique hsettled.holds ▸ hmerged
    · intro hmerged encoded _
      obtain ⟨dest', src', hresult, hsettled, hkept⟩ := hrun encoded
      refine ⟨dest', src'.iterDestroy, _, ?_, hsettled.holds, hmerged, hkept⟩
      rw [apply, hresult, Option.map_some]

theorem not_applied_doubleOverPrice : ¬ Applied [new none 1 (.price { value := 5, hints := 0 })]
    [new none 1 (.scalar .f64 (.number 7))]
    (apply id 1 2 (create.add none 1 (.price { value := 5, hints := 0 })).1
      (create.add none 1 (.scalar .f64 (.number 7))).1) := by
  rintro ⟨dest, _, fields, hresult, hholds, hmerged, -⟩
  -- the byte of the price stays behind the double
  let g := (new none 1 (.price { value := 5, hints := 0 })).write true (.scalar .f64 (.number 7))
  have hroots : (apply id 1 2 (create.add none 1 (.price { value := 5, hints := 0 })).1
      (create.add none 1 (.scalar .f64 (.number 7))).1).map (fun r => r.1.body.roots)
        = some [.node { type := .list } ([g].map node)] := rfl
  rw [hresult] at hroots
  obtain rfl := hholds.unique (Option.some.inj hroots)
  obtain ⟨g, hg, -, hsame⟩ := hmerged.brings _ mem_cons_self
  obtain rfl := mem_singleton.mp hg
  cases hsame.type

theorem applied_typesChanged : Applied
    [new (some "a") 1 (.price { value := 5, hints := 0 }), new none 2 (.scalar .i32 (.number 7))]
    [new none 1 (.scalar .string (.text "x")), new (some "b") 2 (.vector .i32 [.number 1]), new none 3 (.time {})]
    (apply TreeCursor.rewind 0 4
      { body := content [new (some "a") 1 (.price { value := 5, hints := 0 })]
          [new none 2 (.scalar .i32 (.number 7))], dataIteratorOffset := 1 }
      { body := content [] [new none 1 (.scalar .string (.text "x")), new (some "b") 2 (.vector .i32 [.number 1]),
          new none 3 (.time {})] }) := by
  refine (applied_iff_arrives 0 4 _ _ _ _ ⟨holds_content _ _, rfl⟩ (holds_content [] _) (by decide) (by decide)
    (by decide) ?_ ?_ ?_ (by decide)).mpr ?_ TreeCursor.rewind TreeCursor.roots_rewind
  · simp only [forall_mem_cons]
    exact ⟨built_new _ _ rfl, built_new _ _ rfl, by simp⟩
  · simp only [forall_mem_cons]
    exact ⟨built_new _ _ rfl, built_new _ _ rfl, built_new _ _ rfl, by simp⟩
  · simp only [forall_mem_cons]
    exact ⟨.inr (.inr ⟨_, rfl, rfl, by decide, by decide⟩), .inr (.inr ⟨_, rfl, rfl, by decide, by decide⟩),
      .inr (.inr ⟨_, rfl, rfl, by decide, by decide⟩), by simp⟩
  · have hvector : (new (some "b") 2 (.vector .i32 [.number 1])).Arrives
        [new (some "a") 1 (.price { value := 5, hints := 0 }), new none 2 (.scalar .i32 (.number 7))] := by
      rw [Arrives, show (new (some "b") 2 (.vector .i32 [.number 1])).view.type = .vector .i32 from rfl]
      dsimp only
      rw [if_neg (by decide)]
      simp only [forall_mem_cons]
      exact ⟨fun h => absurd h (by decide), fun _ => rfl, by simp⟩
    simp only [forall_mem_cons]
    exact ⟨trivial, hvector, trivial, by simp⟩

end OpenMama.Qpid
