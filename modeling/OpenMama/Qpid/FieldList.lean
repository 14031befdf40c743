import OpenMama.Lib.Keyed
import OpenMama.Qpid.Iteration

/-!
# A payload as a list of fields

What a message stands for is a list of fields. `add` appends a field, and `update` replaces the value of the first
field of an id, or appends one. An update writes its atoms over the old ones and leaves those that it does not need,
and the type of a field is read off the atoms. `behaves_iff_fits` says which updates this spoils.
-/

namespace OpenMama.Qpid

open List FieldNode Keyed Value Node Payload

variable {v : Value} {f : FieldNode}

/-! ### The list -/

/-- What a reader of a field sees. -/
structure Contents where
  name : String
  fid : UInt16
  type : FieldType
  value : Option Value
deriving DecidableEq

def FieldView.contents (f : FieldView) : Contents :=
  { name := f.name, fid := f.fid, type := f.type, value := f.value }

/-- A field of the list, and how many nodes it has had. -/
structure Entry where
  name : String
  fid : UInt16
  value : Value
  width : Nat := value.width

namespace Entry

def contents (e : Entry) : Contents :=
  { name := e.name, fid := e.fid, type := e.value.type, value := some e.value }

def write (v : Value) (e : Entry) : Entry := { e with value := v, width := max e.width v.width }

def updated (name : Option String) (fid : UInt16) (v : Value) : Option Entry → Entry
  | some e => e.write v
  | none => { name := name.getD "", fid := fid, value := v }

end Entry

inductive Change where
  | add (name : Option String) (fid : UInt16) (v : Value)
  | update (name : Option String) (fid : UInt16) (v : Value)

namespace Change

def fid : Change → UInt16
  | add _ fid _ | update _ fid _ => fid

def value : Change → Value
  | add _ _ v | update _ _ v => v

def call (p : Payload) : Change → Payload × Status
  | add name fid v => p.add name fid v
  | update name fid v => p.update name fid v

def apply (entries : List Entry) : Change → List Entry
  | add name fid v => entries ++ [{ name := name.getD "", fid := fid, value := v }]
  | update name fid v => alter Entry.fid fid (Entry.updated name fid v) entries

end Change

structure Message where
  payload : Payload := create
  entries : List Entry := []

/-- What so many calls of the iterator return. -/
def results (depth : Nat) : Nat → Payload → Option (List (Option Field))
  | 0, _ => some []
  | k + 1, p => (p.iterNext depth).bind fun (p, field) => (results depth k p).map (field :: ·)

namespace Message

def step (m : Message) (c : Change) : Message :=
  { payload := (c.call m.payload).1, entries := c.apply m.entries }

/-- The number of fields, what a new iterator returns, and what is got by id are those of the list. -/
structure Behaves (m : Message) : Prop where
  count : m.payload.getNumFields.2 = m.entries.length
  iterates : ∀ depth k, (results depth k m.payload.iterCreate).map (map (Option.map (·.contents)))
    = some ((range k).map fun i => m.entries[i]?.map Entry.contents)
  gets : ∀ name fid, fid ≠ 0 → ∀ e, lookup Entry.fid fid m.entries = some e →
    (m.payload.get e.value.getter name fid).2.map (ofAtoms e.value.type) = .ok (some e.value)
  misses : ∀ name fid, fid ≠ 0 → lookup Entry.fid fid m.entries = none →
    ∀ getter, (m.payload.get getter name fid).2 = .error .notFound

end Message

/-- The value is accepted, and over a field that exists it is no vector of date-times, and a double or a vector only if
the field has one node. -/
def Message.Lands (m : Message) : Change → Prop
  | .add _ _ v => v.isRejected = false
  | .update _ fid v => v.isRejected = false ∧ ∀ e ∈ lookup Entry.fid fid m.entries,
      v.type ≠ .vectorTime ∧ (v.isAlone → e.width = 1)

/-- The call lands, and its date-times come back. -/
def Message.Fits (m : Message) (c : Change) : Prop := m.Lands c ∧ c.value.Packable

instance (m : Message) : (c : Change) → Decidable (m.Lands c)
  | .add _ _ v => inferInstanceAs (Decidable (v.isRejected = false))
  | .update _ fid v => inferInstanceAs (Decidable (v.isRejected = false ∧
      ∀ e ∈ lookup Entry.fid fid m.entries, v.type ≠ .vectorTime ∧ (v.isAlone → e.width = 1)))

variable {e : Entry}

/-- The nodes of a field begin with those of the value, and those behind it are left from earlier values. -/
structure Entry.Lies (e : Entry) (f : FieldNode) : Prop where
  name : f.name = e.name
  fid : f.fid = e.fid
  nodes : ∃ extra, f.value :: f.rest = e.value.nodes false ++ extra
  rest : ∀ n ∈ f.rest, IsByte n
  width : f.rest.length + 1 = e.width
  alone : e.value.isAlone → e.width = 1
  accepted : e.value.isRejected = false

theorem Entry.Lies.contents_view (h : e.Lies f) :
    f.view.contents = { e.contents with value := some e.value.readBack } := by
  obtain ⟨_, hnodes⟩ := h.nodes
  have halone (hv : e.value.isAlone) : f.rest = [] := by
    have hwidth := h.width
    rw [h.alone hv] at hwidth
    exact eq_nil_of_length_eq_zero (Nat.succ.inj hwidth)
  have hview := valueView_nodes hnodes halone h.accepted
  simp only [view, FieldView.contents, FieldView.value, hview, ofAtoms_atoms, h.name, h.fid, Entry.contents]

theorem Entry.Lies.write (h : e.Lies f) (haccepted : v.isRejected = false) (htime : v.type ≠ .vectorTime)
    (halone : v.isAlone → e.width = 1) : (e.write v).Lies (f.write true v) := by
  have hchildren := f.write_children true v
  have hlength : (f.value :: f.rest).length = e.width := h.width
  have hwidth : (f.write true v).rest.length + 1 = max e.width v.width := by
    have hcount := congrArg length hchildren
    rw [length_append, length_drop, v.length_nodes, length_cons] at hcount
    omega
  refine ⟨h.name, h.fid, ⟨_, nodes_update htime ▸ hchildren⟩, rest_write true v h.rest, hwidth, fun hv => ?_, haccepted⟩
  have hone : v.width = 1 := by
    cases v <;> first | rfl | cases hv
  change max e.width v.width = 1
  rw [halone hv, hone]
  rfl

theorem Entry.lies_new (name : Option String) (fid : UInt16) (haccepted : v.isRejected = false) :
    Entry.Lies { name := name.getD "", fid := fid, value := v } (new name fid v) := by
  have hnodes := children_new name fid v
  have hlength := congrArg length hnodes
  rw [v.length_nodes] at hlength
  refine ⟨rfl, rfl, ⟨[], by rw [hnodes, append_nil]⟩, v.tail_nodes false, hlength, fun hv => ?_, haccepted⟩
  cases v <;> first | rfl | cases hv

theorem Entry.Lies.built (h : e.Lies f) : f.Built 0 := by
  obtain ⟨_, hnodes⟩ := h.nodes
  exact .value h.rest h.accepted hnodes

theorem type_write_ne (hrest : ∀ n ∈ f.rest, IsByte n)
    (hfit : ¬ (v.type ≠ .vectorTime ∧ (v.isAlone → f.rest = []))) : (f.write true v).view.type ≠ v.type := by
  by_cases htime : v.type = .vectorTime
  · obtain ⟨_, _, value, rest⟩ := f
    cases v with
    | vectorTime ts =>
      cases rest with
      | nil => exact FieldType.noConfusion
      | cons m rest =>
        exact (congrArg Prod.fst (valueView_array_cons (hrest m mem_cons_self) _ _ rest)).trans_ne FieldType.noConfusion
    | scalar _ _ | opaqueData _ | price _ | time _ | vector _ _ | vectorPrice _ => cases htime
  · obtain ⟨halone, hne⟩ := Classical.not_imp.mp fun h => hfit ⟨htime, h⟩
    have hone : (v.nodes false).length = 1 := by
      cases v <;> first | rfl | cases halone
    have hchildren := f.write_children true v
    rw [nodes_update htime] at hchildren
    -- the value is written over the first node, and what follows stays
    have hstays : (f.write true v).rest = f.rest := by
      have htail := congrArg tail hchildren
      have hnil : (v.nodes false).tail = [] := eq_nil_of_length_eq_zero (by rw [length_tail, hone])
      rwa [tail_cons, tail_append_of_ne_nil (v.nodes_ne_nil false), hnil, hone] at htail
    obtain ⟨m, rest, hcons⟩ := exists_cons_of_ne_nil hne
    rw [hstays, hcons] at hchildren
    have hview : (f.write true v).view.type = (valueView (f.write true v).value (m :: rest)).1 := by
      rw [view, hstays, hcons]
    rcases valueView_crowded (hrest m (hcons ▸ mem_cons_self)) halone hchildren with ⟨htype, hprice⟩ | hunknown
    · exact (hview.trans hprice).trans_ne (htype ▸ FieldType.noConfusion)
    · refine (hview.trans hunknown).trans_ne ?_
      cases v <;> exact FieldType.noConfusion

/-! ### The accessors of a payload -/

/-- A message that is not being written, with or without an iterator. -/
structure Settled (p : Payload) (fields : List FieldNode) : Prop where
  holds : Holds p.body fields
  mode : p.insertMode = .mainList

theorem isWanted_iff {name : Option String} {fid : UInt16} (hfid : fid ≠ 0) (f : FieldNode) :
    f.isWanted name fid ↔ f.fid = fid := by
  rw [isWanted, if_pos hfid, decide_eq_true_iff]
  exact eq_comm

theorem findField_of_lookup_none {b : Body} {fields : List FieldNode} (h : Holds b fields) {fid : UInt16}
    (hfid : fid ≠ 0) (hnone : lookup FieldNode.fid fid fields = none) (name : Option String) :
    findField b name fid = (content fields.reverse [], .notFound) := by
  refine findField_of_none h (.inr hfid) fun f hf => ?_
  rw [Bool.eq_false_iff, Ne, isWanted_iff hfid]
  exact fun heq => lookup_eq_none_iff.mp hnone (heq ▸ mem_map_of_mem hf)

theorem findField_of_lookup_some {b : Body} {fields : List FieldNode} (h : Holds b fields) {fid : UInt16}
    (hfid : fid ≠ 0) (hf : lookup FieldNode.fid fid fields = some f) (name : Option String) :
    ∃ before after, fields = before ++ f :: after ∧ (∀ g ∈ before, g.fid ≠ fid)
      ∧ findField b name fid = (inside before.reverse f after [] (f.value :: f.rest), .ok) := by
  obtain ⟨before, after, rfl, hbefore⟩ := exists_split_of_lookup hf
  refine ⟨before, after, rfl, hbefore, findField_of_found h (.inr hfid) (fun g hg => ?_) ?_⟩
  · rw [Bool.eq_false_iff, Ne, isWanted_iff hfid]
    exact hbefore g hg
  · exact (isWanted_iff hfid f).mpr (key_of_lookup hf)

section Accessors

variable {p : Payload} {fields : List FieldNode} {v : Value}

theorem Holds.reset (h : Holds p.body fields) : Holds p.resetToIteratorState.body fields := by
  rw [resetToIteratorState]
  split
  · exact h
  · rw [moveDataToContentLocation_eq h, advance_content, append_nil]
    exact holds_content_take _ fields

theorem Settled.reset (h : Settled p fields) : Settled p.resetToIteratorState fields := by
  refine ⟨h.holds.reset, ?_⟩
  rw [resetToIteratorState]
  split <;> exact h.mode

theorem getNumFields_eq (h : Holds p.body fields) : p.getNumFields.2 = fields.length := by
  rw [getNumFields, moveDataToContentLocation_eq h]
  exact length_map _

theorem get_of_none (h : Holds p.body fields) {fid : UInt16} (hfid : fid ≠ 0)
    (hnone : lookup FieldNode.fid fid fields = none) (getter : Getter) (name : Option String) :
    (p.get getter name fid).2 = .error .notFound := by
  rw [Payload.get, guard_of_wanted (.inr hfid), if_neg Bool.false_ne_true, findField_of_lookup_none h hfid hnone]

theorem get_of_some (h : Holds p.body fields) {fid : UInt16} (hfid : fid ≠ 0)
    (hf : lookup FieldNode.fid fid fields = some f) {extra : List (Node Atom)}
    (hnodes : f.value :: f.rest = v.nodes false ++ extra) (name : Option String) :
    (p.get v.getter name fid).2 = .ok v.atoms := by
  obtain ⟨_, _, -, -, hfind⟩ := findField_of_lookup_some h hfid hf name
  rw [Payload.get, guard_of_wanted (.inr hfid), hfind]
  change Except.ok (v.getter.read _).2 = _
  rw [inside, hnodes, read_nodes]

theorem Settled.add (h : Settled p fields) {fid : UInt16} (hfid : fid ≠ 0) (hv : v.isRejected = false)
    (name : Option String) : Settled (p.add name fid v).1 (fields ++ [new name fid v]) := by
  have hlocation : p.moveDataToInsertLocation = content fields.reverse [] := by
    rw [moveDataToInsertLocation, h.mode]
    rw [moveDataToContentLocation_eq h.holds, toEnd_content, append_nil]
  rw [Payload.add, hv, guard_of_wanted (.inr hfid), hlocation]
  exact Settled.reset ⟨holds_add name fid v fields, h.mode⟩

def FieldNode.updated (name : Option String) (fid : UInt16) (v : Value) : Option FieldNode → FieldNode
  | some f => f.write true v
  | none => new name fid v

theorem Settled.update (h : Settled p fields) {fid : UInt16} (hfid : fid ≠ 0) (hv : v.isRejected = false)
    (name : Option String) :
    Settled (p.update name fid v).1 (alter FieldNode.fid fid (FieldNode.updated name fid v) fields) := by
  rw [Payload.update, hv, guard_of_wanted (.inr hfid)]
  cases hlookup : lookup FieldNode.fid fid fields with
  | none =>
    rw [findField_of_lookup_none h.holds hfid hlookup, alter_of_none hlookup]
    exact Settled.add (p := { p with body := content fields.reverse [] })
      ⟨holds_content_end fields, h.mode⟩ hfid hv name
  | some f =>
    obtain ⟨before, after, hfields, hbefore, hfind⟩ := findField_of_lookup_some h.holds hfid hlookup name
    rw [hfind, hfields, alter_append hbefore (key_of_lookup hlookup)]
    exact Settled.reset ⟨holds_write true v before after f, h.mode⟩

/-- A field without messages that hold fields. -/
theorem built_of_zero (depth : Nat) (h : f.Built 0) : f.Built depth ∧ ∀ n ∈ f.messages, IsReadable n := by
  have hnone {g : FieldNode} (hg : Nested 0 g) : False := by cases hg
  obtain ⟨_, helements, hnested, -⟩ := h.elements
  refine ⟨?_, (isReadable_iff helements).mp fun fields hfields g hg => (hnone (hnested fields hfields g hg)).elim⟩
  cases h with
  | value hrest hv hnodes => exact .value hrest hv hnodes
  | msg hrest hvalue hfields => exact .msg hrest hvalue fun g hg => (hnone (hfields g hg)).elim
  | vectorMsg hrest hvalue helements hcontents =>
    exact .vectorMsg hrest hvalue helements fun fields hfields g hg => (hnone (hcontents fields hfields g hg)).elim

theorem results_content (depth k : Nat) {passed ahead : List FieldNode} (hbody : p.body = content passed ahead)
    (hbuilt : ∀ f ∈ ahead, f.Built 0) :
    results depth k p = some ((range k).map fun i => ahead[i]?.map asRead) := by
  induction k generalizing p passed ahead with
  | zero => rfl
  | succ k ih =>
    rw [results, range_succ_eq_map, map_cons, map_map]
    cases ahead with
    | nil =>
      rw [Walk.iterNext_of_end hbody, Option.bind_some]
      exact congrArg (Option.map _) (ih hbody hbuilt)
    | cons f ahead =>
      obtain ⟨hf, hrest⟩ := forall_mem_cons.mp hbuilt
      obtain ⟨hf, hreadable⟩ := built_of_zero depth hf
      rw [Walk.iterNext_content p hf hbody, definedIf_of hreadable, Option.bind_some]
      exact congrArg (Option.map _) (ih rfl hrest)

theorem results_iterCreate (h : Holds p.body fields) (hbuilt : ∀ f ∈ fields, f.Built 0) (depth k : Nat) :
    results depth k p.iterCreate = some ((range k).map fun i => fields[i]?.map asRead) :=
  results_content depth k (moveDataToContentLocation_eq h) hbuilt

end Accessors

/-! ### The payload and the list -/

namespace Message

variable {m : Message}

/-- The payload holds the fields of the list. -/
def Lies (m : Message) : Prop := ∃ fields, Settled m.payload fields ∧ List.Forall₂ Entry.Lies m.entries fields

/-- The payload holds the fields of the list, whose values come back. -/
def Represents (m : Message) : Prop := m.Lies ∧ ∀ e ∈ m.entries, e.value.Packable

variable {fields : List FieldNode} {c : Change}

theorem iterates_iff {p : Payload} (h : Holds p.body fields) (hbuilt : ∀ f ∈ fields, f.Built 0) (entries : List Entry) :
    (∀ depth k, (results depth k p.iterCreate).map (map (Option.map (·.contents)))
        = some ((range k).map fun i => entries[i]?.map Entry.contents))
      ↔ fields.map (·.view.contents) = entries.map Entry.contents := by
  have hresults (depth k : Nat) : (results depth k p.iterCreate).map (map (Option.map (·.contents)))
      = some ((range k).map fun i => (fields.map (·.view.contents))[i]?) := by
    rw [results_iterCreate h hbuilt]
    simp [Function.comp_def, asRead]
  constructor
  · intro hall
    refine ext_getElem? fun i => ?_
    have hi := Option.some.inj (hresults 0 (i + 1) ▸ hall 0 (i + 1))
    have hlast := (map_inj_left.mp hi) i (by simp)
    simpa using hlast
  · intro heq depth k
    rw [hresults, heq]
    exact congrArg some (map_congr_left fun i _ => getElem?_map ..)

theorem key_of_lies (e : Entry) (f : FieldNode) (h : e.Lies f) : e.fid = f.fid := h.fid.symm

theorem built_of_lies {entries : List Entry} (h : List.Forall₂ Entry.Lies entries fields) :
    ∀ f ∈ fields, f.Built 0 := by
  induction h with
  | nil => simp
  | cons hef _ ih => exact forall_mem_cons.mpr ⟨hef.built, ih⟩

theorem map_contents_iff {entries : List Entry} (h : List.Forall₂ Entry.Lies entries fields) :
    fields.map (·.view.contents) = entries.map Entry.contents ↔ ∀ e ∈ entries, e.value.Packable := by
  induction h with
  | nil => simp
  | @cons e _ _ _ hef _ ih =>
    rw [map_cons, map_cons, cons.injEq, ih, forall_mem_cons, hef.contents_view, ← readBack_eq_iff]
    simp [Entry.contents]

theorem Represents.behaves (h : m.Represents) : m.Behaves := by
  obtain ⟨⟨_, hsettled, hlies⟩, hpackable⟩ := h
  refine ⟨?_, ?_, fun name fid hfid e he => ?_, fun name fid hfid hnone getter => ?_⟩
  · rw [getNumFields_eq hsettled.holds, hlies.length_eq]
  · exact (iterates_iff hsettled.holds (built_of_lies hlies) m.entries).mpr ((map_contents_iff hlies).mpr hpackable)
  · rcases lookup_cases key_of_lies hlies fid with ⟨hnone, -⟩ | ⟨_, f, he', hf, hef⟩
    · cases he.symm.trans hnone
    · obtain rfl := Option.some.inj (he.symm.trans he')
      obtain ⟨_, hnodes⟩ := hef.nodes
      have hback := (readBack_eq_iff e.value).mpr (hpackable e (mem_of_lookup he))
      rw [get_of_some hsettled.holds hfid hf hnodes, Except.map, ofAtoms_atoms, hback]
  · rcases lookup_cases key_of_lies hlies fid with ⟨-, hf⟩ | ⟨e, f, he, -, -⟩
    · exact get_of_none hsettled.holds hfid hf getter name
    · cases hnone.symm.trans he

theorem Lies.step (h : m.Lies) (hfid : c.fid ≠ 0) (hlands : m.Lands c) : (m.step c).Lies := by
  obtain ⟨_, hsettled, hlies⟩ := h
  cases c with
  | add name fid v =>
    refine ⟨_, hsettled.add hfid hlands name, ?_⟩
    exact rel_append hlies (List.Forall₂.cons (Entry.lies_new name fid hlands) List.Forall₂.nil)
  | update name fid v =>
    refine ⟨_, hsettled.update hfid hlands.1 name, forall₂_alter key_of_lies hlies ?_⟩
    rcases lookup_cases key_of_lies hlies fid with ⟨he, hf⟩ | ⟨e, f, he, hf, hef⟩
    · rw [he, hf]
      exact Entry.lies_new name fid hlands.1
    · rw [he, hf]
      obtain ⟨htime, halone⟩ := hlands.2 e he
      exact hef.write hlands.1 htime halone

theorem value_updated (name : Option String) (fid : UInt16) (v : Value) (e? : Option Entry) :
    (Entry.updated name fid v e?).value = v := by
  cases e? <;> rfl

theorem packable_step (h : ∀ e ∈ m.entries, e.value.Packable) (c : Change) :
    (∀ e ∈ (m.step c).entries, e.value.Packable) ↔ c.value.Packable := by
  cases c with
  | add name fid v =>
    change (∀ e ∈ m.entries ++ [_], e.value.Packable) ↔ _
    rw [forall_mem_append, forall_mem_singleton, and_iff_right h]
    rfl
  | update name fid v =>
    have hvalue := value_updated name fid v (lookup Entry.fid fid m.entries)
    refine ⟨fun hall => hvalue ▸ hall _ (mem_alter_self fid (Entry.updated name fid v) m.entries), fun hv e he => ?_⟩
    rcases mem_alter he with rfl | he
    · rw [hvalue]
      exact hv
    · exact h e he

theorem Represents.step (h : m.Represents) (hfid : c.fid ≠ 0) (hfits : m.Fits c) : (m.step c).Represents :=
  ⟨h.1.step hfid hfits.1, (packable_step h.2 c).mpr hfits.2⟩

theorem contents_updated {name : Option String} {fid : UInt16}
    (hholds : Holds (m.step (.update name fid v)).payload.body fields) (hbuilt : ∀ f ∈ fields, f.Built 0)
    (hbehaves : (m.step (.update name fid v)).Behaves) :
    (lookup FieldNode.fid fid fields).map (·.view.contents)
      = some (Entry.updated name fid v (lookup Entry.fid fid m.entries)).contents := by
  have hmap := (iterates_iff hholds hbuilt _).mp hbehaves.iterates
  have hkey : (Entry.updated name fid v (lookup Entry.fid fid m.entries)).fid = fid :=
    key_change (f := Entry.updated name fid v) (fun _ => rfl) rfl m.entries
  have hfields (f : FieldNode) : f.view.contents.fid = f.fid := rfl
  calc (lookup FieldNode.fid fid fields).map (·.view.contents)
      = lookup Contents.fid fid (fields.map (·.view.contents)) := (lookup_map hfields fid fields).symm
    _ = (lookup Entry.fid fid (m.step (.update name fid v)).entries).map Entry.contents := by
        rw [hmap]
        exact lookup_map (fun _ => rfl) fid _
    _ = some (Entry.updated name fid v (lookup Entry.fid fid m.entries)).contents := by
        change (lookup Entry.fid fid (alter _ _ _ _)).map _ = _
        rw [lookup_alter hkey, if_pos rfl]
        rfl

theorem call_of_rejected (hv : v.isRejected)
    (hc : (∃ name fid, c = .add name fid v) ∨ ∃ name fid, c = .update name fid v) :
    (m.step c).payload = m.payload := by
  rcases hc with ⟨name, fid, rfl⟩ | ⟨_, _, rfl⟩
  · simp [step, Change.call, add, hv]
  · simp [step, Change.call, update, hv]

theorem Represents.lands (h : m.Represents) (hfid : c.fid ≠ 0) (hbehaves : (m.step c).Behaves) : m.Lands c := by
  have hbefore := h.behaves
  obtain ⟨⟨fields, hsettled, hlies⟩, hpackable⟩ := h
  have hbuilt := built_of_lies hlies
  cases c with
  | add name fid v =>
    by_contra hv
    have hpayload := call_of_rejected (m := m) (Bool.not_eq_false _ ▸ hv) (.inl ⟨name, fid, rfl⟩)
    have hcount := hpayload ▸ hbehaves.count
    have hlength : (m.step (.add name fid v)).entries.length = m.entries.length + 1 := length_append
    have hsame := hbefore.count
    omega
  | update name fid v =>
    have haccepted : v.isRejected = false := by
      by_contra hv
      have hpayload := call_of_rejected (m := m) (Bool.not_eq_false _ ▸ hv) (.inr ⟨name, fid, rfl⟩)
      have hholds : Holds (m.step (.update name fid v)).payload.body fields := hpayload ▸ hsettled.holds
      have hseen := contents_updated hholds hbuilt hbehaves
      rcases lookup_cases key_of_lies hlies fid with ⟨-, hf⟩ | ⟨e, f, he, hf, hef⟩
      · rw [hf] at hseen
        cases hseen
      · rw [he, hf, Option.map_some, hef.contents_view] at hseen
        have hvalue : e.value.readBack = v := Option.some.inj (congrArg Contents.value (Option.some.inj hseen))
        rw [(readBack_eq_iff e.value).mpr (hpackable e (mem_of_lookup he))] at hvalue
        exact hv (hvalue ▸ hef.accepted)
    refine ⟨haccepted, fun e he => ?_⟩
    rcases lookup_cases key_of_lies hlies fid with ⟨hnone, -⟩ | ⟨_, f, he', hf, hef⟩
    · cases he.symm.trans hnone
    · obtain rfl := Option.some.inj (he.symm.trans he')
      have hfid' : fid ≠ 0 := hfid
      have hwritten : ∀ g ∈ alter FieldNode.fid fid (FieldNode.updated name fid v) fields, g.Built 0 := by
        intro g hg
        rcases mem_alter hg with rfl | hg
        · rw [hf]
          exact hef.built.write haccepted
        · exact hbuilt g hg
      have hseen := contents_updated (hsettled.update hfid' haccepted name).holds hwritten hbehaves
      have hkey : f.fid = fid := key_of_lookup hf
      rw [he', lookup_alter (by rw [hf]; exact hkey), if_pos rfl, hf] at hseen
      by_contra hfit
      refine type_write_ne hef.rest (fun h => hfit ⟨h.1, fun halone => ?_⟩)
        (congrArg Contents.type (Option.some.inj hseen))
      rw [← hef.width, h.2 halone]
      rfl

theorem Represents.fits (h : m.Represents) (hfid : c.fid ≠ 0) (hbehaves : (m.step c).Behaves) : m.Fits c := by
  have hlands := h.lands hfid hbehaves
  obtain ⟨_, hsettled, hlies⟩ := h.1.step hfid hlands
  have hmap := (iterates_iff hsettled.holds (built_of_lies hlies) _).mp hbehaves.iterates
  exact ⟨hlands, (packable_step h.2 c).mp ((map_contents_iff hlies).mp hmap)⟩

/-- A message behaves as the list of its fields after every call exactly when every call fits: it is not
refused, its date-times come back, and no update leaves a node of the old value behind a double or a vector,
or writes a vector of times over a field. -/
theorem behaves_iff_fits (changes : List Change) (hfid : ∀ c ∈ changes, c.fid ≠ 0) :
    Along step (fun m c => (m.step c).Behaves) {} changes ↔ Along step Fits {} changes := by
  have hempty : Represents {} := ⟨⟨[], ⟨rfl, rfl⟩, List.Forall₂.nil⟩, by simp⟩
  refine Along.congr_on hempty (fun m hm c hc => ?_) fun m hm c hc hbehaves => ?_
  · exact ⟨hm.fits (hfid c hc), fun hfits => (hm.step (hfid c hc) hfits).behaves⟩
  · exact hm.step (hfid c hc) (hm.fits (hfid c hc) hbehaves)

theorem not_behaves_doubleOverPrice : ¬ Along step (fun m c => (m.step c).Behaves) {}
    [.add none 1 (.price { value := 5, hints := 0 }), .update none 1 (.scalar .f64 (.number 7))] := by
  rintro ⟨-, hbehaves, -⟩
  cases hbehaves.iterates 0 1

theorem behaves_typesChanged : Along step (fun m c => (m.step c).Behaves) {}
    [.add (some "a") 1 (.price { value := 5, hints := 0 }), .add none 2 (.scalar .i32 (.number 7)),
      .update none 1 (.scalar .string (.text "x")), .update none 2 (.vector .f64 [.number 1, .number 2]),
      .update none 1 (.time { seconds := 9, nanoseconds := 3000, precision := 6 }),
      .update (some "b") 3 (.vectorTime [{ seconds := 1790000000, nanoseconds := 3000, precision := 6, hints := 3 }])] := by
  refine (behaves_iff_fits _ (by decide)).mpr ?_
  refine ⟨⟨by decide, trivial⟩, ⟨by decide, trivial⟩, ⟨by decide, trivial⟩, ⟨by decide, trivial⟩,
    ⟨by decide, ⟨by decide, by decide, by decide, by decide⟩, by decide, by decide⟩, ⟨by decide, ?_⟩, trivial⟩
  exact forall_mem_singleton.mpr ⟨⟨by decide, by decide, by decide, by decide⟩, by decide, by decide⟩

end Message

end OpenMama.Qpid
