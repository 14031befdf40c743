import OpenMama.FieldCache.Cache
import OpenMama.Lib.Run

/-!
# The delta messages of a field cache

A delta message carries the fields that are always published and those in the list of modified fields; a flag of each
field says whether it is in the list. The flag is copied from a field that is applied, a field that is always
published can be in both lists, `setModified` puts fields in the list that are not to be published, and a message of a
multiple of 256 fields has them added and not updated. `kept_iff_fits` says that these, and the type QUANTITY, are all
that can go wrong.
-/

namespace OpenMama.FieldCaches

open FieldCache List MsgCall MsgField Keyed Option

namespace MsgCall

def addedFid? : MsgCall → Option Fid
  | .add f => some f.fid
  | .update _ => none

variable {calls : List MsgCall} {msg : Msg} {call : MsgCall}

theorem nodup_foldl_apply_iff (hkind : ∀ f g, .update f ∈ calls → .add g ∈ calls → g.fid ≠ f.fid) :
    ((calls.foldl apply msg).map fid).Nodup
      ↔ (msg.map fid ++ calls.filterMap addedFid?).Nodup := by
  induction calls generalizing msg with
  | nil => simp
  | cons call calls ih =>
    have htail : ∀ f g, .update f ∈ calls → .add g ∈ calls → g.fid ≠ f.fid :=
      fun f g hf hg => hkind f g (mem_cons_of_mem _ hf) (mem_cons_of_mem _ hg)
    rw [foldl_cons, ih htail]
    cases call with
    | add f => simp [apply, addedFid?]
    | update f =>
      have hskip : (update f :: calls).filterMap addedFid? = calls.filterMap addedFid? := rfl
      rw [hskip, apply]
      by_cases hmem : f.fid ∈ msg.map fid
      · rw [map_key_upsert_of_mem hmem]
      · have hnew : f.fid ∉ calls.filterMap addedFid? := by
          intro hadd
          obtain ⟨call, hcall, hfid⟩ := mem_filterMap.mp hadd
          cases call with
          | add g => exact hkind f g mem_cons_self (mem_cons_of_mem _ hcall) (some.inj hfid)
          | update g => cases hfid
        rw [upsert_of_not_mem hmem, map_append, append_assoc]
        exact nodup_middle.trans (nodup_cons.trans (and_iff_right fun h => (mem_append.mp h).elim hmem hnew))

theorem lookup_apply_of_ne {fid : Fid} (h : call.field.fid ≠ fid) (msg : Msg) :
    lookup MsgField.fid fid (call.apply msg) = lookup MsgField.fid fid msg := by
  cases call with
  | add f =>
    have hne : f.fid ≠ fid := h
    have hf : Keyed.lookup MsgField.fid fid [f] = none := by simpa [Keyed.lookup] using hne
    rw [apply, Keyed.lookup_append, hf, or_none]
  | update f =>
    have hne : f.fid ≠ fid := h
    rw [apply, lookup_upsert, if_neg hne]

theorem lookup_foldl_apply_of_ne {fid : Fid} (h : ∀ call ∈ calls, call.field.fid ≠ fid) (msg : Msg) :
    lookup MsgField.fid fid (calls.foldl apply msg) = lookup MsgField.fid fid msg := by
  induction calls generalizing msg with
  | nil => rfl
  | cons _ _ ih =>
    rw [forall_mem_cons] at h
    rw [foldl_cons, ih h.2, lookup_apply_of_ne h.1]

theorem mem_apply_self (call : MsgCall) (msg : Msg) : call.field ∈ call.apply msg := by
  cases call with
  | add f => exact mem_append_right _ (mem_singleton.mpr rfl)
  | update f => exact mem_upsert_self f msg

theorem mem_apply_of_mem {f : MsgField} (h : f ∈ msg) (hsame : call.field.fid = f.fid → call.field = f) :
    f ∈ call.apply msg := by
  by_cases hfid : call.field.fid = f.fid
  · exact hsame hfid ▸ mem_apply_self call msg
  · cases call with
    | add g => exact mem_append_left _ h
    | update g => exact mem_upsert_of_ne h (Ne.symm hfid)

theorem mem_foldl_apply_of_mem {f : MsgField} (h : f ∈ msg)
    (hsame : ∀ call ∈ calls, call.field.fid = f.fid → call.field = f) : f ∈ calls.foldl apply msg :=
  foldlRecOn calls apply h fun _ h call hcall => mem_apply_of_mem h (hsame call hcall)

theorem mem_foldl_apply (h : call ∈ calls)
    (hsame : ∀ call' ∈ calls, call'.field.fid = call.field.fid → call'.field = call.field) :
    call.field ∈ calls.foldl apply msg := by
  induction calls generalizing msg with
  | nil => cases h
  | cons _ _ ih =>
    rw [forall_mem_cons] at hsame
    rcases mem_cons.mp h with rfl | h
    · rw [foldl_cons]
      exact mem_foldl_apply_of_mem (mem_apply_self call msg) hsame.2
    · exact ih h hsame.2

end MsgCall

namespace Field

def msgField? (f : Field) : Option MsgField := f.data.map fun data => ⟨f.fid, f.type, data⟩

def Direct (f : Field) : Prop := f.type ≠ .quantity

instance (f : Field) : Decidable f.Direct := inferInstanceAs (Decidable (f.type ≠ .quantity))

variable {f : Field}

theorem Direct.accessor_eq (h : f.Direct) : f.type.accessor = f.type := by
  unfold FieldType.accessor
  split
  · contradiction
  · rfl

theorem set_eq (type : FieldType) (value : Option Data) (f : Field) :
    ∃ data n, f.set type value = { f with data := data, allocSize := n } := by
  unfold set setVector
  split
  · split
    case h_7 => split <;> exact ⟨_, _, rfl⟩
    all_goals exact ⟨_, _, rfl⟩
  · exact ⟨_, _, rfl⟩

theorem copy_eq (junk : Data) {copied : Field} (hfid : copied.fid = f.fid) (htype : copied.type = f.type) :
    ∃ data n, f.copy junk copied = { f with data := data, allocSize := n } := by
  obtain ⟨data, n, hset⟩ := set_eq f.type.accessor ((f.get? f.type.accessor).getD (some junk))
    { copied with isModified := f.isModified, publish := f.publish, checkModified := f.checkModified }
  refine ⟨data, n, ?_⟩
  rw [copy, if_neg (not_or.mpr ⟨not_not.mpr hfid.symm, not_not.mpr htype.symm⟩), hset]
  cases copied
  cases hfid
  cases htype
  rfl

theorem updateMsgField_of_direct (junk : Data) (h : f.Direct) (useUpdate : Bool) :
    f.updateMsgField junk useUpdate
      = f.msgField?.map fun field => if useUpdate && !f.type.isAddOnly then .update field else .add field := by
  unfold updateMsgField msgField? get?
  rw [h.accessor_eq, if_pos rfl, Option.map_map]
  rfl

theorem updateMsgField_of_not_direct (junk : Data) (h : ¬ f.Direct) (useUpdate : Bool) :
    ∃ call, f.updateMsgField junk useUpdate = some call ∧ call.field.fid = f.fid ∧ call.field.type ≠ f.type := by
  have htype : f.type = .quantity := not_not.mp h
  unfold updateMsgField get?
  rw [htype]
  refine ⟨_, rfl, ?_, ?_⟩ <;> split <;> simp [field, FieldType.accessor]

theorem fid_of_updateMsgField {junk : Data} {useUpdate : Bool} {call : MsgCall}
    (h : f.updateMsgField junk useUpdate = some call) : call.field.fid = f.fid := by
  obtain ⟨_, -, hcall⟩ := map_eq_some_iff.mp h
  rw [← hcall]
  split <;> rfl

theorem fid_of_msgField? {field : MsgField} (h : f.msgField? = some field) :
    field.fid = f.fid ∧ field.type = f.type := by
  obtain ⟨_, -, rfl⟩ := map_eq_some_iff.mp h
  exact ⟨rfl, rfl⟩

end Field

def FieldCache.marks (c : FieldCache) (f : Field) : Bool :=
  f.publish && f.checkModified && !c.fields[f.fid]?.any (·.isModified) && c.trackModified

variable {c : FieldCache}

theorem applyField_eq (junk : Data) {f : Field}
    (h : ∀ cached, c.fields[f.fid]? = some cached → cached.fid = f.fid ∧ cached.type = f.type) :
    ∃ data n, f.copy junk (c.fields[f.fid]?.getD { fid := f.fid, type := f.type })
        = { f with data := data, allocSize := n }
      ∧ c.applyField junk f = { c with
          alwaysPublishFields :=
            if c.fields[f.fid]?.isNone && f.publish && !f.checkModified then c.alwaysPublishFields ++ [f.fid]
            else c.alwaysPublishFields
          modifiedFields := if c.marks f then c.modifiedFields ++ [f.fid] else c.modifiedFields
          fields := c.fields.insert f.fid
            { f with isModified := c.marks f || f.isModified, data := data, allocSize := n } } := by
  have hcached : (c.fields[f.fid]?.getD { fid := f.fid, type := f.type }).fid = f.fid
      ∧ (c.fields[f.fid]?.getD { fid := f.fid, type := f.type }).type = f.type := by
    cases hc : c.fields[f.fid]? with
    | none => exact ⟨rfl, rfl⟩
    | some cached => exact h cached hc
  obtain ⟨data, n, hcopy⟩ := f.copy_eq junk hcached.1 hcached.2
  refine ⟨data, n, hcopy, ?_⟩
  rw [applyField, updateCacheFromField, hcopy]
  rfl

theorem updateCacheFromMsgField_eq (c : FieldCache) (field : MsgField) {f : Field} {m : Bool}
    (hf : f = c.fields[field.fid]?.getD { fid := field.fid, type := field.type })
    (hm : m = (c.trackModified && f.publish && !f.isModified)) :
    ∃ data n, (f.data = data
        ∨ { f with isModified := m || f.isModified }.set f.type.accessor (some field.data)
          = { f with isModified := m || f.isModified, data := data, allocSize := n })
      ∧ c.updateCacheFromMsgField field = { c with
          modifiedFields := if m then c.modifiedFields ++ [field.fid] else c.modifiedFields
          fields := c.fields.insert field.fid
            { f with isModified := m || f.isModified, data := data, allocSize := n } } := by
  cases hf
  cases hm
  rw [updateCacheFromMsgField]
  split
  · exact ⟨_, _, .inl rfl, rfl⟩
  · obtain ⟨data, n, hset⟩ := Field.set_eq _ (some field.data) _
    exact ⟨data, n, .inr hset, by rw [hset]⟩

/-- The flag of a field says whether it is in the list of modified fields, where it is once. -/
structure Flagged (c : FieldCache) : Prop where
  marked : ∀ fid f, c.fields[fid]? = some f → (f.isModified = true ↔ fid ∈ c.modifiedFields)
  present : ∀ fid ∈ c.modifiedFields, c.fields[fid]? ≠ none
  nodup : c.modifiedFields.Nodup

theorem Flagged.any_isModified (h : Flagged c) (fid : Fid) :
    c.fields[fid]?.any (·.isModified) ↔ fid ∈ c.modifiedFields := by
  cases hf : c.fields[fid]? with
  | none => exact iff_of_false (by simp) fun hmem => h.present fid hmem hf
  | some f => exact h.marked fid f hf

theorem flagged_insert_iff (h : Flagged c) (fid : Fid) (f : Field) (marks : Bool) (always : List Fid) :
    Flagged { c with
      alwaysPublishFields := always
      modifiedFields := if marks then c.modifiedFields ++ [fid] else c.modifiedFields
      fields := c.fields.insert fid f }
      ↔ if marks then fid ∉ c.modifiedFields ∧ f.isModified
        else (f.isModified ↔ fid ∈ c.modifiedFields) := by
  have hpresent : ∀ g ∈ c.modifiedFields, (c.fields.insert fid f)[g]? ≠ none := by
    intro g hg
    rw [OrderedMap.getElem?_insert]
    split
    · exact some_ne_none f
    · exact h.present g hg
  cases marks with
  | false =>
    constructor
    · intro hflag
      exact hflag.marked fid f (by rw [OrderedMap.getElem?_insert, if_pos rfl])
    · intro hf
      exact ⟨OrderedMap.forall_insert (fun g (field : Field) => field.isModified ↔ g ∈ c.modifiedFields) hf h.marked,
        hpresent, h.nodup⟩
  | true =>
    constructor
    · intro hflag
      have hself := (hflag.marked fid f (by rw [OrderedMap.getElem?_insert, if_pos rfl])).mpr (by simp)
      exact ⟨fun hmem => (nodup_append.mp hflag.nodup).2.2 fid hmem fid (by simp) rfl, hself⟩
    · rintro ⟨hnew, hf⟩
      refine ⟨fun g field hg => ?_, fun g hg => ?_, ?_⟩
      · rw [OrderedMap.getElem?_insert] at hg
        split at hg
        case isTrue heq => simp [← heq, ← some.inj hg, hf]
        case isFalse hne => simp [h.marked g field hg, hne]
      · rcases mem_append.mp hg with hg | hg
        · exact hpresent g hg
        · rw [mem_singleton.mp hg, OrderedMap.getElem?_insert, if_pos rfl]
          exact some_ne_none f
      · exact h.nodup.append (nodup_singleton fid) (by simpa using hnew)

theorem getElem?_foldl_unmark (fids : List Fid) (fields : Std.TreeMap Fid Field) (fid : Fid) :
    (fids.foldl unmark fields)[fid]?
      = fields[fid]?.map fun f => if fid ∈ fids then { f with isModified := false } else f := by
  induction fids generalizing fields with
  | nil => simp
  | cons head _ ih =>
    rw [foldl_cons, ih, unmark]
    cases hhead : fields[head]? with
    | none =>
      by_cases heq : fid = head
      · rw [heq, hhead]
        rfl
      · simp [heq]
    | some f =>
      rw [OrderedMap.getElem?_insert]
      by_cases heq : fid = head
      · rw [heq, hhead]
        simp
      · simp [heq]

theorem Flagged.unmark (h : Flagged c) {fids : List Fid} (hfids : ∀ fid ∈ c.modifiedFields, fid ∈ fids) :
    Flagged { c with fields := fids.foldl FieldCache.unmark c.fields, modifiedFields := [] } := by
  refine ⟨fun fid f hf => ?_, fun fid hfid => (nomatch hfid), nodup_nil⟩
  rw [getElem?_foldl_unmark, map_eq_some_iff] at hf
  obtain ⟨g, hg, rfl⟩ := hf
  refine iff_of_false ?_ not_mem_nil
  split
  · exact Bool.false_ne_true
  next hno => exact fun hmodified => hno (hfids fid ((h.marked fid g hg).mp hmodified))

/-! ### Histories -/

@[ext]
structure FieldKind where
  type : FieldType
  publish : Bool
  checkModified : Bool
deriving DecidableEq

def Field.kind (f : Field) : FieldKind := ⟨f.type, f.publish, f.checkModified⟩

inductive Op where
  | applyField (f : Field)
  | applyMessage (message : Msg)
  | applyRecord (record : List Field)
  | setModified (fid : Fid)
  | getDeltaMessage (message : Msg)
  | clearModifiedFields
deriving DecidableEq

/-- A cache, and the fields that were applied since its last delta. -/
structure History where
  cache : FieldCache := {}
  applied : List Fid := []

namespace History

def applyField (junk : Data) (h : History) (f : Field) : History :=
  { cache := h.cache.applyField junk f, applied := f.fid :: h.applied }

def applyMsgField (h : History) (field : MsgField) : History :=
  { cache := h.cache.updateCacheFromMsgField field, applied := field.fid :: h.applied }

def step (junk : Data) (h : History) : Op → History
  | .applyField f => h.applyField junk f
  | .applyMessage message =>
    { cache := h.cache.applyMessage message, applied := (message.map (·.fid)).reverse ++ h.applied }
  | .applyRecord record =>
    { cache := h.cache.applyRecord junk record, applied := (record.map (·.fid)).reverse ++ h.applied }
  | .setModified fid => { cache := h.cache.setModified fid, applied := fid :: h.applied }
  | .getDeltaMessage message => { cache := (h.cache.getDeltaMessage junk message).1, applied := [] }
  | .clearModifiedFields => { cache := h.cache.clearModifiedFields, applied := [] }

variable {fid : Fid} {f : Field} {message : Msg} {junk : Data} {fids : List Fid}

theorem step_applyMessage (junk : Data) (h : History) (message : Msg) :
    h.step junk (.applyMessage message) = message.foldl applyMsgField h := by
  induction message generalizing h with
  | nil => rfl
  | cons _ _ ih =>
    rw [foldl_cons, ← ih]
    simp [step, applyMsgField, FieldCache.applyMessage]

theorem step_applyRecord (junk : Data) (h : History) (record : List Field) :
    h.step junk (.applyRecord record) = record.foldl (applyField junk) h := by
  induction record generalizing h with
  | nil => rfl
  | cons f _ ih =>
    rw [foldl_cons, ← ih]
    simp [step, applyField, FieldCache.applyField, FieldCache.applyRecord]

/-- The calls a client makes where each id has its type and its flags. A field that a message brings is
published when it is modified. -/
def Regular (kinds : Fid → FieldKind) (h : History) : Op → Prop
  | .applyField f => f.kind = kinds f.fid
  | .applyMessage message => ∀ field ∈ message, field.type = (kinds field.fid).type
      ∧ (h.cache.fields[field.fid]? = none →
        (kinds field.fid).publish = true ∧ (kinds field.fid).checkModified = true)
  | .applyRecord record => ∀ f ∈ record, f.kind = kinds f.fid
  | .getDeltaMessage message => (message.map (·.fid)).Nodup
  | .setModified _ | .clearModifiedFields => True

instance (kinds : Fid → FieldKind) (h : History) : (op : Op) → Decidable (h.Regular kinds op)
  | .applyField f => inferInstanceAs (Decidable (f.kind = kinds f.fid))
  | .applyMessage message => inferInstanceAs (Decidable (∀ field ∈ message, _))
  | .applyRecord record => inferInstanceAs (Decidable (∀ f ∈ record, f.kind = kinds f.fid))
  | .getDeltaMessage message => inferInstanceAs (Decidable (message.map (·.fid)).Nodup)
  | .setModified _ => isTrue trivial
  | .clearModifiedFields => isTrue trivial

/-- A field that the next delta is to carry. -/
structure Wanted (h : History) (f : Field) : Prop where
  cached : h.cache.fields[f.fid]? = some f
  publish : f.publish = true
  due : f.fid ∈ h.applied ∨ f.checkModified = false

/-- The calls write the fields that are wanted, each once, and leave the others. -/
structure IsDelta (h : History) (message : Msg) (calls : List MsgCall) : Prop where
  distinct : ((calls.foldl apply message).map (·.fid)).Nodup
  written : ∀ field, (∃ call ∈ calls, call.field = field) ↔ ∃ f, h.Wanted f ∧ f.msgField? = some field
  valued : ∀ f : Field, h.Wanted f → ∃ field, f.msgField? = some field
    ∧ lookup MsgField.fid f.fid (calls.foldl apply message) = some field
  rest : ∀ fid, (∀ f, h.Wanted f → f.fid ≠ fid) →
    lookup MsgField.fid fid (calls.foldl apply message)
      = lookup MsgField.fid fid message

/-- The flags are right after a call, and after each field of a record, and a delta writes what it should. -/
def Kept (junk : Data) (h : History) : Op → Prop
  | .applyRecord record => Along (applyField junk) (fun h f => Flagged (h.applyField junk f).cache) h record
  | .getDeltaMessage message => Flagged (h.step junk (.getDeltaMessage message)).cache
      ∧ h.IsDelta message (h.cache.getDeltaMessage junk message).2
  | op => Flagged (h.step junk op).cache

def Renews (h : History) (f : Field) : Prop :=
  f.fid ∉ h.cache.modifiedFields ∧ f.publish = true ∧ f.checkModified = true
    ∨ (f.isModified = true ↔ f.fid ∈ h.cache.modifiedFields)

instance (h : History) (f : Field) : Decidable (h.Renews f) :=
  inferInstanceAs (Decidable (_ ∧ _ ∧ _ ∨ (_ ↔ _)))

def added (c : FieldCache) (message : Msg) (fid : Fid) : Bool :=
  c.fields[fid]?.any fun f => f.data.isSome && !(useUpdate message && !f.type.isAddOnly)

structure Deliverable (c : FieldCache) (message : Msg) : Prop where
  direct : ∀ fid ∈ c.alwaysPublishFields ++ c.modifiedFields, ∀ f ∈ c.fields[fid]?, f.Direct
  valued : ∀ fid ∈ c.alwaysPublishFields ++ c.modifiedFields, ∀ f ∈ c.fields[fid]?,
    (f.publish = true ↔ f.data ≠ none)
  distinct : (message.map (·.fid)
    ++ (c.alwaysPublishFields ++ c.modifiedFields).filter (added c message)).Nodup

instance (c : FieldCache) (message : Msg) : Decidable (Deliverable c message) :=
  -- over the lists, and not over all ids
  have : Decidable (∀ fid ∈ c.alwaysPublishFields ++ c.modifiedFields, ∀ f ∈ c.fields[fid]?, f.Direct) :=
    decidableBAll _ _
  have : Decidable (∀ fid ∈ c.alwaysPublishFields ++ c.modifiedFields, ∀ f ∈ c.fields[fid]?,
      (f.publish = true ↔ f.data ≠ none)) := decidableBAll _ _
  decidable_of_iff
    ((∀ fid ∈ c.alwaysPublishFields ++ c.modifiedFields, ∀ f ∈ c.fields[fid]?, f.Direct)
      ∧ (∀ fid ∈ c.alwaysPublishFields ++ c.modifiedFields, ∀ f ∈ c.fields[fid]?,
        (f.publish = true ↔ f.data ≠ none))
      ∧ (message.map (·.fid)
        ++ (c.alwaysPublishFields ++ c.modifiedFields).filter (added c message)).Nodup)
    ⟨fun h => ⟨h.1, h.2.1, h.2.2⟩, fun h => ⟨h.direct, h.valued, h.distinct⟩⟩

def Fits (junk : Data) (h : History) : Op → Prop
  | .applyField f => h.Renews f
  | .applyRecord record => Along (applyField junk) Renews h record
  | .getDeltaMessage message => Deliverable h.cache message
  | .applyMessage _ | .setModified _ | .clearModifiedFields => True

instance (junk : Data) (h : History) : (op : Op) → Decidable (h.Fits junk op)
  | .applyField f => inferInstanceAs (Decidable (h.Renews f))
  | .applyRecord record => inferInstanceAs (Decidable (Along (applyField junk) Renews h record))
  | .getDeltaMessage message => inferInstanceAs (Decidable (Deliverable h.cache message))
  | .applyMessage _ => isTrue trivial
  | .setModified _ => isTrue trivial
  | .clearModifiedFields => isTrue trivial

/-- The lists of the cache say what was applied. -/
structure Recorded (kinds : Fid → FieldKind) (h : History) : Prop where
  track : h.cache.trackModified = true
  fid : ∀ fid (f : Field), h.cache.fields[fid]? = some f → f.fid = fid
  kind : ∀ fid f, h.cache.fields[fid]? = some f → f.kind = kinds fid
  always : ∀ fid, fid ∈ h.cache.alwaysPublishFields
    ↔ h.cache.fields[fid]? ≠ none ∧ (kinds fid).publish = true ∧ (kinds fid).checkModified = false
  alwaysNodup : h.cache.alwaysPublishFields.Nodup
  applied : ∀ fid ∈ h.cache.modifiedFields, fid ∈ h.applied
  modified : ∀ fid ∈ h.applied, h.cache.fields[fid]? ≠ none → (kinds fid).publish = true →
    (kinds fid).checkModified = true → fid ∈ h.cache.modifiedFields

structure Sound (kinds : Fid → FieldKind) (h : History) : Prop extends Recorded kinds h where
  flagged : Flagged h.cache

variable {kinds : Fid → FieldKind} {h : History}

/-! ### Applying fields -/

theorem Recorded.insert (hrec : Recorded kinds h) (hfid : f.fid = fid)
    (hkind : f.kind = kinds fid) {marks : Bool} (hmarks : marks = false → (kinds fid).publish →
      (kinds fid).checkModified → fid ∈ h.cache.modifiedFields) {always : List Fid}
    (halways : always = if h.cache.fields[fid]?.isNone && (kinds fid).publish && !(kinds fid).checkModified
      then h.cache.alwaysPublishFields ++ [fid] else h.cache.alwaysPublishFields) :
    Recorded kinds
      { cache := { h.cache with
          alwaysPublishFields := always
          modifiedFields := if marks then h.cache.modifiedFields ++ [fid] else h.cache.modifiedFields
          fields := h.cache.fields.insert fid f }
        applied := fid :: h.applied } where
  track := hrec.track
  fid := OrderedMap.forall_insert (fun g (field : Field) => field.fid = g) hfid hrec.fid
  kind := OrderedMap.forall_insert (fun g (field : Field) => field.kind = kinds g) hkind hrec.kind
  always := by
    intro g
    have hother : g ≠ fid → (g ∈ always ↔ g ∈ h.cache.alwaysPublishFields) := by
      intro hne
      rw [halways]
      split <;> simp [hne]
    rw [OrderedMap.getElem?_insert]
    by_cases heq : g = fid
    · rw [halways]
      have hold := hrec.always fid
      cases hc : h.cache.fields[fid]? <;> cases hp : (kinds fid).publish <;>
        cases hm : (kinds fid).checkModified <;> simp_all
    · rw [if_neg heq, hother heq]
      exact hrec.always g
  alwaysNodup := by
    rw [halways]
    split
    case isTrue hcond =>
      have hnew : fid ∉ h.cache.alwaysPublishFields := by
        rw [hrec.always fid]
        rintro ⟨hpresent, -⟩
        rw [Bool.and_assoc, Bool.and_eq_true, isNone_iff_eq_none] at hcond
        exact hpresent hcond.1
      exact hrec.alwaysNodup.append (nodup_singleton fid) (by simpa using hnew)
    case isFalse => exact hrec.alwaysNodup
  applied := by
    intro g hg
    by_cases heq : g = fid
    · exact heq ▸ mem_cons_self
    · have hmem : g ∈ h.cache.modifiedFields := by
        cases marks
        · exact hg
        · simpa [heq] using hg
      exact mem_cons_of_mem _ (hrec.applied g hmem)
  modified := by
    intro g hg hpresent hpublish hcheck
    rw [OrderedMap.getElem?_insert] at hpresent
    by_cases heq : g = fid
    · cases heq
      cases marks with
      | false => exact hmarks rfl hpublish hcheck
      | true => simp
    · rw [if_neg heq] at hpresent
      have hmem := hrec.modified g ((mem_cons.mp hg).resolve_left heq) hpresent hpublish hcheck
      cases marks with
      | false => exact hmem
      | true => exact mem_append_left _ hmem

theorem Recorded.cached (hrec : Recorded kinds h) (hf : f.kind = kinds f.fid) (cached : Field)
    (hcached : h.cache.fields[f.fid]? = some cached) : cached.fid = f.fid ∧ cached.type = f.type :=
  ⟨hrec.fid _ cached hcached, congrArg FieldKind.type ((hrec.kind _ cached hcached).trans hf.symm)⟩

theorem marks_eq_true_iff (hs : Sound kinds h) (f : Field) :
    h.cache.marks f
      ↔ f.publish ∧ f.checkModified ∧ f.fid ∉ h.cache.modifiedFields := by
  rw [← hs.flagged.any_isModified, marks, hs.track]
  simp [and_assoc]

theorem Sound.applyField (junk : Data) (hs : Sound kinds h) (hf : f.kind = kinds f.fid) :
    Recorded kinds (h.applyField junk f) := by
  obtain ⟨data, n, -, happly⟩ := applyField_eq junk (hs.cached hf)
  rw [History.applyField, happly]
  refine hs.insert (f := { f with isModified := h.cache.marks f || f.isModified, data := data, allocSize := n }) rfl hf
    (fun hmarks hpublish hcheck => ?_) (by rw [← hf]; rfl)
  by_contra hmem
  have hyes := (marks_eq_true_iff hs f).mpr
    ⟨(congrArg FieldKind.publish hf).trans hpublish, (congrArg FieldKind.checkModified hf).trans hcheck, hmem⟩
  cases hmarks.symm.trans hyes

theorem Sound.flagged_applyField_iff (junk : Data) (hs : Sound kinds h) (hf : f.kind = kinds f.fid) :
    Flagged (h.applyField junk f).cache ↔ h.Renews f := by
  obtain ⟨_, _, -, happly⟩ := applyField_eq junk (hs.cached hf)
  rw [History.applyField, happly]
  apply (flagged_insert_iff hs.flagged f.fid _ (h.cache.marks f) _).trans
  have hmarks := marks_eq_true_iff hs f
  by_cases hm : h.cache.marks f
  · obtain ⟨hpublish, hcheck, hnew⟩ := hmarks.mp hm
    rw [hm]
    exact iff_of_true ⟨hnew, rfl⟩ (.inl ⟨hnew, hpublish, hcheck⟩)
  · rw [(Bool.not_eq_true _).mp hm]
    refine (or_iff_right fun hno => ?_).symm
    exact hm (hmarks.mpr ⟨hno.2.1, hno.2.2, hno.1⟩)

theorem Sound.mark (hs : Sound kinds h) (hfid : f.fid = fid) (hkind : f.kind = kinds fid)
    (hnew : h.cache.fields[fid]? = none → (kinds fid).publish ∧ (kinds fid).checkModified)
    (hf : f.isModified ↔ fid ∈ h.cache.modifiedFields) {m : Bool}
    (hmarks : if m then f.isModified = false else f.publish → f.isModified)
    (data : Option Data) (n : Nat) {h' : History} (happlied : h'.applied = fid :: h.applied)
    (hcache : h'.cache = { h.cache with
      modifiedFields := if m then h.cache.modifiedFields ++ [fid] else h.cache.modifiedFields
      fields := h.cache.fields.insert fid
        { f with isModified := m || f.isModified, data := data, allocSize := n } }) :
    Sound kinds h' := by
  obtain ⟨_, _⟩ := h'
  cases happlied
  cases hcache
  have halways : h.cache.alwaysPublishFields
      = if h.cache.fields[fid]?.isNone && (kinds fid).publish && !(kinds fid).checkModified
        then h.cache.alwaysPublishFields ++ [fid] else h.cache.alwaysPublishFields := by
    rw [if_neg]
    intro hcond
    simp only [Bool.and_eq_true, isNone_iff_eq_none, Bool.not_eq_true'] at hcond
    cases hcond.2.symm.trans (hnew hcond.1.1).2
  constructor
  · refine hs.insert (f := { f with isModified := m || f.isModified, data := data, allocSize := n }) hfid hkind
      (fun hno hpublish _ => ?_) halways
    rw [hno] at hmarks
    exact hf.mp (hmarks ((congrArg FieldKind.publish hkind).trans hpublish))
  · apply (flagged_insert_iff hs.flagged fid _ m h.cache.alwaysPublishFields).mpr
    cases m with
    | false => exact hf
    | true =>
      have hno : f.isModified = false := hmarks
      exact ⟨fun hmem => (nomatch hno.symm.trans (hf.mpr hmem)), rfl⟩

theorem Sound.applyMsgField (hs : Sound kinds h) {field : MsgField} (htype : field.type = (kinds field.fid).type)
    (hnew : h.cache.fields[field.fid]? = none →
      (kinds field.fid).publish ∧ (kinds field.fid).checkModified) :
    Sound kinds (h.applyMsgField field) := by
  obtain ⟨f, hf⟩ : ∃ f, f = h.cache.fields[field.fid]?.getD { fid := field.fid, type := field.type } := ⟨_, rfl⟩
  have hspec : f.fid = field.fid ∧ f.kind = kinds field.fid
      ∧ (f.isModified ↔ field.fid ∈ h.cache.modifiedFields) := by
    cases hc : h.cache.fields[field.fid]? with
    | none =>
      rw [hc] at hf
      obtain ⟨hpublish, hcheck⟩ := hnew hc
      cases hf
      refine ⟨rfl, ?_, iff_of_false Bool.false_ne_true fun hmem => hs.flagged.present field.fid hmem hc⟩
      exact FieldKind.ext htype hpublish.symm hcheck.symm
    | some cached =>
      rw [hc] at hf
      rw [hf]
      exact ⟨hs.fid _ cached hc, hs.kind _ cached hc, hs.flagged.marked _ cached hc⟩
  obtain ⟨data, n, -, hupdate⟩ := updateCacheFromMsgField_eq h.cache field hf rfl
  refine hs.mark hspec.1 hspec.2.1 hnew hspec.2.2 ?_ data n rfl hupdate
  rw [hs.track]
  cases hp : f.publish <;> cases hm : f.isModified <;> simp

theorem Sound.applyMessage (junk : Data) (hs : Sound kinds h) (hreg : h.Regular kinds (.applyMessage message)) :
    Sound kinds (h.step junk (.applyMessage message)) := by
  rw [step_applyMessage]
  induction message generalizing h with
  | nil => exact hs
  | cons _ _ ih =>
    obtain ⟨hfield, hrest⟩ := forall_mem_cons.mp hreg
    refine ih (hs.applyMsgField hfield.1 hfield.2) fun g hg => ⟨(hrest g hg).1, fun hnone => (hrest g hg).2 ?_⟩
    rw [History.applyMsgField, updateCacheFromMsgField, OrderedMap.getElem?_insert] at hnone
    split at hnone
    case isTrue => cases hnone
    case isFalse => exact hnone

theorem Recorded.leave (hrec : Recorded kinds h) (hfid : h.cache.fields[fid]? = none ∨ fid ∈ h.cache.modifiedFields) :
    Recorded kinds { h with applied := fid :: h.applied } := by
  refine ⟨hrec.track, hrec.fid, hrec.kind, hrec.always, hrec.alwaysNodup,
    fun g hg => mem_cons_of_mem _ (hrec.applied g hg), fun g hg hpresent => ?_⟩
  rcases mem_cons.mp hg with rfl | hg
  · exact fun _ _ => hfid.resolve_left hpresent
  · exact hrec.modified g hg hpresent

theorem Sound.setModified (junk : Data) (hs : Sound kinds h) (fid : Fid) :
    Sound kinds (h.step junk (.setModified fid)) := by
  rw [step, FieldCache.setModified]
  cases hc : h.cache.fields[fid]? with
  | none => exact ⟨hs.leave (.inl hc), hs.flagged⟩
  | some f =>
    have hf := hs.flagged.marked fid f hc
    cases hm : f.isModified with
    | true =>
      simp only [hm, Bool.or_true, if_true]
      exact ⟨hs.leave (.inr (hf.mp hm)), hs.flagged⟩
    | false =>
      refine hs.mark (hs.fid fid f hc) (hs.kind fid f hc) (fun hnone => ?_) hf (m := true) hm f.data f.allocSize rfl ?_
      · exact absurd (hc.symm.trans hnone) (some_ne_none f)
      · simp [hm, hs.track]

theorem Recorded.unmark (hrec : Recorded kinds h) (fids : List Fid) :
    Recorded kinds { cache := { h.cache with
      fields := fids.foldl FieldCache.unmark h.cache.fields, modifiedFields := [] } } where
  track := hrec.track
  fid := by
    intro g f hf
    obtain ⟨field, hfield, rfl⟩ := map_eq_some_iff.mp ((getElem?_foldl_unmark ..).symm.trans hf)
    have hfid := hrec.fid g field hfield
    split <;> exact hfid
  kind := by
    intro g f hf
    obtain ⟨field, hfield, rfl⟩ := map_eq_some_iff.mp ((getElem?_foldl_unmark ..).symm.trans hf)
    have hkind := hrec.kind g field hfield
    split <;> exact hkind
  always := by
    intro g
    rw [getElem?_foldl_unmark, Ne, map_eq_none_iff]
    exact hrec.always g
  alwaysNodup := hrec.alwaysNodup
  applied := nofun
  modified := nofun

theorem Sound.getDeltaMessage (junk : Data) (hs : Sound kinds h) (message : Msg) :
    Sound kinds (h.step junk (.getDeltaMessage message)) := by
  rw [step, FieldCache.getDeltaMessage, if_pos hs.track]
  exact ⟨hs.unmark _, hs.flagged.unmark fun _ hfid => mem_append_right _ hfid⟩

theorem Sound.clearModifiedFields (junk : Data) (hs : Sound kinds h) :
    Sound kinds (h.step junk .clearModifiedFields) := by
  rw [step, FieldCache.clearModifiedFields, if_pos hs.track]
  exact ⟨hs.unmark _, hs.flagged.unmark fun _ hfid => hfid⟩

/-! ### Deltas -/

theorem mem_callsFor {call : MsgCall} :
    call ∈ c.callsFor junk message fids
      ↔ ∃ fid ∈ fids, ∃ f, c.fields[fid]? = some f ∧ f.updateMsgField junk (useUpdate message) = some call := by
  simp [callsFor, bind_eq_some_iff]

theorem wanted_iff (hrec : Recorded kinds h) (hf : h.cache.fields[fid]? = some f) :
    h.Wanted f ↔ f.publish ∧ fid ∈ h.cache.alwaysPublishFields ++ h.cache.modifiedFields := by
  have hfid := hrec.fid fid f hf
  have hpresent : h.cache.fields[fid]? ≠ none := hf ▸ some_ne_none f
  have halways := hrec.always fid
  have hmodified := hrec.modified fid
  rw [← hrec.kind fid f hf] at halways hmodified
  cases hfid
  constructor
  · intro hwanted
    refine ⟨hwanted.publish, mem_append.mpr ?_⟩
    cases hcheck : f.checkModified with
    | false => exact .inl (halways.mpr ⟨hpresent, hwanted.publish, hcheck⟩)
    | true =>
      have happlied := hwanted.due.resolve_right (by simp [hcheck])
      exact .inr (hmodified happlied hpresent hwanted.publish hcheck)
  · rintro ⟨hpublish, hmem⟩
    refine ⟨hf, hpublish, ?_⟩
    rcases mem_append.mp hmem with hmem | hmem
    · exact .inr (halways.mp hmem).2.2
    · exact .inl (hrec.applied f.fid hmem)

theorem callsFor_inj (hrec : Recorded kinds h) {call call' : MsgCall}
    (hcall : call ∈ h.cache.callsFor junk message fids) (hcall' : call' ∈ h.cache.callsFor junk message fids)
    (hfid : call.field.fid = call'.field.fid) :
    call = call' := by
  obtain ⟨fid, -, f, hf, hupdate⟩ := mem_callsFor.mp hcall
  obtain ⟨fid', -, f', hf', hupdate'⟩ := mem_callsFor.mp hcall'
  have hsame : fid = fid' := by
    rw [← hrec.fid fid f hf, ← hrec.fid fid' f' hf', ← Field.fid_of_updateMsgField hupdate, hfid,
      Field.fid_of_updateMsgField hupdate']
  cases hsame
  cases hf.symm.trans hf'
  exact some.inj (hupdate.symm.trans hupdate')

theorem filterMap_addedFid?_callsFor (junk : Data) (hrec : Recorded kinds h)
    (hdirect : ∀ fid ∈ fids, ∀ f, h.cache.fields[fid]? = some f → f.Direct) :
    (h.cache.callsFor junk message fids).filterMap addedFid? = fids.filter (added h.cache message) := by
  induction fids with
  | nil => rfl
  | cons fid _ ih =>
    obtain ⟨hhead, htail⟩ := forall_mem_cons.mp hdirect
    have hfirst : ((h.cache.callsFor junk message [fid]).filterMap addedFid?)
        = [fid].filter (added h.cache message) := by
      cases hf : h.cache.fields[fid]? with
      | none => simp [callsFor, added, hf]
      | some f =>
        have hfid := hrec.fid fid f hf
        have hcall := f.updateMsgField_of_direct junk (hhead f hf) (useUpdate message)
        have hadded : added h.cache message fid = (f.data.isSome && !(useUpdate message && !f.type.isAddOnly)) := by
          rw [added, hf, any_some]
        cases hdata : f.data with
        | none => simp [callsFor, hadded, hf, hcall, Field.msgField?, hdata]
        | some _ =>
          cases hu : useUpdate message && !f.type.isAddOnly <;>
            simp [callsFor, hadded, hf, hcall, Field.msgField?, hdata, hu, filterMap_cons, addedFid?, hfid]
    rw [← singleton_append, filter_append, ← hfirst, ← ih htail, ← filterMap_append, callsFor,
      callsFor, callsFor, ← filterMap_append]

theorem written_iff (hrec : Recorded kinds h) (hdirect : ∀ fid ∈ fids, ∀ f, h.cache.fields[fid]? = some f → f.Direct)
    {field : MsgField} :
    (∃ call ∈ h.cache.callsFor junk message fids, call.field = field)
      ↔ ∃ f : Field, h.cache.fields[f.fid]? = some f ∧ f.fid ∈ fids ∧ f.msgField? = some field := by
  constructor
  · rintro ⟨_, hcall, rfl⟩
    obtain ⟨fid, hmem, f, hf, hupdate⟩ := mem_callsFor.mp hcall
    have hfid := hrec.fid fid f hf
    rw [Field.updateMsgField_of_direct junk (hdirect fid hmem f hf), map_eq_some_iff] at hupdate
    obtain ⟨_, hfield, rfl⟩ := hupdate
    refine ⟨f, hfid.symm ▸ hf, hfid.symm ▸ hmem, hfield.trans (congrArg some ?_)⟩
    split <;> rfl
  · rintro ⟨f, hf, hmem, hfield⟩
    have hupdate := f.updateMsgField_of_direct junk (hdirect f.fid hmem f hf) (useUpdate message)
    rw [hfield] at hupdate
    refine ⟨_, mem_callsFor.mpr ⟨f.fid, hmem, f, hf, hupdate⟩, ?_⟩
    split <;> rfl

theorem isDelta_of_deliverable (hrec : Recorded kinds h) (hdel : Deliverable h.cache message) :
    h.IsDelta message (h.cache.callsFor junk message
      (h.cache.alwaysPublishFields ++ h.cache.modifiedFields)) := by
  have hdirect := hdel.direct
  have hvalued := hdel.valued
  have hunique := hdel.distinct
  generalize hfids : h.cache.alwaysPublishFields ++ h.cache.modifiedFields = fids at hdirect hvalued hunique ⊢
  have hwanted : ∀ f, h.Wanted f ↔ h.cache.fields[f.fid]? = some f ∧ f.publish ∧ f.fid ∈ fids := by
    intro f
    constructor
    · exact fun hf => ⟨hf.cached, hfids ▸ (wanted_iff hrec hf.cached).mp hf⟩
    · exact fun hf => (wanted_iff hrec hf.1).mpr (hfids ▸ hf.2)
  have hwritten : ∀ field, (∃ call ∈ h.cache.callsFor junk message fids, call.field = field)
      ↔ ∃ f, h.Wanted f ∧ f.msgField? = some field := by
    intro _
    rw [written_iff hrec hdirect]
    constructor
    · rintro ⟨f, hf, hmem, hfield⟩
      have hdata : f.data ≠ none := fun hnone => by simp [Field.msgField?, hnone] at hfield
      exact ⟨f, (hwanted f).mpr ⟨hf, (hvalued f.fid hmem f hf).mpr hdata, hmem⟩, hfield⟩
    · rintro ⟨f, hf, hfield⟩
      obtain ⟨hcached, -, hmem⟩ := (hwanted f).mp hf
      exact ⟨f, hcached, hmem, hfield⟩
  have hdistinct : (((h.cache.callsFor junk message fids).foldl apply message).map (·.fid)).Nodup := by
    rw [nodup_foldl_apply_iff, filterMap_addedFid?_callsFor junk hrec hdirect]
    · exact hunique
    · intro f g hf hg hfid
      cases callsFor_inj hrec hf hg hfid.symm
  refine ⟨hdistinct, hwritten, fun f hf => ?_, fun fid hfid => ?_⟩
  · obtain ⟨hcached, hpublish, hmem⟩ := (hwanted f).mp hf
    obtain ⟨data, hdata⟩ := ne_none_iff_exists'.mp ((hvalued f.fid hmem f hcached).mp hpublish)
    have hfield : f.msgField? = some ⟨f.fid, f.type, data⟩ := by rw [Field.msgField?, hdata, map_some]
    obtain ⟨call, hcall, hwrites⟩ := (hwritten _).mpr ⟨f, hf, hfield⟩
    have hthere : call.field ∈ (h.cache.callsFor junk message fids).foldl apply message :=
      mem_foldl_apply hcall fun call' hcall' hsame => by rw [callsFor_inj hrec hcall' hcall hsame]
    rw [hwrites] at hthere
    exact ⟨_, hfield, lookup_of_mem hdistinct hthere⟩
  · refine lookup_foldl_apply_of_ne (fun call hcall heq => ?_) message
    obtain ⟨f, hf, hfield⟩ := (hwritten call.field).mp ⟨call, hcall, rfl⟩
    exact hfid f hf ((Field.fid_of_msgField? hfield).1.symm.trans heq)

theorem deliverable_of_isDelta (hrec : Recorded kinds h)
    (hdelta : h.IsDelta message (h.cache.callsFor junk message
      (h.cache.alwaysPublishFields ++ h.cache.modifiedFields))) : Deliverable h.cache message := by
  -- what a field of the lists writes is the value of a field that is to be written, which is that field
  have hwrites : ∀ fid ∈ h.cache.alwaysPublishFields ++ h.cache.modifiedFields, ∀ f call,
      h.cache.fields[fid]? = some f → f.updateMsgField junk (useUpdate message) = some call →
        h.Wanted f ∧ f.msgField? = some call.field := by
    intro fid hmem f call hf hcall
    obtain ⟨f', hf', hfield⟩ := (hdelta.written call.field).mp ⟨call, mem_callsFor.mpr ⟨fid, hmem, f, hf, hcall⟩, rfl⟩
    have hfid : f'.fid = fid := by
      rw [← (Field.fid_of_msgField? hfield).1, Field.fid_of_updateMsgField hcall, hrec.fid fid f hf]
    cases (hfid ▸ hf'.cached).symm.trans hf
    exact ⟨hf', hfield⟩
  have hdirect : ∀ fid ∈ h.cache.alwaysPublishFields ++ h.cache.modifiedFields, ∀ f,
      h.cache.fields[fid]? = some f → f.Direct := by
    intro fid hmem f hf
    by_contra hnot
    obtain ⟨call, hcall, -, htype⟩ := f.updateMsgField_of_not_direct junk hnot (useUpdate message)
    exact htype (Field.fid_of_msgField? (hwrites fid hmem f call hf hcall).2).2
  refine ⟨hdirect, fun fid hmem f hf => ⟨fun hpublish => ?_, fun hdata => ?_⟩, ?_⟩
  · obtain ⟨_, hfield, -⟩ := hdelta.valued f ((wanted_iff hrec hf).mpr ⟨hpublish, hmem⟩)
    exact fun hnone => by simp [Field.msgField?, hnone] at hfield
  · obtain ⟨_, hdata⟩ := ne_none_iff_exists'.mp hdata
    have hcall := f.updateMsgField_of_direct junk (hdirect fid hmem f hf) (useUpdate message)
    rw [Field.msgField?, hdata] at hcall
    exact (hwrites fid hmem f _ hf hcall).1.publish
  · rw [← filterMap_addedFid?_callsFor junk hrec hdirect, ← nodup_foldl_apply_iff]
    · exact hdelta.distinct
    · intro f g hf hg hfid
      cases callsFor_inj hrec hf hg hfid.symm

theorem isDelta_iff (junk : Data) (hrec : Recorded kinds h) (message : Msg) :
    h.IsDelta message (h.cache.getDeltaMessage junk message).2 ↔ Deliverable h.cache message := by
  rw [FieldCache.getDeltaMessage, if_pos hrec.track, callsFor, callsFor, ← filterMap_append]
  exact ⟨deliverable_of_isDelta hrec, isDelta_of_deliverable hrec⟩

section

variable (junk) (hs : Sound kinds h)
include hs

theorem Sound.along_applyField_iff {record : List Field} (hreg : ∀ f ∈ record, f.kind = kinds f.fid) :
    Along (History.applyField junk) (fun h f => Flagged (h.applyField junk f).cache) h record
      ↔ Along (History.applyField junk) Renews h record :=
  Along.congr_on (I := Sound kinds) hs (fun _ hs f hf => hs.flagged_applyField_iff junk (hreg f hf))
    (fun _ hs f hf hok => ⟨hs.applyField junk (hreg f hf), hok⟩)

theorem Sound.applyRecord {record : List Field} (hreg : ∀ f ∈ record, f.kind = kinds f.fid)
    (hkept : h.Kept junk (.applyRecord record)) : Sound kinds (h.step junk (.applyRecord record)) := by
  rw [step_applyRecord]
  induction record generalizing h with
  | nil => exact hs
  | cons f _ ih =>
    obtain ⟨hf, hrest⟩ := forall_mem_cons.mp hreg
    exact ih ⟨hs.applyField junk hf, hkept.1⟩ hrest hkept.2

theorem Sound.step {op : Op} (hreg : h.Regular kinds op) :
    (h.Kept junk op ↔ h.Fits junk op) ∧ (h.Kept junk op → Sound kinds (h.step junk op)) := by
  cases op with
  | applyField f => exact ⟨hs.flagged_applyField_iff junk hreg, fun hkept => ⟨hs.applyField junk hreg, hkept⟩⟩
  | applyMessage _ =>
    have hnext := hs.applyMessage junk hreg
    exact ⟨iff_true_intro hnext.flagged, fun _ => hnext⟩
  | applyRecord _ => exact ⟨hs.along_applyField_iff junk hreg, hs.applyRecord junk hreg⟩
  | setModified fid =>
    have hnext := hs.setModified junk fid
    exact ⟨iff_true_intro hnext.flagged, fun _ => hnext⟩
  | getDeltaMessage message =>
    have hnext := hs.getDeltaMessage junk message
    exact ⟨(and_iff_right hnext.flagged).trans (isDelta_iff junk hs.toRecorded message), fun _ => hnext⟩
  | clearModifiedFields =>
    have hnext := hs.clearModifiedFields junk
    exact ⟨iff_true_intro hnext.flagged, fun _ => hnext⟩

end

end History

end OpenMama.FieldCaches
