import OpenMama.FieldCache.Deltas

/-!
# Replicas of a field cache

A second cache applies the full message of a cache, and then each of its delta messages. What was sent last of a field
that is not in one of the lists is its value (`Synced`). Of a quantity another value is sent under another type, and a
value that is NULL is not sent at all. A replica that has received nothing but empty vectors of strings for a field has
one or none of them by turns.
-/

namespace OpenMama.FieldCaches

open FieldCache List Option OrderedMap MsgCall

/-! ### Values -/

namespace Field

def content (f : Field) : FieldType × Option Data := (f.type, f.data)

def Normal (f : Field) : Prop := ∀ data, f.data = some data → f.type.storage = .array → data.isEmpty = false

variable {f : Field}

theorem normal_blank (fid : Fid) (type : FieldType) : Normal { fid := fid, type := type } := by
  intro data hdata harray
  have hblank : type.blank = some data := hdata
  have hstorage : type.storage = .array := harray
  rw [FieldType.blank, hstorage] at hblank
  cases hblank

theorem Normal.set (h : f.Normal) (type : FieldType) (value : Option Data) : (f.set type value).Normal := by
  by_cases harray : f.type.storage = .array
  · unfold Field.set
    split
    case isFalse => exact h
    case isTrue htype =>
      rw [← htype, harray]
      cases value with
      | none => exact h
      | some data =>
        intro stored hstored _
        have hif : (if data.isEmpty then none else some data) = some stored := hstored
        split at hif
        · cases hif
        next hempty =>
          cases hif
          exact (Bool.not_eq_true _).mp hempty
  · obtain ⟨_, _, hset⟩ := f.set_eq type value
    rw [hset]
    exact fun _ _ h => absurd h harray

theorem Normal.copy {copied : Field} (h : copied.Normal) (junk : Data) (f : Field) : (f.copy junk copied).Normal := by
  unfold Field.copy
  split
  · exact h
  · exact Normal.set (f := { copied with
      isModified := f.isModified, publish := f.publish, checkModified := f.checkModified }) h _ _

/-- The value of a field that has been set to the values of a list, one after the other. Of empty vectors of pointers
every second one makes the array NULL. -/
def received (type : FieldType) (values : List Data) : Option Data :=
  if type.storage = .pointers ∧ (∀ data ∈ values, data.isEmpty = true) ∧ values.length % 2 = 0 then none
  else values.getLast?

/-- A field that was set to the values of a list, one after the other. -/
structure Holds (type : FieldType) (values : List Data) (f : Field) : Prop where
  type_eq : f.type = type
  data_eq : type.storage = .pointers ∨ values ≠ [] → f.data = received type values
  allocSize_eq_zero : type.storage = .pointers → (f.allocSize = 0 ↔ ∀ data ∈ values, data.isEmpty = true)

theorem holds_nil (fid : Fid) (type : FieldType) : Holds type [] { fid := fid, type := type } where
  type_eq := rfl
  data_eq h := by
    have hpointers := h.resolve_right (not_not.mpr rfl)
    have hblank : type.blank = none := by rw [FieldType.blank, hpointers]
    exact hblank.trans (if_pos ⟨hpointers, nofun, rfl⟩).symm
  allocSize_eq_zero _ := iff_of_true rfl nofun

variable {type : FieldType} {values : List Data} {data : Data}

theorem received_of_odd (h : values.length % 2 = 1) : received type values = values.getLast? := by
  rw [received, if_neg (by omega)]

theorem received_concat (h : type.storage = .pointers → data.isEmpty = true →
    ¬ (∀ d ∈ values, d.isEmpty = true) ∨ values.length % 2 = 0) :
    received type (values ++ [data]) = some data := by
  rw [received, if_neg, getLast?_concat]
  rintro ⟨hpointers, hall, heven⟩
  rw [length_append, length_singleton] at heven
  rcases h hpointers (hall data (by simp)) with hno | heven'
  · exact hno fun d hd => hall d (mem_append_left _ hd)
  · omega

theorem Holds.setVector (h : Holds type values f) (hpointers : type.storage = .pointers) (data : Data) :
    Holds type (values ++ [data]) (f.setVector data) := by
  have halloc := h.allocSize_eq_zero hpointers
  have hempty : data.isEmpty = true ↔ data.size = 0 := beq_iff_eq
  have hall : (∀ d ∈ values ++ [data], d.isEmpty = true) ↔ f.allocSize = 0 ∧ data.size = 0 := by
    rw [forall_mem_append, forall_mem_singleton, ← halloc, hempty]
  unfold Field.setVector
  split
  case isTrue hroom =>
    refine ⟨h.type_eq, fun _ => (received_concat fun _ _ => .inl ?_).symm, fun _ => ?_⟩
    · rw [← halloc]
      omega
    · rw [hall]
      exact iff_of_false (by change f.allocSize ≠ 0; omega) (by omega)
  case isFalse hroom =>
    refine ⟨h.type_eq, fun _ => ?_, fun _ => ?_⟩
    · cases hdata : data.isEmpty with
      | false => exact (received_concat fun _ he => absurd he (by simp [hdata])).symm
      | true =>
        have hnone : f.allocSize = 0 := by have := hempty.mp hdata; omega
        have hvalue := h.data_eq (.inl hpointers)
        rcases Nat.mod_two_eq_zero_or_one values.length with heven | hodd
        · have hf : f.data = none := hvalue.trans (if_pos ⟨hpointers, halloc.mp hnone, heven⟩)
          rw [hf]
          exact (received_concat fun _ _ => .inr heven).symm
        · have hf : f.data.isSome = true := by
            rw [hvalue, received_of_odd hodd, getLast?_isSome]
            exact ne_nil_of_length_pos (by omega)
          rw [hf]
          refine (if_pos ⟨hpointers, hall.mpr ⟨hnone, hempty.mp hdata⟩, ?_⟩).symm
          rw [length_append, length_singleton]
          omega
    · rw [hall]
      change data.size = 0 ↔ _
      omega

theorem Holds.set (h : Holds type values f) (data : Data) (hnormal : type.storage = .array → data.isEmpty = false) :
    Holds type (values ++ [data]) (f.set type (some data)) := by
  have hlast : type.storage ≠ .pointers → received type (values ++ [data]) = some data :=
    fun hno => received_concat fun hpointers => absurd hpointers hno
  unfold Field.set
  rw [if_pos h.type_eq]
  cases hst : type.storage with
  | pointers => exact h.setVector hst data
  | inPlace | string | object =>
    have hno : type.storage ≠ .pointers := by simp [hst]
    exact ⟨h.type_eq, fun _ => (hlast hno).symm, fun hpointers => absurd hpointers hno⟩
  | array =>
    have hno : type.storage ≠ .pointers := by simp [hst]
    dsimp only
    rw [hnormal hst]
    exact ⟨h.type_eq, fun _ => (hlast hno).symm, fun hpointers => absurd hpointers hno⟩

end Field

open FieldCaches.Field

/-- A field of a message that a replica takes as it is. -/
structure Carried (types : Fid → FieldType) (field : MsgField) : Prop where
  type : field.type = (types field.fid).accessor
  plain : field.type.isAddOnly = false
  normal : field.type.storage = .array → field.data.isEmpty = false

/-- The values of a field that were sent, in their order. -/
def valuesOf (log : Msg) (fid : Fid) : List Data := (log.filter (·.fid = fid)).map MsgField.data

/-- The cache holds what the fields of a log make of an empty one. -/
structure Mirror (types : Fid → FieldType) (log : Msg) (c : FieldCache) : Prop where
  absent : ∀ fid, valuesOf log fid = [] → c.fields[fid]? = none
  holds : ∀ fid, valuesOf log fid ≠ [] →
    ∃ f, c.fields[fid]? = some f ∧ f.Holds (types fid).accessor (valuesOf log fid)

variable {field : MsgField} {fid : Fid} {message log : Msg} {junk : Data} {fs : List Field}
  {types : Fid → FieldType} {c : FieldCache}

theorem FieldType.accessor_accessor (type : FieldType) : type.accessor.accessor = type.accessor := by
  cases type <;> rfl

theorem valuesOf_append (log message : Msg) (fid : Fid) :
    valuesOf (log ++ message) fid = valuesOf log fid ++ valuesOf message fid := by
  rw [valuesOf, filter_append, map_append]
  rfl

theorem valuesOf_eq_nil : valuesOf log fid = [] ↔ ∀ field ∈ log, field.fid ≠ fid := by
  simp [valuesOf]

theorem Mirror.applyMsgField (hm : Mirror types log c) (hfield : Carried types field) :
    Mirror types (log ++ [field]) (c.updateCacheFromMsgField field) := by
  have hkept : ∀ fid, fid ≠ field.fid → valuesOf (log ++ [field]) fid = valuesOf log fid
      ∧ (c.updateCacheFromMsgField field).fields[fid]? = c.fields[fid]? := by
    intro fid hne
    refine ⟨?_, by rw [updateCacheFromMsgField, OrderedMap.getElem?_insert, if_neg hne]⟩
    have hnil : valuesOf [field] fid = [] := valuesOf_eq_nil.mpr (by simpa using hne.symm)
    rw [valuesOf_append, hnil, append_nil]
  have hself : valuesOf (log ++ [field]) field.fid = valuesOf log field.fid ++ [field.data] := by
    rw [valuesOf_append]
    simp [valuesOf]
  constructor
  · intro fid hnil
    by_cases heq : fid = field.fid
    · rw [heq, hself] at hnil
      simp at hnil
    · rw [(hkept fid heq).1] at hnil
      rw [(hkept fid heq).2]
      exact hm.absent fid hnil
  · intro fid hne
    by_cases heq : fid = field.fid
    · cases heq
      obtain ⟨f, hf, hholds⟩ : ∃ f, f = c.fields[field.fid]?.getD { fid := field.fid, type := field.type }
          ∧ f.Holds (types field.fid).accessor (valuesOf log field.fid) := by
        by_cases hnil : valuesOf log field.fid = []
        · rw [hm.absent field.fid hnil, hnil, ← hfield.type]
          exact ⟨_, rfl, holds_nil _ _⟩
        · obtain ⟨f, hf, hholds⟩ := hm.holds field.fid hnil
          rw [hf]
          exact ⟨f, rfl, hholds⟩
      have haccessor : f.type.accessor = f.type := by rw [hholds.type_eq, FieldType.accessor_accessor]
      have hplain : f.type.isAddOnly = false := by rw [hholds.type_eq, ← hfield.type, hfield.plain]
      obtain ⟨m, hm⟩ : ∃ m, m = (c.trackModified && f.publish && !f.isModified || f.isModified) := ⟨_, rfl⟩
      have hmarked : Field.Holds (types field.fid).accessor (valuesOf log field.fid) { f with isModified := m } :=
        ⟨hholds.type_eq, hholds.data_eq, hholds.allocSize_eq_zero⟩
      rw [updateCacheFromMsgField, OrderedMap.getElem?_insert, if_pos rfl, ← hf, hself]
      dsimp only
      rw [hplain, haccessor, ← hm]
      refine ⟨_, rfl, ?_⟩
      have hset := hmarked.set field.data fun harray => hfield.normal (hfield.type ▸ harray)
      rw [hholds.type_eq] at hset ⊢
      exact hset
    · rw [(hkept fid heq).1] at hne ⊢
      rw [(hkept fid heq).2]
      exact hm.holds fid hne

theorem Mirror.applyMessage (hm : Mirror types log c) (hall : ∀ field ∈ message, Carried types field) :
    Mirror types (log ++ message) (c.applyMessage message) := by
  induction message generalizing log c with
  | nil => rwa [append_nil]
  | cons field message ih =>
    obtain ⟨hfield, hrest⟩ := forall_mem_cons.mp hall
    have hnext := ih (hm.applyMsgField hfield) hrest
    rwa [append_assoc, singleton_append] at hnext

def sent (junk : Data) (fs : List Field) : Msg := (fs.filterMap (·.updateMsgField junk false)).map MsgCall.field

theorem mem_sent :
    field ∈ sent junk fs ↔ ∃ f ∈ fs, ∃ call, f.updateMsgField junk false = some call ∧ call.field = field := by
  simp only [sent, List.mem_map, mem_filterMap]
  constructor
  · rintro ⟨call, ⟨f, hf, hcall⟩, hfield⟩
    exact ⟨f, hf, call, hcall, hfield⟩
  · rintro ⟨f, hf, call, hcall, hfield⟩
    exact ⟨call, ⟨f, hf, hcall⟩, hfield⟩

theorem foldl_apply_of_add {calls : List MsgCall} (h : ∀ call ∈ calls, ∃ f, call = .add f) (message : Msg) :
    calls.foldl MsgCall.apply message = message ++ calls.map MsgCall.field := by
  induction calls generalizing message with
  | nil => simp
  | cons _ _ ih =>
    obtain ⟨⟨f, rfl⟩, hrest⟩ := forall_mem_cons.mp h
    rw [foldl_cons, ih hrest, apply, append_assoc]
    rfl

theorem foldl_apply_filterMap (junk : Data) (fs : List Field) :
    (fs.filterMap (·.updateMsgField junk false)).foldl apply [] = sent junk fs := by
  rw [foldl_apply_of_add, nil_append, sent]
  intro _ hcall
  obtain ⟨f, -, hf⟩ := mem_filterMap.mp hcall
  obtain ⟨_, -, rfl⟩ := map_eq_some_iff.mp hf
  exact ⟨_, rfl⟩

theorem foldl_apply_getDeltaMessage (junk : Data) (htrack : c.trackModified) :
    (c.getDeltaMessage junk []).2.foldl apply []
      = sent junk ((c.alwaysPublishFields ++ c.modifiedFields).filterMap fun fid => c.fields[fid]?) := by
  have hcalls : (c.getDeltaMessage junk []).2
      = ((c.alwaysPublishFields ++ c.modifiedFields).filterMap fun fid => c.fields[fid]?).filterMap
        (·.updateMsgField junk false) := by
    rw [getDeltaMessage, if_pos htrack, filterMap_filterMap, filterMap_append]
    rfl
  rw [hcalls, foldl_apply_filterMap]

/-! ### The source -/

def FieldCache.listed (c : FieldCache) : List Fid := c.alwaysPublishFields ++ c.modifiedFields

/-- A cache whose fields are published, and whose modified ones are listed. -/
structure Sender (types : Fid → FieldType) (c : FieldCache) : Prop where
  track : c.trackModified = true
  fid : ∀ fid (f : Field), c.fields[fid]? = some f → f.fid = fid
  type : ∀ fid (f : Field), c.fields[fid]? = some f → f.type = types fid
  publish : ∀ (fid : Fid) (f : Field), c.fields[fid]? = some f → f.publish = true
  normal : ∀ (fid : Fid) (f : Field), c.fields[fid]? = some f → f.Normal
  flagged : ∀ fid (f : Field), c.fields[fid]? = some f → f.isModified = true → fid ∈ c.listed
  present : ∀ fid ∈ c.listed, c.fields[fid]? ≠ none

structure Touches (fid : Fid) (c c' : FieldCache) : Prop where
  listed : fid ∈ c'.listed
  kept : ∀ g ∈ c.listed, g ∈ c'.listed
  rest : ∀ g, g ≠ fid → c'.fields[g]? = c.fields[g]?

theorem Sender.insert (hs : Sender types c) {f : Field} (hfid : f.fid = fid)
    (htype : f.type = types fid) (hpublish : f.publish) (hnormal : f.Normal) {always modified : List Fid}
    (hlisted : ∀ g, g ∈ always ++ modified ↔ g = fid ∨ g ∈ c.listed) {c' : FieldCache}
    (hc' : c' = { c with
      alwaysPublishFields := always
      modifiedFields := modified
      fields := c.fields.insert fid f }) : Sender types c' ∧ Touches fid c c' := by
  cases hc'
  refine ⟨⟨hs.track, ?_, ?_, ?_, ?_, ?_, ?_⟩, (hlisted fid).mpr (.inl rfl),
    fun g hg => (hlisted g).mpr (.inr hg), fun g hg => ?_⟩
  · exact forall_insert (fun g (field : Field) => field.fid = g) hfid hs.fid
  · exact forall_insert (fun g (field : Field) => field.type = types g) htype hs.type
  · exact forall_insert (fun _ (field : Field) => field.publish) hpublish hs.publish
  · exact forall_insert (fun _ (field : Field) => field.Normal) hnormal hs.normal
  · exact forall_insert (fun g (field : Field) => field.isModified → g ∈ always ++ modified)
      (fun _ => (hlisted fid).mpr (.inl rfl))
      (fun g field hg hm => (hlisted g).mpr (.inr (hs.flagged g field hg hm)))
  · intro g hg
    rw [OrderedMap.getElem?_insert]
    rcases (hlisted g).mp hg with heq | hg
    · rw [if_pos heq]
      exact some_ne_none f
    · split
      · exact some_ne_none f
      · exact hs.present g hg
  · rw [OrderedMap.getElem?_insert, if_neg hg]

inductive Feed where
  | applyField (f : Field)
  | applyMessage (message : Msg)
  | getDeltaMessage
deriving DecidableEq

def FieldCache.feed (junk : Data) (c : FieldCache) : Feed → FieldCache
  | .applyField f => c.applyField junk f
  | .applyMessage message => c.applyMessage message
  | .getDeltaMessage => (c.getDeltaMessage junk []).1

def Feed.Admits (types : Fid → FieldType) : Feed → Prop
  | .applyField f => f.publish = true ∧ f.type = types f.fid
  | .applyMessage message => ∀ field ∈ message, field.type = types field.fid
  | .getDeltaMessage => True

instance (types : Fid → FieldType) : (feed : Feed) → Decidable (feed.Admits types)
  | .applyField f => inferInstanceAs (Decidable (f.publish = true ∧ f.type = types f.fid))
  | .applyMessage message => inferInstanceAs (Decidable (∀ field ∈ message, field.type = types field.fid))
  | .getDeltaMessage => isTrue trivial

def Covers (c : FieldCache) : Feed → Prop
  | .applyField f => f.checkModified = true ∨ c.fields[f.fid]? = none ∨ f.fid ∈ c.listed
  | .applyMessage _ | .getDeltaMessage => True

instance (c : FieldCache) : (feed : Feed) → Decidable (Covers c feed)
  | .applyField f => inferInstanceAs
      (Decidable (f.checkModified = true ∨ c.fields[f.fid]? = none ∨ f.fid ∈ c.listed))
  | .applyMessage _ => isTrue trivial
  | .getDeltaMessage => isTrue trivial

theorem mem_extended_iff {always modified : List Fid} {a b : Bool} (h : a ∨ b ∨ fid ∈ always ++ modified)
    (g : Fid) :
    (g ∈ (if a then always ++ [fid] else always)
      ++ if b then modified ++ [fid] else modified) ↔ g = fid ∨ g ∈ always ++ modified := by
  cases a <;> cases b <;> grind

theorem Sender.applyField (junk : Data) (hs : Sender types c) {f : Field} (hpublish : f.publish)
    (htype : f.type = types f.fid) (hcovers : Covers c (.applyField f)) :
    Sender types (c.applyField junk f) ∧ Touches f.fid c (c.applyField junk f) := by
  have hcached : ∀ cached, c.fields[f.fid]? = some cached → cached.fid = f.fid ∧ cached.type = f.type :=
    fun cached hc => ⟨hs.fid _ cached hc, (hs.type _ cached hc).trans htype.symm⟩
  obtain ⟨data, n, hcopy, happly⟩ := applyField_eq junk hcached
  have hnormal : Field.Normal { f with data := data, allocSize := n } := by
    rw [← hcopy]
    refine Field.Normal.copy ?_ junk f
    cases hc : c.fields[f.fid]? with
    | none => exact normal_blank f.fid f.type
    | some cached => exact hs.normal _ cached hc
  refine hs.insert (f := { f with isModified := c.marks f || f.isModified, data := data, allocSize := n }) rfl htype
    hpublish hnormal (mem_extended_iff ?_) happly
  rw [marks, hpublish, hs.track]
  rcases hcovers with hcheck | hnone | hlisted
  · cases hc : c.fields[f.fid]? with
    | none => exact .inr (.inl (by simp [hcheck]))
    | some cached =>
      cases hm : cached.isModified with
      | false => exact .inr (.inl (by simp [hcheck, hm]))
      | true => exact .inr (.inr (hs.flagged f.fid cached hc hm))
  · cases hcheck : f.checkModified with
    | false => exact .inl (by simp [hnone])
    | true => exact .inr (.inl (by simp [hnone]))
  · exact .inr (.inr hlisted)

theorem Sender.applyMsgField (hs : Sender types c) (htype : field.type = types field.fid) :
    Sender types (c.updateCacheFromMsgField field)
      ∧ Touches field.fid c (c.updateCacheFromMsgField field) := by
  obtain ⟨f, hf⟩ : ∃ f, f = c.fields[field.fid]?.getD { fid := field.fid, type := field.type } := ⟨_, rfl⟩
  obtain ⟨m, hm⟩ : ∃ m, m = (c.trackModified && f.publish && !f.isModified) := ⟨_, rfl⟩
  have hspec : f.fid = field.fid ∧ f.type = types field.fid ∧ f.publish ∧ f.Normal
      ∧ (m ∨ field.fid ∈ c.listed) := by
    cases hc : c.fields[field.fid]? with
    | none =>
      rw [hc] at hf
      cases hf
      exact ⟨rfl, htype, rfl, normal_blank _ _, .inl (by simp [hm, hs.track])⟩
    | some _ =>
      rw [hc, getD_some] at hf
      cases hf
      have hpublish := hs.publish _ f hc
      refine ⟨hs.fid _ f hc, hs.type _ f hc, hpublish, hs.normal _ f hc, ?_⟩
      cases hflag : f.isModified with
      | false => exact .inl (by simp [hm, hs.track, hpublish, hflag])
      | true => exact .inr (hs.flagged _ f hc hflag)
  obtain ⟨hfid, hftype, hpublish, hnormal, hlisted⟩ := hspec
  obtain ⟨data, n, hdata, hupdate⟩ := updateCacheFromMsgField_eq c field hf hm
  have hnormal' : Field.Normal { f with isModified := m || f.isModified, data := data, allocSize := n } := by
    rcases hdata with hdata | hset
    · exact hdata ▸ hnormal
    · rw [← hset]
      exact Field.Normal.set (f := { f with isModified := m || f.isModified }) hnormal _ _
  exact hs.insert (f := { f with isModified := m || f.isModified, data := data, allocSize := n }) hfid hftype hpublish
    hnormal' (mem_extended_iff (a := false) (.inr hlisted)) hupdate

theorem Sender.applyMessage (hs : Sender types c) (hall : ∀ field ∈ message, field.type = types field.fid) :
    Sender types (c.applyMessage message) :=
  foldlRecOn message _ hs fun _ hs field hmem => (hs.applyMsgField (hall field hmem)).1

theorem Sender.getDeltaMessage (junk : Data) (hs : Sender types c) : Sender types (c.getDeltaMessage junk []).1 := by
  have hfrom : ∀ fid (f : Field), (c.listed.foldl unmark c.fields)[fid]? = some f →
      ∃ g, c.fields[fid]? = some g ∧ f = if fid ∈ c.listed then { g with isModified := false } else g := by
    intro _ f hf
    obtain ⟨g, hg, hfg⟩ := map_eq_some_iff.mp ((getElem?_foldl_unmark ..).symm.trans hf)
    exact ⟨g, hg, hfg.symm⟩
  have hkeep {p : Fid → Field → Prop} (hp : ∀ fid f, c.fields[fid]? = some f → p fid f)
      (hmark : ∀ fid f, p fid f → p fid { f with isModified := false }) fid f
      (hf : (c.listed.foldl unmark c.fields)[fid]? = some f) : p fid f := by
    obtain ⟨g, hg, rfl⟩ := hfrom fid f hf
    split
    · exact hmark fid g (hp fid g hg)
    · exact hp fid g hg
  rw [FieldCache.getDeltaMessage, if_pos hs.track]
  refine ⟨hs.track, hkeep hs.fid fun _ _ h => h, hkeep hs.type fun _ _ h => h, hkeep hs.publish fun _ _ h => h,
    hkeep hs.normal fun _ _ h => h, ?_, ?_⟩
  · intro fid f hf hmodified
    obtain ⟨g, hg, rfl⟩ := hfrom fid f hf
    split at hmodified
    case isTrue => cases hmodified
    case isFalse hno => exact absurd (hs.flagged fid g hg hmodified) hno
  · intro fid hfid hnone
    have halways : fid ∈ c.listed := mem_append_left _ (by simpa [listed] using hfid)
    apply hs.present fid halways
    exact map_eq_none_iff.mp ((getElem?_foldl_unmark ..).symm.trans hnone)

/-! ### Source and replica -/

theorem Sender.carried (hs : Sender types c) (hplain : ∀ fid, (types fid).isAddOnly = false)
    (hfs : ∀ f ∈ fs, c.fields[f.fid]? = some f) (hfield : field ∈ sent junk fs) : Carried types field := by
  obtain ⟨f, hf, _, hcall, rfl⟩ := mem_sent.mp hfield
  obtain ⟨data, hget, rfl⟩ := map_eq_some_iff.mp hcall
  have hcached := hfs f hf
  have htype := hs.type f.fid f hcached
  refine ⟨congrArg FieldType.accessor htype, ?_, fun harray => ?_⟩
  · have haccessor : f.type.accessor.isAddOnly = f.type.isAddOnly := by cases f.type <;> rfl
    exact haccessor.trans (htype ▸ hplain f.fid)
  · have harray' : f.type.accessor.storage = .array := harray
    have hdirect : f.Direct := by
      intro hquantity
      rw [hquantity] at harray'
      cases harray'
    rw [get?, hdirect.accessor_eq, if_pos rfl] at hget
    exact hs.normal f.fid f hcached data hget (hdirect.accessor_eq ▸ harray')

theorem eq_some_of_mem_valuesOf_sent (hfs : ∀ f ∈ fs, c.fields[f.fid]? = some f) {f : Field}
    (hf : c.fields[fid]? = some f) (hdirect : f.Direct) {data : Data} (hdata : data ∈ valuesOf (sent junk fs) fid) :
    f.data = some data := by
  obtain ⟨field, hfield, rfl⟩ := List.mem_map.mp hdata
  obtain ⟨hmem, hfid⟩ := mem_filter.mp hfield
  obtain ⟨g, hg, call, hcall, rfl⟩ := mem_sent.mp hmem
  have hsame : g.fid = fid := (fid_of_updateMsgField hcall).symm.trans (of_decide_eq_true hfid)
  cases (hsame ▸ hfs g hg).symm.trans hf
  rw [updateMsgField_of_direct junk hdirect, msgField?, Option.map_map, map_eq_some_iff] at hcall
  obtain ⟨data, hvalue, rfl⟩ := hcall
  exact hvalue

/-- The last value that was sent of a listed field is its value. -/
theorem getLast?_valuesOf_sent (hfs : ∀ f ∈ fs, c.fields[f.fid]? = some f) {f : Field} (hf : f ∈ fs)
    (hdirect : f.Direct) (hvalued : f.data ≠ none) (before : List Data) :
    (before ++ valuesOf (sent junk fs) f.fid).getLast? = f.data := by
  obtain ⟨data, hdata⟩ := ne_none_iff_exists'.mp hvalued
  have hcall := f.updateMsgField_of_direct junk hdirect false
  rw [msgField?, hdata, map_some, map_some, Bool.false_and] at hcall
  have hmem : data ∈ valuesOf (sent junk fs) f.fid :=
    List.mem_map.mpr ⟨⟨f.fid, f.type, data⟩, mem_filter.mpr ⟨mem_sent.mpr ⟨f, hf, _, hcall, rfl⟩, by simp⟩, rfl⟩
  cases hlast : (valuesOf (sent junk fs) f.fid).getLast? with
  | none =>
    rw [getLast?_eq_none_iff.mp hlast] at hmem
    cases hmem
  | some last =>
    rw [getLast?_append, hlast, some_or]
    exact (eq_some_of_mem_valuesOf_sent hfs (hfs f hf) hdirect (mem_of_getLast? hlast)).symm

theorem valuesOf_sent_of_not_mem (h : ∀ f ∈ fs, f.fid ≠ fid) : valuesOf (sent junk fs) fid = [] := by
  refine valuesOf_eq_nil.mpr fun field hfield hfid => ?_
  obtain ⟨f, hf, _, hcall, rfl⟩ := mem_sent.mp hfield
  exact h f hf ((fid_of_updateMsgField hcall).symm.trans hfid)

theorem length_valuesOf_sent_le (junk : Data) (fid : Fid) (h : (fs.map Field.fid).Nodup) : (valuesOf (sent junk fs) fid).length ≤ 1 := by
  have hsub : (sent junk fs).map MsgField.fid <+ fs.map Field.fid := by
    clear h
    induction fs with
    | nil => exact .slnil
    | cons f fs ih =>
      cases hcall : f.updateMsgField junk false with
      | none => simpa [sent, hcall] using ih.cons f.fid
      | some call =>
        have hfid := fid_of_updateMsgField hcall
        simpa [sent, hcall, hfid] using ih.cons_cons f.fid
  have hcount := nodup_iff_count_le_one.mp (h.sublist hsub) fid
  rw [count_eq_countP, countP_map, countP_eq_length_filter] at hcount
  rw [valuesOf, length_map]
  exact hcount

/-- A source, a replica, and all the fields that the source has sent to it. -/
structure Pair where
  source : FieldCache
  replica : FieldCache
  log : Msg

namespace Pair

variable {p : Pair}

def start (junk : Data) (c : FieldCache) : Pair :=
  { source := c
    replica := applyMessage {} ((c.getFullMessage junk []).foldl apply [])
    log := (c.getFullMessage junk []).foldl apply [] }

def step (junk : Data) (p : Pair) (feed : Feed) : Pair :=
  match feed with
  | .getDeltaMessage =>
    let message := (p.source.getDeltaMessage junk []).2.foldl apply []
    { source := p.source.feed junk feed
      replica := p.replica.applyMessage message
      log := p.log ++ message }
  | .applyField _ | .applyMessage _ => { p with source := p.source.feed junk feed }

def Same (p : Pair) : Prop :=
  ∀ fid : Fid, p.source.fields[fid]?.map content = p.replica.fields[fid]?.map content

/-- What was sent last of a field that is not listed is its value. -/
structure Synced (types : Fid → FieldType) (p : Pair) : Prop where
  sender : Sender types p.source
  mirror : Mirror types p.log p.replica
  absent : ∀ fid : Fid, p.source.fields[fid]? = none → valuesOf p.log fid = []
  last : ∀ fid (f : Field), p.source.fields[fid]? = some f → fid ∉ p.source.listed → f.Direct →
    f.data ≠ none → (valuesOf p.log fid).getLast? = f.data
  valued : ∀ (fid : Fid) (f : Field), p.replica.fields[fid]? = some f → f.data ≠ none

/-- A vector of strings that is empty, and was sent so again and again, arrives every second time. -/
def Arrives (log : Msg) (f : Field) : Prop :=
  f.type.storage = .pointers → f.data.all (·.isEmpty) = true →
    (valuesOf log f.fid).length % 2 = 1 ∨ ∃ data ∈ valuesOf log f.fid, data.isEmpty = false

instance (log : Msg) (f : Field) : Decidable (Arrives log f) :=
  inferInstanceAs (Decidable (_ → _ → _ ∨ _))

theorem synced_start (junk : Data) (hs : Sender types c) (hplain : ∀ fid, (types fid).isAddOnly = false) :
    Synced types (start junk c) := by
  have hfs : ∀ f ∈ (iterate c.fields).filter (·.publish), c.fields[f.fid]? = some f := by
    intro f hf
    obtain ⟨fid, hfid⟩ := mem_iterate.mp (mem_of_mem_filter hf)
    exact (hs.fid fid f hfid).symm ▸ hfid
  have hempty : Mirror types [] {} := ⟨by simp, fun fid h => absurd rfl h⟩
  have hmirror : Mirror types (sent junk ((iterate c.fields).filter (·.publish))) _ :=
    hempty.applyMessage fun _ => hs.carried hplain hfs
  rw [start, getFullMessage, show useUpdate [] = false from rfl, foldl_apply_filterMap]
  refine ⟨hs, hmirror, fun fid hnone => ?_, fun fid f hf _ hdirect hvalued => ?_, fun fid r hr hnone => ?_⟩
  · refine valuesOf_sent_of_not_mem fun f hf hfid => ?_
    exact some_ne_none f ((hfs f hf).symm.trans (hfid ▸ hnone))
  · have hfid := hs.fid fid f hf
    have hmem := mem_filter.mpr ⟨mem_iterate.mpr ⟨fid, hf⟩, hs.publish fid f hf⟩
    exact hfid ▸ getLast?_valuesOf_sent hfs hmem hdirect hvalued []
  · -- each field is sent once
    have hne : valuesOf (sent junk ((iterate c.fields).filter (·.publish))) fid ≠ [] := fun hnil => by
      cases hr.symm.trans (hmirror.absent fid hnil)
    obtain ⟨r', hr', hholds⟩ := hmirror.holds fid hne
    cases hr.symm.trans hr'
    have hdata := hholds.data_eq (.inr hne)
    have hnodup : (((iterate c.fields).filter (·.publish)).map Field.fid).Nodup :=
      (nodup_map_iterate hs.fid).sublist (filter_sublist.map _)
    have hle := length_valuesOf_sent_le junk fid hnodup
    have hpos := length_pos_iff.mpr hne
    have hodd : (valuesOf (sent junk ((iterate c.fields).filter (·.publish))) fid).length % 2 = 1 := by omega
    exact hne (getLast?_eq_none_iff.mp ((hnone.symm.trans (hdata.trans (received_of_odd hodd))).symm))

theorem Synced.touches (h : Synced types p) {c' : FieldCache} (hs : Sender types c')
    (htouches : Touches fid p.source c') : Synced types { p with source := c' } where
  sender := hs
  mirror := h.mirror
  absent := by
    intro g hg
    by_cases heq : g = fid
    · exact absurd hg (hs.present g (heq ▸ htouches.listed))
    · exact h.absent g ((htouches.rest g heq).symm.trans hg)
  last := by
    intro g f hg hno
    have hne : g ≠ fid := fun heq => hno (heq ▸ htouches.listed)
    exact h.last g f ((htouches.rest g hne).symm.trans hg) fun hmem => hno (htouches.kept g hmem)
  valued := h.valued

theorem Synced.applyMessage (h : Synced types p) (hall : ∀ field ∈ message, field.type = types field.fid) :
    Synced types { p with source := p.source.applyMessage message } := by
  induction message generalizing p with
  | nil => exact h
  | cons _ _ ih =>
    obtain ⟨hfield, hrest⟩ := forall_mem_cons.mp hall
    obtain ⟨hs, htouches⟩ := h.sender.applyMsgField hfield
    exact ih (h.touches hs htouches) hrest

theorem content_getDeltaMessage (junk : Data) (hs : Sender types c) (fid : Fid) :
    (c.getDeltaMessage junk []).1.fields[fid]?.map content = c.fields[fid]?.map content := by
  rw [FieldCache.getDeltaMessage, if_pos hs.track]
  refine (congrArg (Option.map content) (getElem?_foldl_unmark ..)).trans ?_
  rw [Option.map_map]
  congr 1
  funext f
  exact (apply_ite content _ _ _).trans (ite_self _)

section

variable (junk) (h : Synced types p)
include h

theorem Synced.getDeltaMessage (hplain : ∀ fid, (types fid).isAddOnly = false) :
    let p' := p.step junk .getDeltaMessage
    Mirror types p'.log p'.replica
      ∧ (∀ fid : Fid, p.source.fields[fid]? = none → valuesOf p'.log fid = [])
      ∧ (∀ (fid : Fid) (f : Field), p.source.fields[fid]? = some f → f.Direct → f.data ≠ none →
        (valuesOf p'.log fid).getLast? = f.data)
      ∧ ∀ (fid : Fid) (f : Field), p.source.fields[fid]? = some f → f.Direct → f.data = none →
        valuesOf p'.log fid = valuesOf p.log fid := by
  have hs := h.sender
  let fs := p.source.listed.filterMap fun fid => p.source.fields[fid]?
  have hsent : (p.source.getDeltaMessage junk []).2.foldl apply [] = sent junk fs :=
    foldl_apply_getDeltaMessage junk hs.track
  have hmem : ∀ f, f ∈ fs ↔ p.source.fields[f.fid]? = some f ∧ f.fid ∈ p.source.listed := by
    intro f
    rw [mem_filterMap]
    constructor
    · rintro ⟨fid, hlisted, hf⟩
      cases hs.fid fid f hf
      exact ⟨hf, hlisted⟩
    · exact fun hf => ⟨f.fid, hf.2, hf.1⟩
  have hcached : ∀ f ∈ fs, p.source.fields[f.fid]? = some f := fun f hf => ((hmem f).mp hf).1
  have hother : ∀ fid ∉ p.source.listed, valuesOf (sent junk fs) fid = [] := fun fid hfid =>
    valuesOf_sent_of_not_mem fun f hf heq => hfid (heq ▸ ((hmem f).mp hf).2)
  dsimp only [Pair.step]
  simp only [hsent, valuesOf_append]
  refine ⟨h.mirror.applyMessage fun _ => hs.carried hplain hcached, fun fid hnone => ?_,
    fun fid f hf hdirect hvalued => ?_, fun fid f hf hdirect hnone => ?_⟩
  · rw [h.absent fid hnone, hother fid fun hfid => hs.present fid hfid hnone, append_nil]
  · by_cases hfid : fid ∈ p.source.listed
    · cases hs.fid fid f hf
      exact getLast?_valuesOf_sent hcached ((hmem f).mpr ⟨hf, hfid⟩) hdirect hvalued _
    · rw [hother fid hfid, append_nil]
      exact h.last fid f hf hfid hdirect hvalued
  · have hnil : valuesOf (sent junk fs) fid = [] := by
      refine eq_nil_iff_forall_not_mem.mpr fun data hdata => ?_
      exact some_ne_none data ((eq_some_of_mem_valuesOf_sent hcached hf hdirect hdata).symm.trans hnone)
    rw [hnil, append_nil]

theorem Synced.same_iff (hplain : ∀ fid, (types fid).isAddOnly = false) :
    (p.step junk .getDeltaMessage).Same
      ↔ ∀ (fid : Fid) (f : Field), p.source.fields[fid]? = some f →
        f.Direct ∧ f.data ≠ none ∧ Arrives (p.step junk .getDeltaMessage).log f := by
  obtain ⟨hmirror, habsent, hlast, hunsent⟩ := h.getDeltaMessage junk hplain
  have hcontent : ∀ fid : Fid, (p.step junk .getDeltaMessage).source.fields[fid]?.map content
      = p.source.fields[fid]?.map content := content_getDeltaMessage junk h.sender
  constructor
  · intro hsame fid f hf
    have hreplica := ((hsame fid).symm.trans (hcontent fid)).trans (congrArg (Option.map content) hf)
    obtain ⟨r, hr, hrf⟩ := map_eq_some_iff.mp hreplica
    have htype : r.type = f.type := congrArg Prod.fst hrf
    have hdata : r.data = f.data := congrArg Prod.snd hrf
    have hne : valuesOf (p.step junk .getDeltaMessage).log fid ≠ [] := fun hnil => by
      cases hr.symm.trans (hmirror.absent fid hnil)
    obtain ⟨r', hr', hholds⟩ := hmirror.holds fid hne
    cases hr.symm.trans hr'
    have hvalue := hholds.data_eq (.inr hne)
    have hdirect : f.Direct := by
      -- the replica knows a quantity as a number of its own type
      intro hquantity
      have haccessor := hholds.type_eq.symm.trans htype
      rw [← h.sender.type fid f hf, hquantity] at haccessor
      cases haccessor
    have hvalued : f.data ≠ none := by
      intro hnone
      rw [hunsent fid f hf hdirect hnone] at hne hvalue
      obtain ⟨r₀, hr₀, hholds₀⟩ := h.mirror.holds fid hne
      exact h.valued fid r₀ hr₀ ((hholds₀.data_eq (.inr hne)).trans (hvalue.symm.trans (hdata.trans hnone)))
    refine ⟨hdirect, hvalued, fun hpointers _ => ?_⟩
    by_contra hno
    simp only [not_or, not_exists, not_and, Bool.not_eq_false, h.sender.fid fid f hf] at hno
    refine hvalued (hdata.symm.trans (hvalue.trans (if_pos ⟨?_, hno.2, by omega⟩)))
    rw [← hholds.type_eq, htype]
    exact hpointers
  · intro hall fid
    apply (hcontent fid).trans
    cases hf : p.source.fields[fid]? with
    | none => rw [hmirror.absent fid (habsent fid hf)]
    | some f =>
      obtain ⟨hdirect, hvalued, harrives⟩ := hall fid f hf
      have hvalue := hlast fid f hf hdirect hvalued
      have hne : valuesOf (p.step junk .getDeltaMessage).log fid ≠ [] := fun hnil => by
        rw [hnil] at hvalue
        exact hvalued hvalue.symm
      obtain ⟨r, hr, hholds⟩ := hmirror.holds fid hne
      have htype : r.type = f.type := by
        rw [hholds.type_eq, ← h.sender.type fid f hf, hdirect.accessor_eq]
      rw [hr, map_some, map_some, content, content, htype, hholds.data_eq (.inr hne), received,
        if_neg, hvalue]
      rintro ⟨hpointers, hempty, heven⟩
      obtain ⟨data, hdata⟩ := ne_none_iff_exists'.mp hvalued
      have hlastEmpty := hempty data (mem_of_getLast? (hvalue.trans hdata))
      rw [← hholds.type_eq, htype] at hpointers
      rcases harrives hpointers (by simpa [hdata] using hlastEmpty) with hodd | ⟨other, hmem, hother⟩
      · rw [h.sender.fid fid f hf] at hodd
        omega
      · rw [h.sender.fid fid f hf] at hmem
        cases (hempty other hmem).symm.trans hother

theorem Synced.delta (hplain : ∀ fid, (types fid).isAddOnly = false)
    (hsame : (p.step junk .getDeltaMessage).Same) : Synced types (p.step junk .getDeltaMessage) := by
  obtain ⟨hmirror, habsent, hlast, -⟩ := h.getDeltaMessage junk hplain
  have hcontent : ∀ fid : Fid, (p.step junk .getDeltaMessage).source.fields[fid]?.map content
      = p.source.fields[fid]?.map content := content_getDeltaMessage junk h.sender
  have hvalued := (h.same_iff junk hplain).mp hsame
  have hfrom : ∀ (fid : Fid) (f : Field), (p.step junk .getDeltaMessage).source.fields[fid]? = some f →
      ∃ g : Field, p.source.fields[fid]? = some g ∧ g.type = f.type ∧ g.data = f.data := by
    intro fid f hf
    obtain ⟨g, hg, hgf⟩ := map_eq_some_iff.mp ((hcontent fid).symm.trans (congrArg (Option.map content) hf))
    exact ⟨g, hg, congrArg Prod.fst hgf, congrArg Prod.snd hgf⟩
  refine ⟨h.sender.getDeltaMessage junk, hmirror, fun fid hnone => habsent fid ?_,
    fun fid f hf _ hdirect hdata => ?_, fun fid r hr => ?_⟩
  · exact map_eq_none_iff.mp ((hcontent fid).symm.trans (congrArg (Option.map content) hnone))
  · obtain ⟨g, hg, htype, hgdata⟩ := hfrom fid f hf
    rw [← hgdata]
    exact hlast fid g hg (fun hquantity => hdirect (htype ▸ hquantity)) (fun hnone => hdata (hgdata ▸ hnone))
  · obtain ⟨f, hf, hcontent'⟩ := map_eq_some_iff.mp ((hsame fid).trans (congrArg (Option.map content) hr))
    obtain ⟨g, hg, -, hgdata⟩ := hfrom fid f hf
    have hdata : f.data = r.data := congrArg Prod.snd hcontent'
    rw [← hdata, ← hgdata]
    exact (hvalued fid g hg).2.1

end

variable (junk) in
def Replicates (p : Pair) : Feed → Prop
  | .getDeltaMessage => (p.step junk .getDeltaMessage).Same
  | .applyField _ | .applyMessage _ => True

/-- When a delta is sent, no field of the source is a quantity or without a value, and an empty vector of strings
arrives: it was not always empty when it was sent, or was sent an odd number of times. -/
def Sendable (junk : Data) (p : Pair) : Feed → Prop
  | .getDeltaMessage => ∀ (fid : Fid) (f : Field), p.source.fields[fid]? = some f →
      f.Direct ∧ f.data ≠ none ∧ Arrives (p.step junk .getDeltaMessage).log f
  | .applyField _ | .applyMessage _ => True

instance (junk : Data) (p : Pair) : (feed : Feed) → Decidable (Sendable junk p feed)
  | .getDeltaMessage =>
    decidable_of_iff (∀ f ∈ iterate p.source.fields,
        f.Direct ∧ f.data ≠ none ∧ Arrives (p.step junk .getDeltaMessage).log f)
      ⟨fun h fid f hf => h f (mem_iterate.mpr ⟨fid, hf⟩),
        fun h f hf => (mem_iterate.mp hf).elim fun fid hfid => h fid f hfid⟩
  | .applyField _ => isTrue trivial
  | .applyMessage _ => isTrue trivial

theorem Synced.step (junk : Data) (h : Synced types p) (hplain : ∀ fid, (types fid).isAddOnly = false) {feed : Feed}
    (hadmits : feed.Admits types) (hcovers : Covers p.source feed) :
    (p.Replicates junk feed ↔ p.Sendable junk feed)
      ∧ (p.Replicates junk feed → Synced types (p.step junk feed)) := by
  cases feed with
  | applyField f =>
    obtain ⟨hs, htouches⟩ := h.sender.applyField junk hadmits.1 hadmits.2 hcovers
    exact ⟨Iff.rfl, fun _ => h.touches hs htouches⟩
  | applyMessage _ => exact ⟨Iff.rfl, fun _ => h.applyMessage hadmits⟩
  | getDeltaMessage => exact ⟨h.same_iff junk hplain, h.delta junk hplain⟩

theorem source_step (junk : Data) (p : Pair) (feed : Feed) : (p.step junk feed).source = p.source.feed junk feed := by
  cases feed <;> rfl

theorem sender_foldl (junk : Data) (hs : Sender types c) {feeds : List Feed}
    (hadmits : ∀ feed ∈ feeds, feed.Admits types) (hcovers : Along (feed junk) Covers c feeds) :
    Sender types (feeds.foldl (feed junk) c) := by
  refine ((along_and c feeds).mpr ⟨along_of_forall_mem hadmits, hcovers⟩).invariant hs fun c feed hs hfeed => ?_
  cases feed with
  | applyField f => exact (hs.applyField junk hfeed.1.1 hfeed.1.2 hfeed.2).1
  | applyMessage _ => exact hs.applyMessage hfeed.1
  | getDeltaMessage => exact hs.getDeltaMessage junk

/-- A cache publishes a full message and then deltas, and a replica applies them. Where a field that is not checked for
modifications is applied only as a new or a listed one, the two are the same after each delta exactly when the source
then holds no quantity and no field without a value, and the empty vectors of strings arrive. -/
theorem replicates_iff (junk : Data) (types : Fid → FieldType) (hplain : ∀ fid, (types fid).isAddOnly = false)
    (before after : List Feed) (hadmits : ∀ feed ∈ before ++ after, feed.Admits types)
    (hcovers : Along (feed junk) Covers {} (before ++ after)) :
    Along (step junk) (Replicates junk) (start junk (before.foldl (feed junk) {})) after
      ↔ Along (step junk) (Sendable junk) (start junk (before.foldl (feed junk) {})) after := by
  obtain ⟨hbefore, hafter⟩ := forall_mem_append.mp hadmits
  obtain ⟨hcbefore, hcafter⟩ := along_append.mp hcovers
  have hempty : Sender types {} := by refine ⟨rfl, ?_, ?_, ?_, ?_, ?_, ?_⟩ <;> simp [listed]
  have hstart := synced_start junk (sender_foldl junk hempty hbefore hcbefore) hplain
  have hcovered := (Along.map (source_step junk) (start junk (before.foldl (feed junk) {})) after).mpr hcafter
  exact Along.congr_along (I := Synced types) hstart
    ((along_and _ after).mpr ⟨along_of_forall_mem hafter, hcovered⟩)
    fun p feed hp hfeed => hp.step junk hplain hfeed.1 hfeed.2

theorem not_replicates_quantity : ¬ Along (step (.number 0)) (Replicates (.number 0)) (start (.number 0) {})
    [.applyField { fid := 1, type := .quantity, data := some (.number 5) }, .getDeltaMessage] := by
  rintro ⟨-, hsame, -⟩
  cases hsame 1

theorem replicates_threeFields : Along (step (.number 0)) (Replicates (.number 0))
    (start (.number 0) (applyField (.number 0) {} { fid := 1, type := .i32, data := some (.number 5) }))
    [.applyMessage [⟨1, .i32, .number 6⟩, ⟨2, .string, .text "new"⟩], .getDeltaMessage,
      .applyField { fid := 3, type := .vectorString, checkModified := false, data := some (.texts ["a", "b"]) },
      .applyField { fid := 1, type := .i32, data := some (.number 9) }, .getDeltaMessage,
      .applyField { fid := 3, type := .vectorString, checkModified := false, data := some (.texts []) },
      .getDeltaMessage] := by
  refine (replicates_iff (.number 0)
    (fun fid => if fid = 1 then .i32 else if fid = 2 then .string else .vectorString)
    ?_ [.applyField { fid := 1, type := .i32, data := some (.number 5) }] _ ?_ ?_).mpr ?_
  · intro _
    split <;> [rfl; skip]
    split <;> rfl
  · decide
  · decide
  · decide

end Pair

end OpenMama.FieldCaches
