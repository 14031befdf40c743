import Mathlib.Data.Nat.Basic
import Mathlib.Order.Fin.Basic
import OpenMama.Lib.Keyed
import OpenMama.Lib.OrderedMap

/-!
# The field cache

`fieldcache.c`, `fieldcacheimpl.c` and `fieldcachefield.c`: the last value of each field, and which fields changed
since they were last published. Names, descriptors, locks, statuses, the types that a cache does not support and the
cache that keeps a message are left out. A message gives its fields back as they were added, and a field of the type
QUANTITY to the getter of F64. Of memory, `malloc (0)` gives a pointer and `realloc` to 0 bytes gives NULL, as in glibc.
-/

namespace OpenMama.FieldCaches

/-- The number that `convertFid` gives an id: the place of the field in the array of a cache, in whose order fields are
visited. The array grows by 64 places and its size has 16 bits, so that it has at most 65472: for another id the loop of
`mamaFieldCacheMapArray_add` does not end. The id 65535 is outside of the table. -/
abbrev Fid := Fin 65472

inductive FieldType where
  | bool | char | i8 | u8 | i16 | u16 | i32 | u32 | i64 | u64 | f32 | f64 | quantity | string | price | time
  | vectorBool | vectorChar | vectorI8 | vectorU8 | vectorI16 | vectorU16 | vectorI32 | vectorU32
  | vectorI64 | vectorU64 | vectorF32 | vectorF64 | vectorString | vectorPrice | vectorTime
deriving DecidableEq

inductive Data where
  | number (bits : UInt64)
  | text (s : String)
  | price (bits : UInt64) (hints : UInt8)
  | time (bits : UInt64)
  | numbers (l : List UInt64)
  | texts (l : List String)
  | prices (l : List (UInt64 × UInt8))
  | times (l : List UInt64)
deriving DecidableEq

/-- How the setters treat a value. A string may be NULL, and an empty array is. -/
inductive Storage where
  | inPlace
  | string
  | object
  | array
  | pointers
deriving DecidableEq

namespace FieldType

def storage : FieldType → Storage
  | .bool | .char | .i8 | .u8 | .i16 | .u16 | .i32 | .u32 | .i64 | .u64 | .f32 | .f64 | .quantity => .inPlace
  | .string => .string
  | .price | .time => .object
  | .vectorBool | .vectorChar | .vectorI8 | .vectorU8 | .vectorI16 | .vectorU16 | .vectorI32 | .vectorU32
  | .vectorI64 | .vectorU64 | .vectorF32 | .vectorF64 => .array
  | .vectorString | .vectorPrice | .vectorTime => .pointers

def accessor : FieldType → FieldType
  | .quantity => .f64
  | type => type

def isAddOnly : FieldType → Bool
  | .vectorPrice | .vectorTime => true
  | _ => false

/-- What `calloc` leaves: a number is 0, and a pointer is NULL. -/
def blank (type : FieldType) : Option Data :=
  match type.storage with
  | .inPlace => some (.number 0)
  | .string | .object | .array | .pointers => none

end FieldType

/-- The number of elements of a vector. -/
def Data.size : Data → Nat
  | .numbers l => l.length
  | .texts l => l.length
  | .prices l => l.length
  | .times l => l.length
  | .number _ | .text _ | .price _ _ | .time _ => 1

def Data.isEmpty (data : Data) : Bool := data.size == 0

/-- A field of a cache. The data are `none` where the pointer that the getter returns is NULL. `allocSize` is the
number of places of the vector that holds strings, prices or times. -/
structure Field where
  fid : Fid
  type : FieldType
  publish : Bool := true
  checkModified : Bool := true
  isModified : Bool := false
  data : Option Data := type.blank
  allocSize : Nat := 0
deriving DecidableEq

structure MsgField where
  fid : Fid
  type : FieldType
  data : Data
deriving DecidableEq

abbrev Msg := List MsgField

namespace Field

def get? (type : FieldType) (f : Field) : Option (Option Data) := if f.type = type then some f.data else none

/-- `mamaFieldCacheVector_grow`, and the copies of the elements. A vector that was never anything but empty has no
place; set again to be empty, its array is reallocated to 0 bytes and is NULL. -/
def setVector (data : Data) (f : Field) : Field :=
  if f.allocSize > data.size then { f with data := some data }
  else { f with
    data := if data.isEmpty && f.data.isSome then none else some data
    allocSize := data.size }

def set (type : FieldType) (value : Option Data) (f : Field) : Field :=
  if f.type = type then
    match type.storage, value with
    | .inPlace, value | .string, value => { f with data := value }
    | .object, none | .array, none | .pointers, none => f
    | .object, some data => { f with data := some data }
    | .pointers, some data => f.setVector data
    | .array, some data => { f with data := if data.isEmpty then none else some data }
  else f

/-- `mamaFieldCacheField_copy`. What a getter that fails leaves in its result is `junk`. -/
def copy (junk : Data) (f copied : Field) : Field :=
  if f.fid ≠ copied.fid ∨ f.type ≠ copied.type then copied
  else
    { copied with
      isModified := f.isModified, publish := f.publish, checkModified := f.checkModified }.set
        f.type.accessor ((f.get? f.type.accessor).getD (some junk))

end Field

/-- A call on the message that a cache is written into. -/
inductive MsgCall where
  | add (f : MsgField)
  | update (f : MsgField)
deriving DecidableEq

namespace MsgCall

def field : MsgCall → MsgField
  | .add f | .update f => f

def apply (msg : Msg) : MsgCall → Msg
  | .add f => msg ++ [f]
  | .update f => Keyed.upsert MsgField.fid f msg

end MsgCall

/-- `mamaFieldCache_updateMsgField`: what it does to the message. Nothing is done for a value that is
NULL. -/
def Field.updateMsgField (junk : Data) (f : Field) (useUpdate : Bool) : Option MsgCall :=
  (((f.get? f.type.accessor).getD (some junk)).map fun data =>
    let field : MsgField := { fid := f.fid, type := f.type.accessor, data := data }
    if useUpdate && !f.type.isAddOnly then .update field else .add field)

structure FieldCache where
  fields : Std.TreeMap Fid Field := ∅
  alwaysPublishFields : List Fid := []
  modifiedFields : List Fid := []
  trackModified : Bool := true

namespace FieldCache

def updateCacheFromMsgField (c : FieldCache) (messageField : MsgField) : FieldCache :=
  let fid := messageField.fid
  let field := c.fields[fid]?.getD { fid := fid, type := messageField.type }
  let marks := c.trackModified && field.publish && !field.isModified
  let field := { field with isModified := marks || field.isModified }
  { c with
    modifiedFields := if marks then c.modifiedFields ++ [fid] else c.modifiedFields
    fields := c.fields.insert fid
      (if field.type.isAddOnly then field else field.set field.type.accessor (some messageField.data)) }

def updateCacheFromField (junk : Data) (c : FieldCache) (f : Field) : FieldCache :=
  let cached := c.fields[f.fid]?
  let alwaysPublishFields :=
    if cached.isNone && f.publish && !f.checkModified then c.alwaysPublishFields ++ [f.fid]
    else c.alwaysPublishFields
  let alreadyModified := cached.any (·.isModified)
  let cachedField := f.copy junk (cached.getD { fid := f.fid, type := f.type })
  let marks := cachedField.publish && cachedField.checkModified && !alreadyModified && c.trackModified
  { c with
    alwaysPublishFields := alwaysPublishFields
    modifiedFields := if marks then c.modifiedFields ++ [f.fid] else c.modifiedFields
    fields := c.fields.insert f.fid { cachedField with isModified := marks || cachedField.isModified } }

/-- `mamaFieldCache_setModified`, for a field of the cache. -/
def setModified (c : FieldCache) (fid : Fid) : FieldCache :=
  match c.fields[fid]? with
  | none => c
  | some field =>
    if !c.trackModified || field.isModified then c
    else { c with
      fields := c.fields.insert fid { field with isModified := true }
      modifiedFields := c.modifiedFields ++ [fid] }

def applyField (junk : Data) (c : FieldCache) (f : Field) : FieldCache := c.updateCacheFromField junk f

def applyMessage (c : FieldCache) (message : Msg) : FieldCache :=
  message.foldl updateCacheFromMsgField c

def applyRecord (junk : Data) (c : FieldCache) (record : List Field) : FieldCache :=
  record.foldl (updateCacheFromField junk) c

/-- The number of fields of a message, as the flag it is passed on as: a `mama_bool_t` has 8 bits. -/
def useUpdate (message : Msg) : Bool := message.length % 256 ≠ 0

/-- `mamaFieldCache_getFullMessage`: what it does to the message. -/
def getFullMessage (junk : Data) (c : FieldCache) (message : Msg) : List MsgCall :=
  ((OrderedMap.iterate c.fields).filter (·.publish)).filterMap (·.updateMsgField junk (useUpdate message))

def callsFor (junk : Data) (c : FieldCache) (message : Msg) (fids : List Fid) : List MsgCall :=
  fids.filterMap fun fid => c.fields[fid]?.bind (·.updateMsgField junk (useUpdate message))

def unmark (fields : Std.TreeMap Fid Field) (fid : Fid) : Std.TreeMap Fid Field :=
  match fields[fid]? with
  | some field => fields.insert fid { field with isModified := false }
  | none => fields

def getDeltaMessage (junk : Data) (c : FieldCache) (message : Msg) : FieldCache × List MsgCall :=
  if c.trackModified then
    ({ c with
        fields := (c.alwaysPublishFields ++ c.modifiedFields).foldl unmark c.fields
        modifiedFields := [] },
      c.callsFor junk message c.alwaysPublishFields ++ c.callsFor junk message c.modifiedFields)
  else (c, c.getFullMessage junk message)

def clearModifiedFields (c : FieldCache) : FieldCache :=
  if c.trackModified then
    { c with fields := c.modifiedFields.foldl unmark c.fields, modifiedFields := [] }
  else c

end FieldCache

end OpenMama.FieldCaches
