import OpenMama.DateTime.Arithmetic
import OpenMama.Lib.TreeCursor

/-!
# The qpid payload

`payload.c`, `iterator.c`, `field.c` and `qpidcommon.c` of `qpidmsg`. A message is a list of fields in one proton data
object, and a field a list of its name, its id and the atoms of its value. The accessors put the one cursor back to
where the iterator was (`resetToIteratorState`). A message in a field is read into a payload of its own, and written
field by field at the cursor.

Numbers are held by their bits and strings without the terminator. Left out are arguments that are NULL, other than
the name; buffers and the memory of a field object; and casts from one scalar type to another. Encoding a message and
decoding it again gives the same nodes.

`none` is what C leaves undefined: opaque data of a message that is read, a vector of prices or times in one, and the
array of messages of a payload that is used again while it is in use. `copyField` is also `none` beyond its bound for
the depth of the messages.
-/

namespace OpenMama.Qpid

/-- `pn_type_t`, as far as the payload writes or tells its values apart. -/
inductive PnType where
  | null | bool | ubyte | byte | ushort | short | uint | int | char | ulong | long | timestamp | float | double
  | binary | string | array | list | invalid
deriving DecidableEq

inductive Data where
  | none
  | number (bits : UInt64)
  | text (s : String)
  | bytes (l : List UInt8)
  | elements (type : PnType)
deriving DecidableEq

/-- `pn_atom_t`. -/
structure Atom where
  type : PnType
  data : Data := .none
deriving DecidableEq

inductive ElementType where
  | bool | char | i8 | u8 | i16 | u16 | i32 | u32 | i64 | u64 | f32 | f64 | string
deriving DecidableEq

/-- `mamaFieldType`, the scalar types and the vectors of them by their element. -/
inductive FieldType where
  | scalar (type : ElementType)
  | opaqueData
  | time
  | price
  | msg
  | vector (type : ElementType)
  | vectorTime
  | vectorPrice
  | vectorMsg
  | unknown
deriving DecidableEq

/-- What `qpidmsgPayload_add…` and `qpidmsgPayload_update…` write a value of the type as. -/
def ElementType.pnType : ElementType → PnType
  | .bool => .bool
  | .char => .char
  | .i8 => .byte
  | .u8 => .ubyte
  | .i16 => .short
  | .u16 => .ushort
  | .i32 => .int
  | .u32 => .uint
  | .i64 => .long
  | .u64 => .ulong
  | .f32 => .float
  | .f64 => .double
  | .string => .string

/-- `qpidmsgPayloadInternal_toMamaType`. -/
def toMamaType : PnType → FieldType
  | .bool => .scalar .bool
  | .ubyte => .scalar .u8
  | .byte => .scalar .i8
  | .ushort => .scalar .u16
  | .short => .scalar .i16
  | .uint => .scalar .u32
  | .int => .scalar .i32
  | .char => .scalar .char
  | .ulong => .scalar .u64
  | .long => .scalar .i64
  | .timestamp => .time
  | .float => .scalar .f32
  | .double => .scalar .f64
  | .binary => .opaqueData
  | .string => .scalar .string
  | .null | .array | .list | .invalid => .unknown

/-- `qpidmsgPayloadImpl_arrayToMamaType`. -/
def arrayToMamaType : PnType → FieldType
  | .bool => .vector .bool
  | .ubyte => .vector .u8
  | .byte => .vector .i8
  | .ushort => .vector .u16
  | .short => .vector .i16
  | .uint => .vector .u32
  | .int => .vector .i32
  | .char => .vector .char
  | .ulong => .vector .u64
  | .long => .vector .i64
  | .timestamp => .vectorTime
  | .float => .vector .f32
  | .double => .vector .f64
  | .string => .vector .string
  | .null | .binary | .array | .list | .invalid => .unknown

/-! ### Values -/

structure Price where
  value : UInt64
  hints : UInt8
deriving DecidableEq

/-- A date-time as it is packed into three atoms. -/
structure Time where
  seconds : UInt32
  micros : UInt32
  hints : UInt8
  precision : UInt8
deriving DecidableEq

/-- `mamaDateTime_getWithHints`, into variables that hold `held`: it fails outside of 32 unsigned bits. -/
def getWithHints (held : Time) (t : DateTime) : Time :=
  if 0 ≤ t.seconds ∧ t.seconds < 2 ^ 32 then
    { seconds := .ofNat t.seconds.toNat
      micros := .ofNat t.getMicroSeconds
      hints := .ofNat t.hints
      precision := .ofNat t.precision }
  else held

/-- `mamaDateTime_setWithHints`, on `result`. -/
def setWithHints (result : DateTime) (s : Time) : DateTime :=
  if 1000000 ≤ s.micros.toNat then result
  else
    { seconds := s.seconds.toNat
      nanoseconds := 1000 * s.micros.toNat
      precision := s.precision.toNat
      hints := if 86400 < s.seconds.toNat then s.hints.toNat ||| 1 else s.hints.toNat }

/-- What the variables of the calls that write a date-time begin with. -/
def unread : Time := { seconds := 0, micros := 0, hints := 0, precision := 15 }

/-- The date-times of a vector, which are read into the same variables. -/
def getAllWithHints : Time → List DateTime → List Time
  | _, [] => []
  | held, t :: ts => getWithHints held t :: getAllWithHints (getWithHints held t) ts

/-- A value as a caller passes it to `qpidmsgPayload_add…` or `qpidmsgPayload_update…`. -/
inductive Value where
  | scalar (type : ElementType) (data : Data)
  | opaqueData (bytes : List UInt8)
  | price (price : Price)
  | time (time : DateTime)
  | vector (type : ElementType) (values : List Data)
  | vectorPrice (prices : List Price)
  | vectorTime (times : List DateTime)
deriving DecidableEq

def ElementType.atom (type : ElementType) (data : Data) : Atom := { type := type.pnType, data := data }

def ubyteAtom (v : UInt8) : Atom := { type := .ubyte, data := .number v.toUInt64 }

def Price.atoms (p : Price) : List Atom := [{ type := .double, data := .number p.value }, ubyteAtom p.hints]

/-- The seconds in the upper half of 64 bits and the microseconds in the lower. -/
def Time.stamp (t : Time) : UInt64 := t.micros.toUInt64 ||| (t.seconds.toUInt64 <<< 32)

def Time.atoms (t : Time) : List Atom :=
  [{ type := .timestamp, data := .number t.stamp }, ubyteAtom t.hints, ubyteAtom t.precision]

namespace Value

def type : Value → FieldType
  | scalar type _ => .scalar type
  | opaqueData _ => .opaqueData
  | price _ => .price
  | time _ => .time
  | vector type _ => .vector type
  | vectorPrice _ => .vectorPrice
  | vectorTime _ => .vectorTime

/-- The atoms that are written for a value. -/
def atoms : Value → List Atom
  | scalar type data => [type.atom data]
  | opaqueData bytes => [{ type := .binary, data := .bytes bytes }]
  | price p => p.atoms
  | time t => (getWithHints unread t).atoms
  | vector type values => values.map type.atom
  | vectorPrice prices => prices.flatMap Price.atoms
  | vectorTime times => (getAllWithHints unread times).flatMap Time.atoms

/-- The type of the array of a vector. `update` writes a vector of times as an array of lists. -/
def arrayType? (isUpdate : Bool) : Value → Option PnType
  | vector type _ => some type.pnType
  | vectorPrice _ => some .double
  | vectorTime _ => some (if isUpdate then .list else .timestamp)
  | scalar _ _ | opaqueData _ | price _ | time _ => none

def isVector (v : Value) : Bool := (v.arrayType? false).isSome

/-- Whether `add` asks for a name or an id. -/
def isKeyed : Value → Bool
  | price _ | time _ => false
  | scalar _ _ | opaqueData _ | vector _ _ | vectorPrice _ | vectorTime _ => true

/-- The vectors that `add` and `update` refuse when they are empty. -/
def isRejected : Value → Bool
  | vector .string [] | vectorPrice [] | vectorTime [] => true
  | _ => false

end Value

def pricesOf : List Atom → Option (List Price)
  | [] => some []
  | ⟨_, .number value⟩ :: ⟨_, .number hints⟩ :: atoms =>
    (pricesOf atoms).map ({ value := value, hints := hints.toUInt8 } :: ·)
  | _ => none

def timesOf : List Atom → Option (List Time)
  | [] => some []
  | ⟨_, .number stamp⟩ :: ⟨_, .number hints⟩ :: ⟨_, .number precision⟩ :: atoms =>
    (timesOf atoms).map
      ({ seconds := (stamp >>> 32).toUInt32
         micros := stamp.toUInt32
         hints := hints.toUInt8
         precision := precision.toUInt8 } :: ·)
  | _ => none

/-- What the getters of a type make of the atoms of a field. Date-times are read into new objects. -/
def Value.ofAtoms : FieldType → List Atom → Option Value
  | .scalar type, [a] => some (.scalar type a.data)
  | .opaqueData, [⟨_, .bytes bytes⟩] => some (.opaqueData bytes)
  | .price, atoms => (pricesOf atoms).bind fun prices => prices.head?.map price
  | .time, atoms => (timesOf atoms).bind fun times => times.head?.map fun t => time (setWithHints {} t)
  | .vector type, atoms => some (.vector type (atoms.map Atom.data))
  | .vectorPrice, atoms => (pricesOf atoms).map vectorPrice
  | .vectorTime, atoms => (timesOf atoms).map fun times => vectorTime (times.map (setWithHints {}))
  | _, _ => none

abbrev Body := TreeCursor Atom

variable (b : Body)

def getAtom : Atom := (b.current?.map Node.atom).getD { type := .null }

def getString : String :=
  match getAtom b with
  | { type := .string, data := .text s } => s
  | _ => ""

def getUShort : UInt16 :=
  match getAtom b with
  | { type := .ushort, data := .number bits } => bits.toUInt16
  | _ => 0

def getArray : Nat :=
  match b.current? with
  | some n => if n.atom.type = .array then n.children.length else 0
  | none => 0

def getArrayType : PnType :=
  match getAtom b with
  | { type := .array, data := .elements type } => type
  | _ => .invalid

/-- `pn_data_put_…` for one atom after the other. -/
def putAtoms (atoms : List Atom) (b : Body) : Body := atoms.foldl (fun b a => b.put a) b

/-- The next atoms, with a `pn_data_next` before each. -/
def readAtoms : Nat → Body → Body × List Atom
  | 0, b => (b, [])
  | n + 1, b =>
    let (c, atoms) := readAtoms n b.next
    (c, getAtom b.next :: atoms)

/-- The atoms from the cursor on, with a `pn_data_next` after each. -/
def readAtomsHere : Nat → Body → Body × List Atom
  | 0, b => (b, [])
  | n + 1, b =>
    let (c, atoms) := readAtomsHere n b.next
    (c, getAtom b :: atoms)

/-- The way of the cursor over the messages of an array. -/
def passMessages : Nat → Body → Body
  | 0, b => b
  | n + 1, b => passMessages n b.next.enter.toEnd.exit

def moveDataToContentLocation (b : Body) : Body := b.rewind.next.enter

/-! ### Payloads -/

inductive Status where
  | ok
  | nullArg
  | invalidArg
  | notFound
deriving DecidableEq

inductive InsertMode where
  | mainList
  | inline
deriving DecidableEq

/-- `qpidmsgPayloadImpl`. The offset is negative if no iterator is open. -/
structure Payload where
  body : Body
  insertMode : InsertMode := .mainList
  dataIteratorOffset : Int16 := -1

def create : Payload := { body := (TreeCursor.put { type := .list } {}).enter }

def advance : Nat → Body → Body
  | 0, b => b
  | n + 1, b => if b.hasNext then advance n b.next else b

def checkFid (fid : UInt16) (b : Body) : Body × Option Unit :=
  let b := b.enter.next.next
  if fid = getUShort b then (b, some ()) else (b.exit, none)

def checkName (name : String) (b : Body) : Body × Option Unit :=
  let b := b.enter.next
  if name = getString b then (b.next, some ()) else (b.exit, none)

/-- The loops of `findField`. -/
def search (check : Body → Body × Option Unit) (b : Body) : Body × Status :=
  let (b, found) := b.eachNext check b.ahead.length
  (b, if found.isSome then .ok else .notFound)

def findField (b : Body) (name : Option String) (fid : UInt16) : Body × Status :=
  let b := moveDataToContentLocation b
  if fid ≠ 0 then search (checkFid fid) b
  else match name with
    | some name => search (checkName name) b
    | none => (b, .invalidArg)

/-- What `getFieldFromBuffer` stores of a field itself: its name, id and type, and its atoms. -/
structure FieldView where
  name : String
  fid : UInt16
  type : FieldType
  atoms : List Atom
deriving DecidableEq

def FieldView.value (view : FieldView) : Option Value := Value.ofAtoms view.type view.atoms

/-- The branch of `getFieldFromBuffer` for an array that holds no messages, with the cursor inside of it. -/
def readArray (count : Nat) (contentType : PnType) (b : Body) : Body × FieldType × List Atom :=
  if count > 0 then
    let b := b.next.next
    let secondaryType := (getAtom b).type
    let (b, atoms) := readAtomsHere count b.prev.prev
    (b, if contentType = .double ∧ secondaryType = .ubyte then .vectorPrice else arrayToMamaType contentType,
      atoms)
  else (b, arrayToMamaType contentType, [])

/-- The `switch` of `getFieldFromBuffer`, with the cursor on the value. What it makes of messages is
`getMessages`. -/
def readValue (b : Body) : Body × FieldType × List Atom :=
  match (getAtom b).type with
  | .array =>
    let b := b.next
    let count := getArray b
    let contentType := getArrayType b
    if contentType = .list then ((passMessages count b.enter).exit, .vectorMsg, [])
    else
      let (c, type, atoms) := readArray count contentType b.enter
      (c.exit, type, atoms)
  | .timestamp => (b.next.next, .time, [getAtom b, getAtom b.next, getAtom b.next.next])
  | .double =>
    if b.hasNext then (b.next.prev.next, .price, [getAtom b, getAtom b.next.prev.next])
    else (b, toMamaType (getAtom b).type, [getAtom b])
  | .list => (b.enter.toEnd.exit, .msg, [])
  | type => (b, toMamaType type, [getAtom b])

/-- `getFieldFromBuffer` apart from the messages: where it leaves the cursor, and what it stores. -/
def readField (buffer : Body) : Body × FieldView :=
  let b := buffer.enter.next
  let name := getString b
  let b := b.next
  let fid := getUShort b
  let (b, type, atoms) := readValue b.next
  (b.exit, { name := name, fid := fid, type := type, atoms := atoms })

/-- The getters of values, and `getFieldAsString`. -/
inductive Getter where
  | scalar (type : ElementType)
  | opaqueData
  | price
  | time
  | vector (type : ElementType)
  | vectorPrice
  | vectorTime
  | fieldAsString
deriving DecidableEq

namespace Getter

/-- Whether the getter asks for a name or an id. -/
def isGuarded : Getter → Bool
  | scalar type | vector type => type ≠ .string
  | opaqueData | price | time | vectorPrice | vectorTime | fieldAsString => false

def readVector (width : Nat) (b : Body) : Body × List Atom :=
  let b := b.next
  let (c, atoms) := readAtoms (getArray b / width * width) b.enter
  (c.exit.exit, atoms)

/-- What a getter reads, with the cursor on the id of the field. -/
def read : Getter → Body → Body × List Atom
  | scalar _, b | opaqueData, b | fieldAsString, b => readAtoms 1 b
  | price, b => readAtoms 2 b
  | time, b => readAtoms 3 b
  | vector _, b => readVector 1 b
  | vectorPrice, b => readVector 2 b
  | vectorTime, b => readVector 3 b

end Getter

namespace Payload

def resetToIteratorState (p : Payload) : Payload :=
  if p.dataIteratorOffset < 0 then p
  else { p with body := advance p.dataIteratorOffset.toInt.toNat (moveDataToContentLocation p.body) }

def moveDataToInsertLocation (p : Payload) : Body :=
  match p.insertMode with
  | .inline => p.body
  | .mainList => (moveDataToContentLocation p.body).toEnd

def write (isUpdate : Bool) (v : Value) (b : Body) : Body :=
  match v.arrayType? isUpdate with
  | some type => (putAtoms v.atoms (b.put { type := .array, data := .elements type }).enter).exit
  | none => putAtoms v.atoms b

variable (p : Payload)

def add (name : Option String) (fid : UInt16) (v : Value) : Payload × Status :=
  if v.isRejected || (v.isKeyed && name.isNone && fid = 0) then (p, .nullArg)
  else
    let b := (p.moveDataToInsertLocation.put { type := .list }).enter
    let b := (b.put { type := .string, data := .text (name.getD "") }).put
      { type := .ushort, data := .number fid.toUInt64 }
    ({ p with body := (write false v b).exit }.resetToIteratorState, .ok)

def update (name : Option String) (fid : UInt16) (v : Value) : Payload × Status :=
  if v.isRejected || (v.isVector && name.isNone && fid = 0) then (p, .nullArg)
  else
    match findField p.body name fid with
    | (b, .notFound) => { p with body := b }.add name fid v
    | (b, .ok) => ({ p with body := write true v b }.resetToIteratorState, .ok)
    | (b, status) =>
      match v with
      | .scalar type _ =>
        if type = .string then ({ p with body := b }, status)
        else ({ p with body := b }.resetToIteratorState, status)
      | _ => ({ p with body := b }, status)

/-- `qpidmsgPayload_get…`, which goes back to the iterator's place only if it has found the field. -/
def get (getter : Getter) (name : Option String) (fid : UInt16) : Payload × Except Status (List Atom) :=
  if getter.isGuarded && name.isNone && fid = 0 then (p, .error .nullArg)
  else
    match findField p.body name fid with
    | (b, .ok) =>
      let (b, atoms) := getter.read b
      ({ p with body := b }.resetToIteratorState, .ok atoms)
    | (b, status) => ({ p with body := b }, .error status)

/-- A getter that reads messages. Like `get`, it goes back only if it has found the field. -/
def getWith {α : Type} (read : Body → Option (Body × α)) (name : Option String) (fid : UInt16) :
    Option (Payload × Except Status α) :=
  match findField p.body name fid with
  | (b, .ok) => (read b).map fun (b, a) => ({ p with body := b }.resetToIteratorState, .ok a)
  | (b, status) => some ({ p with body := b }, .error status)

def getNumFields : Payload × Nat :=
  let b := moveDataToContentLocation p.body
  ({ p with body := b.toEnd }.resetToIteratorState, b.ahead.length)

def iterCreate : Payload :=
  { p with dataIteratorOffset := 0, body := moveDataToContentLocation p.body }

def iterDestroy : Payload := { p with dataIteratorOffset := -1 }

/-! ### Messages in messages -/

def beginField (name : Option String) (fid : UInt16) : Body :=
  (((p.moveDataToInsertLocation.put { type := .list }).enter.put { type := .string, data := .text (name.getD "") }).put
    { type := .ushort, data := .number fid.toUInt64 })

end Payload

def messageList : Atom := { type := .list }

def messageArray : Atom := { type := .array, data := .elements .list }

/-- A field as `getFieldFromBuffer` stores it, with the messages it has read. -/
structure Field extends FieldView where
  messages : List Payload := []

/-- The loops over the fields of a message, in `getMessageFromBuffer` and `mamaMsg_iterateFields`. -/
def eachField (visit : Body → Payload → Option Payload) : Nat → Body → Payload → Option Payload
  | 0, _, target => some target
  | n + 1, b, target =>
    if b.hasNext then (visit b.next target).bind (eachField visit n (readField b.next).1)
    else some target

/-- The loops over the messages of an array, in `getFieldFromBuffer` and `getVectorMsg`. -/
def eachMessage (read : Body → Option Payload) : Nat → Body → Option (List Payload)
  | 0, _ => some []
  | n + 1, b =>
    (read b.next.enter).bind fun message => (eachMessage read n b.next.enter.toEnd.exit).map (message :: ·)

/-- `payloadToMamaMsg`: an encoded copy. -/
def payloadToMamaMsg (p : Payload) : Payload := { body := p.body.rewind }

section Copying

-- `copy` reads a field from the cursor and adds it to a payload, for the messages of the level below
variable (copy : Body → Payload → Option Payload)

/-- `getMessageFromBuffer`, into a new payload. -/
def getMessageFromBuffer (b : Body) : Option Payload := eachField copy b.ahead.length b create

/-- The messages that `getFieldFromBuffer` reads. -/
def getMessages (b : Body) : Option (List Payload) :=
  let value := b.enter.next.next.next
  match (readField b).2.type with
  | .msg => (getMessageFromBuffer copy value.enter).map ([·])
  | .vectorMsg => eachMessage (getMessageFromBuffer copy) (getArray value.next) value.next.enter
  | _ => some []

def getFieldFromBuffer (b : Body) : Option (Body × Field) :=
  (getMessages copy b).map fun messages => ((readField b).1, { (readField b).2 with messages := messages })

namespace Payload

variable (p : Payload)

def addBareMsg (message : Payload) : Option Payload :=
  let b := moveDataToContentLocation message.body
  (eachField copy b.ahead.length b { p with insertMode := .inline }).map fun (q : Payload) =>
    ({ q with insertMode := p.insertMode } : Payload)

def addMsg (name : Option String) (fid : UInt16) (message : Payload) : Option Payload :=
  ({ p with body := ((p.beginField name fid).put messageList).enter }.addBareMsg copy message).map fun (q : Payload) =>
    { q with body := q.body.exit.exit }.resetToIteratorState

def putMessages : List Payload → Payload → Option Payload
  | [], p => some p
  | message :: messages, p =>
    ({ p with body := (p.body.put messageList).enter }.addBareMsg copy message).bind fun (q : Payload) =>
      putMessages messages { q with body := q.body.exit }

def addVectorMsg (name : Option String) (fid : UInt16) (messages : List Payload) : Option Payload :=
  if messages.isEmpty || (name.isNone && fid = 0) then some p
  else
    (putMessages copy messages { p with body := ((p.beginField name fid).put messageArray).enter }).map
      fun (q : Payload) => { q with body := q.body.exit.exit }.resetToIteratorState

def updateVectorMsg (name : Option String) (fid : UInt16) (messages : List Payload) : Option Payload :=
  if messages.isEmpty || (name.isNone && fid = 0) then some p
  else
    match findField p.body name fid with
    | (b, .notFound) => { p with body := b }.addVectorMsg copy name fid messages
    | (b, .ok) =>
      (putMessages copy messages { p with body := (b.put messageArray).enter }).map fun (q : Payload) =>
        { q with body := q.body.exit }.resetToIteratorState
    | (b, _) => some { p with body := b }

end Payload

end Copying

/-- The flags say whether opaque data has a place, and whether the array of messages of the payload is in use, which
`copy` is told too. -/
def addFieldToPayload (copy : Bool → Body → Payload → Option Payload) (hasPlace isInUse : Bool) (target : Payload)
    (field : Field) : Option Payload :=
  let added := field.value.map fun v => (target.add (some field.name) field.fid v).1
  match field.type with
  | .scalar _ | .price | .time => added
  | .opaqueData => if hasPlace then added else none
  | .vector _ => if field.atoms.isEmpty then some target else added
  | .msg =>
    field.messages.head?.bind fun message =>
      target.addMsg (copy isInUse) (some field.name) field.fid (payloadToMamaMsg message)
  | .vectorMsg =>
    if isInUse then none
    else target.addVectorMsg (copy true) (some field.name) field.fid (field.messages.map payloadToMamaMsg)
  | .vectorPrice | .vectorTime => none
  | .unknown => some target

/-- A field is read from the cursor and added to a payload, with messages of less than the depth in it. -/
def copyField : Nat → Bool → Bool → Body → Payload → Option Payload
  | 0, _, _, _, _ => none
  | depth + 1, hasPlace, isInUse, b, target =>
    (getFieldFromBuffer (copyField depth false false) b).bind fun (_, field) =>
      addFieldToPayload (copyField depth true) hasPlace isInUse target field

namespace Payload

variable (depth : Nat) (p : Payload)

def iterNext : Option (Payload × Option Field) :=
  if p.body.hasNext then
    (getFieldFromBuffer (copyField depth false false) p.body.next).map fun (b, field) =>
      ({ p with body := b, dataIteratorOffset := p.dataIteratorOffset + 1 }, some field)
  else some (p, none)

def getMsg (name : Option String) (fid : UInt16) : Option (Payload × Except Status Payload) :=
  p.getWith (fun b => (getMessageFromBuffer (copyField depth false false) b.next.enter).map fun message =>
    (b.next.enter.toEnd, message)) name fid

def getVectorMsg (name : Option String) (fid : UInt16) : Option (Payload × Except Status (List Payload)) :=
  p.getWith (fun b => (eachMessage (getMessageFromBuffer (copyField depth false false)) (getArray b.next)
    b.next.enter).map fun messages =>
      ((passMessages (getArray b.next) b.next.enter).exit.exit, messages)) name fid

def getField (name : Option String) (fid : UInt16) : Option (Payload × Except Status Field) :=
  p.getWith (fun b => getFieldFromBuffer (copyField depth false false) b.exit.enter) name fid

end Payload

end OpenMama.Qpid
