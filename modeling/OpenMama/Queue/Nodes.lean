import Mathlib.Data.List.Range
import OpenMama.Lib.Linked

/-!
# The queue

`queue.c`: a doubly linked list between two sentinel nodes, whose nodes come from chunks and go to a free list. A
semaphore counts the items and an iterator points at a node. The operations are the critical sections of the source,
with every pointer that they write.
-/

namespace OpenMama

open Function

/-- The address of a node. The sentinels `mHead` and `mTail` are part of the queue, the others are allocated. -/
inductive Ref where
  | null
  | head
  | tail
  | node (n : Nat)
deriving DecidableEq

/-- What a node carries, callbacks in `κ` and pointers in `δ`. -/
structure Item (κ δ : Type) where
  cb : Option κ
  data : Option δ
  closure : Option δ
deriving DecidableEq

namespace Queue

inductive Status where
  | ok
  | nomem
  | full
  | wouldBlock
  | atEnd
  | timeout
deriving DecidableEq

end Queue

structure Queue (κ δ : Type) where
  sem : Nat
  unblocking : Bool
  maxSize : UInt32
  chunkSize : UInt32
  iterator : Ref
  firstFree : Ref
  nextOf : Ref → Ref
  prevOf : Ref → Ref
  itemOf : Ref → Item κ δ
  allocated : Nat

namespace Queue

variable {κ δ : Type}

structure Reply (κ δ : Type) where
  status : Status
  out : Option (Option δ × Option δ) := none
  called : Option (κ × Option δ × Option δ) := none
deriving DecidableEq

def chunkSizeDefault : UInt32 := 64

def maxSizeDefault : UInt32 := 2147483647

def allocate : Queue κ δ where
  sem := 0
  unblocking := false
  maxSize := maxSizeDefault
  chunkSize := chunkSizeDefault
  iterator := .head
  firstFree := .null
  nextOf
    | .head => .tail
    | .tail => .tail
    | _ => .null
  prevOf
    | .head => .head
    | .tail => .head
    | _ => .null
  itemOf _ := ⟨none, none, none⟩
  allocated := 0

/-- The nodes of a chunk are linked into the free list, which is empty, unless the queue would get too large.
The size is added to the number of nodes in 32 bits. -/
def allocChunk (q : Queue κ δ) (items : UInt32) : Queue κ δ :=
  if q.maxSize < UInt32.ofNat q.sem + items then q
  else
    let last := q.allocated + items.toNat - 1
    { q with
      firstFree := .node q.allocated
      nextOf := fun
        | .node n =>
          if q.allocated ≤ n ∧ n ≤ last then if n < last then .node (n + 1) else .null else q.nextOf (.node n)
        | r => q.nextOf r
      prevOf := fun
        | .node n =>
          if q.allocated ≤ n ∧ n ≤ last then if q.allocated < n then .node (n - 1) else .null
          else q.prevOf (.node n)
        | r => q.prevOf r
      allocated := q.allocated + items.toNat }

def configure (maxSize growBySize : UInt32) : Queue κ δ :=
  { allocate with
    maxSize := if maxSize ≠ 0 then maxSize else maxSizeDefault
    chunkSize := if growBySize ≠ 0 then growBySize else chunkSizeDefault }

def create (maxSize initialSize growBySize : UInt32) : Queue κ δ × Status :=
  let items := if initialSize = 0 then chunkSizeDefault else initialSize
  let q : Queue κ δ := (configure maxSize growBySize).allocChunk items
  if q.firstFree = .null then (q, .nomem) else (q, .ok)

variable (q : Queue κ δ)

def post : Queue κ δ := { q with sem := q.sem + 1 }

def reserve : Queue κ δ := if q.firstFree = .null then q.allocChunk q.chunkSize else q

def fill (i : Item κ δ) : Queue κ δ :=
  { q with
    firstFree := q.nextOf q.firstFree
    itemOf := update q.itemOf q.firstFree i }

def putBefore (item at' : Ref) : Queue κ δ :=
  let nextOf := update q.nextOf item at'
  let prevOf := update q.prevOf item (q.prevOf at')
  { q with
    nextOf := update nextOf (prevOf item) item
    prevOf := update prevOf at' item }

def putAfter (item at' : Ref) : Queue κ δ :=
  let nextOf := update q.nextOf item (q.nextOf at')
  let prevOf := update q.prevOf item at'
  { q with
    nextOf := update nextOf at' item
    prevOf := update prevOf (nextOf at') item }

def add (i : Item κ δ) (put : Queue κ δ → Ref → Queue κ δ) : Queue κ δ × Status :=
  let q := q.reserve
  if q.firstFree = .null then (q, .full) else (put (q.fill i) q.firstFree, .ok)

def enqueueSection (i : Item κ δ) : Queue κ δ × Status :=
  q.add i (fun q item => q.putBefore item .tail)

def announce (added : Queue κ δ × Status) : Queue κ δ × Reply κ δ :=
  (if added.2 = .ok then added.1.post else added.1, { status := added.2 })

variable (q : Queue κ δ)

def enqueue (i : Item κ δ) : Queue κ δ × Reply κ δ := announce (q.enqueueSection i)

def getSize : Nat := q.sem

/-- `WQ_REMOVE`. The iterator is not looked at. -/
def wqRemove (ele : Ref) : Queue κ δ :=
  let nextOf := update q.nextOf (q.prevOf ele) (q.nextOf ele)
  let prevOf := update q.prevOf (nextOf ele) (q.prevOf ele)
  { q with
    nextOf := update nextOf ele q.firstFree
    prevOf
    firstFree := ele }

def takeFirst : Queue κ δ × Reply κ δ :=
  let first := q.nextOf .head
  let item := q.itemOf first
  (q.wqRemove first,
    { status := .ok
      out := some (item.data, item.closure)
      called := item.cb.map (fun cb => (cb, item.data, item.closure)) })

def dispatchSection : Queue κ δ × Reply κ δ :=
  if q.unblocking then ({ q with unblocking := false }, { status := .ok })
  else if q.nextOf .head = .tail then (q, { status := .ok })
  else q.takeFirst

def down : Queue κ δ := { q with sem := q.sem - 1 }

def timedDispatch : Queue κ δ × Reply κ δ :=
  if q.sem = 0 then (q, { status := .timeout }) else q.down.dispatchSection

/-- `poll` does not look at the flag, nor whether there is an item. -/
def poll : Queue κ δ × Reply κ δ :=
  if q.sem = 0 then (q, { status := .wouldBlock }) else q.down.takeFirst

def unblock : Queue κ δ × Reply κ δ :=
  ({ q with unblocking := true, sem := q.sem + 1 }, { status := .ok })

/-- The queue and what the callback is called with. The loop of the source returns at the end of its first
round. -/
def flush : Queue κ δ × List (Option δ × Option δ) :=
  if q.sem = 0 then (q, [])
  else
    let first := q.nextOf .head
    (q.down.wqRemove first, [((q.itemOf first).data, (q.itemOf first).closure)])

def AtSentinel : Prop := q.iterator = .head ∨ q.iterator = .tail

instance (q : Queue κ δ) : Decidable q.AtSentinel := inferInstanceAs (Decidable (_ ∨ _))

def current : Option δ × Option δ := ((q.itemOf q.iterator).data, (q.itemOf q.iterator).closure)

def next : Queue κ δ × Reply κ δ :=
  let q := { q with iterator := q.nextOf q.iterator }
  if q.iterator = .tail then
    ({ q with iterator := q.prevOf q.iterator }, { status := .atEnd, out := some (none, none) })
  else (q, { status := .ok, out := some q.current })

def prev : Queue κ δ × Reply κ δ :=
  let q := { q with iterator := q.prevOf q.iterator }
  if q.iterator = .head then
    ({ q with iterator := q.nextOf q.iterator }, { status := .atEnd, out := some (none, none) })
  else (q, { status := .ok, out := some q.current })

def cur : Queue κ δ × Reply κ δ :=
  if q.AtSentinel then (q, { status := .atEnd, out := some (none, none) })
  else (q, { status := .ok, out := some q.current })

def remove : Queue κ δ × Reply κ δ :=
  if q.AtSentinel then (q, { status := .atEnd })
  else
    ({ q with iterator := q.nextOf q.iterator }.wqRemove q.iterator, { status := .ok, out := some q.current })

def insertAfter (i : Item κ δ) : Queue κ δ × Reply κ δ :=
  let q := if q.iterator = .tail then { q with iterator := .head } else q
  announce (q.add i (fun q item => q.putAfter item q.iterator))

def insertBefore (i : Item κ δ) : Queue κ δ × Reply κ δ :=
  let q := if q.iterator = .head then { q with iterator := .tail } else q
  announce (q.add i (fun q item => q.putBefore item q.iterator))

def replace (i : Item κ δ) : Queue κ δ × Reply κ δ :=
  if q.AtSentinel then (q, { status := .atEnd })
  else
    ({ q with itemOf := update q.itemOf q.iterator { i with cb := (q.itemOf q.iterator).cb } },
      { status := .ok })

def «begin» : Queue κ δ × Reply κ δ := ({ q with iterator := .head }, { status := .ok })

def «end» : Queue κ δ × Reply κ δ := ({ q with iterator := .tail }, { status := .ok })

end Queue

end OpenMama
