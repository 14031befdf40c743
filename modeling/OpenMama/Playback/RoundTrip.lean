import Mathlib.Data.Nat.Digits.Defs

/-!
# Capture files

A captured message is written as a header, which ends with the length in decimal, the byte 29 and the bytes of the
message. The parser finds the end of a header by the byte 29 and the end of a message by the length, which it keeps in
an `int`. It works on a memory mapping of the file or on a stream.
-/

namespace OpenMama

open List

namespace Playback

abbrev Bytes := List UInt8

def delimeter : UInt8 := 29

def capDelimeter : UInt8 := 58

def headerSize : Nat := 128

/-- The names are C strings: none contains the byte 0. -/
structure Saved where
  feedSource : Bytes
  transportName : Bytes
  symbol : Bytes
  buffer : Bytes

/-- A number as `sprintf` writes it, if it is not 0. -/
def decimal (n : Nat) : Bytes := (Nat.digits 10 n).reverse.map (fun d => UInt8.ofNat (48 + d))

def Saved.header (m : Saved) : Bytes :=
  m.feedSource ++ capDelimeter :: m.transportName ++ capDelimeter :: m.symbol ++
    capDelimeter :: decimal m.buffer.length

def saveMamaMsg (file : Bytes) (m : Saved) : Bytes := file ++ m.header ++ delimeter :: m.buffer

structure Saved.Allowed (m : Saved) : Prop where
  feedSource : delimeter ∉ m.feedSource
  transportName : delimeter ∉ m.transportName
  symbol : delimeter ∉ m.symbol
  header : m.header.length < 127
  buffer : m.buffer ≠ []

inductive Mode where
  | mmap
  | stream
deriving DecidableEq

/-- The bytes that are not read yet, and `myMamaMsgLen` before it is made unsigned. -/
structure Parser where
  mode : Mode
  rest : Bytes
  msgLen : Int := 0

/-- `mmap` refuses an empty file. -/
def openFile (mode : Mode) (file : Bytes) : Option Parser :=
  if mode = .mmap ∧ file = [] then none else some { mode, rest := file }

/-- The loops of `readFileToBufferUntilCharacter` from the index `i` on: the bytes copied, the last index and the bytes
left. A mapping ends at its last byte, a stream goes on with `EOF`. -/
def readUntil (mode : Mode) (size : Nat) (delim : UInt8) : Nat → Bytes → Bytes × Nat × Bytes
  | i, [] => match mode with
      | .mmap => ([], i, [])
      | .stream => (List.replicate (size - i + 1) 255, size, [])
  | i, b :: rest =>
    if i < size ∧ (mode = .mmap → rest ≠ []) then
      if b = delim then ([b], i + 1, rest)
      else
        let r := readUntil mode size delim (i + 1) rest
        (b :: r.1, r.2)
    else ([b], i, rest)

def afterLast (c : UInt8) (s : Bytes) : Option Bytes :=
  if c ∈ s then some (s.reverse.takeWhile (· ≠ c)).reverse else none

def isNumeric (s : Bytes) : Bool := s.all (fun b => 48 ≤ b && b ≤ 57)

def atol (s : Bytes) : Nat := s.foldl (fun n b => 10 * n + (b.toNat - 48)) 0

/-- The value of `atol` is stored in an `int`. -/
def saveMsgLength (p : Parser) (header : Bytes) : Parser :=
  match afterLast capDelimeter header with
  | none => p
  | some temp => { p with msgLen := if isNumeric temp then (atol temp : Int).bmod (2 ^ 32) else 0 }

def getNextHeader (p : Parser) : Option Bytes × Parser :=
  if p.rest = [] then (none, p)
  else
    let r := readUntil p.mode headerSize delimeter 0 p.rest
    let header := r.1.take (r.2.1 - 1)
    (some header, saveMsgLength { p with rest := r.2.2 } header)

/-- The bytes that the message is made of. A negative length is a number of bytes that cannot be allocated. -/
def getNextMsg (p : Parser) : Option Bytes × Parser :=
  if p.rest = [] ∨ p.msgLen < 0 then (none, p)
  else (some (p.rest.take p.msgLen.toNat), { p with rest := p.rest.drop p.msgLen.toNat })

def readMany : Nat → Parser → List (Option Bytes × Option Bytes) × Parser
  | 0, p => ([], p)
  | n + 1, p =>
    let h := getNextHeader p
    let m := getNextMsg h.2
    let r := readMany n m.2
    ((h.1, m.1) :: r.1, r.2)

def ReadsBack (mode : Mode) (msgs : List Saved) : Prop :=
  ∃ p, openFile mode (msgs.foldl saveMamaMsg []) = some p ∧
    (readMany msgs.length p).1 = msgs.map (fun m => (some m.header, some m.buffer)) ∧
    (getNextHeader (readMany msgs.length p).2).1 = none

/-! ### One message -/

variable {p : Parser} {msgs : List Saved}

theorem readUntil_eq (mode : Mode) {size i : Nat} {delim : UInt8} {head rest : Bytes} (hdelim : delim ∉ head)
    (hsize : i + head.length < size) (hrest : rest ≠ []) :
    readUntil mode size delim i (head ++ delim :: rest) = (head ++ [delim], i + head.length + 1, rest) := by
  induction head generalizing i with
  | nil =>
    rw [length_nil, Nat.add_zero] at hsize
    simp [readUntil, hsize, hrest]
  | cons b _ ih =>
    rw [mem_cons, not_or] at hdelim
    rw [length_cons] at hsize
    have hi : i < size := by omega
    have hnext := ih (i := i + 1) hdelim.2 (by omega)
    simp only [cons_append, readUntil, hi, ne_eq, append_eq_nil_iff, reduceCtorEq, and_false,
      not_false_eq_true, implies_true, and_self, if_true, if_neg (Ne.symm hdelim.1), hnext, length_cons]
    rw [Nat.add_right_comm i 1, Nat.add_assoc i]

theorem afterLast_eq {c : UInt8} {head rest : Bytes} (h : c ∉ rest) : afterLast c (head ++ c :: rest) = some rest := by
  have hall : ∀ b ∈ rest.reverse, decide (b ≠ c) := fun b hb =>
    decide_eq_true (fun heq => h (heq ▸ mem_reverse.mp hb))
  rw [afterLast, reverse_append, reverse_cons, append_assoc, takeWhile_append_of_pos hall]
  simp

theorem mem_decimal {n : Nat} {b : UInt8} (h : b ∈ decimal n) : ∃ d < 10, b = UInt8.ofNat (48 + d) := by
  obtain ⟨d, hd, rfl⟩ := mem_map.mp h
  exact ⟨d, Nat.digits_lt_base (by omega) (mem_reverse.mp hd), rfl⟩

theorem isNumeric_decimal (n : Nat) : isNumeric (decimal n) := by
  have hdigit : ∀ d < 10, (48 ≤ UInt8.ofNat (48 + d) && UInt8.ofNat (48 + d) ≤ 57) := by decide
  refine all_eq_true.mpr (fun b hb => ?_)
  obtain ⟨d, hd, rfl⟩ := mem_decimal hb
  exact hdigit d hd

theorem capDelimeter_notMem_decimal (n : Nat) : capDelimeter ∉ decimal n := fun h => by
  have hcap := all_eq_true.mp (isNumeric_decimal n) capDelimeter h
  cases hcap

theorem delimeter_notMem_decimal (n : Nat) : delimeter ∉ decimal n := fun h => by
  have hdelim := all_eq_true.mp (isNumeric_decimal n) delimeter h
  cases hdelim

theorem atol_decimal (n : Nat) : atol (decimal n) = n := by
  have hdigit : ∀ d < 10, (UInt8.ofNat (48 + d)).toNat - 48 = d := by decide
  have hfold : ∀ ds : List Nat, (∀ d ∈ ds, d < 10) →
      atol (ds.reverse.map (fun d => UInt8.ofNat (48 + d))) = Nat.ofDigits 10 ds := by
    intro ds hds
    induction ds with
    | nil => rfl
    | cons d _ ih =>
      rw [forall_mem_cons] at hds
      have ih := ih hds.2
      rw [atol] at ih ⊢
      rw [reverse_cons, map_append, foldl_append, ih, map_singleton, foldl_cons,
        foldl_nil, hdigit d hds.1, Nat.ofDigits_cons, Nat.add_comm]
  rw [decimal, hfold _ (fun d hd => Nat.digits_lt_base (by omega) hd), Nat.ofDigits_digits]

theorem Saved.Allowed.delimeter_notMem {m : Saved} (h : m.Allowed) : delimeter ∉ m.header := by
  have hcap : delimeter ≠ capDelimeter := by decide
  simp [Saved.header, h.feedSource, h.transportName, h.symbol, hcap, delimeter_notMem_decimal]

theorem saveMsgLength_header (p : Parser) (m : Saved) :
    saveMsgLength p m.header = { p with msgLen := (m.buffer.length : Int).bmod (2 ^ 32) } := by
  rw [saveMsgLength, Saved.header, afterLast_eq (capDelimeter_notMem_decimal _)]
  dsimp only
  rw [if_pos (isNumeric_decimal _), atol_decimal]

def Saved.record (m : Saved) : Bytes := m.header ++ delimeter :: m.buffer

theorem getNextHeader_record {m : Saved} (h : m.Allowed) {more : Bytes} (hp : p.rest = m.record ++ more) :
    getNextHeader p =
      (some m.header, { p with rest := m.buffer ++ more, msgLen := (m.buffer.length : Int).bmod (2 ^ 32) }) := by
  have hlength : 0 + m.header.length < headerSize := by
    have := h.header
    rw [headerSize]
    omega
  have hmore := append_ne_nil_of_left_ne_nil h.buffer more
  have hrest : p.rest = m.header ++ delimeter :: (m.buffer ++ more) := by rw [hp, Saved.record]; simp
  have hread := readUntil_eq p.mode h.delimeter_notMem hlength hmore
  rw [getNextHeader, hrest, hread]
  simp [saveMsgLength_header]

theorem getNextMsg_eq {buffer more : Bytes} (hrest : p.rest = buffer ++ more)
    (hlen : p.msgLen = (buffer.length : Int).bmod (2 ^ 32)) (hbuffer : buffer ≠ []) (h : buffer.length < 2 ^ 31) :
    getNextMsg p = (some buffer, { p with rest := more }) := by
  have hmod : p.msgLen = buffer.length := by
    rw [hlen]
    exact Int.bmod_eq_of_le (by omega) (by omega)
  have hne : ¬(p.rest = [] ∨ p.msgLen < 0) := by
    rw [hrest, append_eq_nil_iff]
    exact not_or.mpr ⟨fun h => hbuffer h.1, by omega⟩
  rw [getNextMsg, if_neg hne, hmod, hrest]
  simp

theorem length_lt_of_getNextMsg {buffer : Bytes} (hlen : p.msgLen = (buffer.length : Int).bmod (2 ^ 32))
    (h : (getNextMsg p).1 = some buffer) :
    buffer.length < 2 ^ 31 := by
  have hlt : p.msgLen < 2 ^ 31 := by
    have := Int.bmod_lt (x := (buffer.length : Int)) (m := 2 ^ 32) (by decide)
    omega
  by_cases hnone : p.rest = [] ∨ p.msgLen < 0
  · rw [getNextMsg, if_pos hnone] at h
    cases h
  · rw [getNextMsg, if_neg hnone] at h
    have hbuffer := congrArg List.length (Option.some.inj h)
    rw [length_take] at hbuffer
    omega

theorem foldl_saveMamaMsg (msgs : List Saved) (file : Bytes) :
    msgs.foldl saveMamaMsg file = file ++ msgs.flatMap Saved.record := by
  induction msgs generalizing file with
  | nil => simp
  | cons m _ ih => rw [foldl_cons, ih]; simp [saveMamaMsg, Saved.record]

theorem readMany_eq (hallowed : ∀ m ∈ msgs, m.Allowed) (hp : p.rest = msgs.flatMap Saved.record)
    (h : ∀ m ∈ msgs, m.buffer.length < 2 ^ 31) :
    (readMany msgs.length p).1 = msgs.map (fun m => (some m.header, some m.buffer)) ∧
      (readMany msgs.length p).2.rest = [] := by
  induction msgs generalizing p with
  | nil => exact ⟨rfl, hp⟩
  | cons m _ ih =>
    rw [forall_mem_cons] at hallowed h
    rw [flatMap_cons] at hp
    have hheader := getNextHeader_record hallowed.1 hp
    have hmsg := getNextMsg_eq (p := (getNextHeader p).2) (by rw [hheader]) (by rw [hheader]) hallowed.1.buffer h.1
    have ih := ih hallowed.2 (p := (getNextMsg (getNextHeader p).2).2) (by rw [hmsg]) h.2
    rw [length_cons, readMany, map_cons]
    exact ⟨by rw [ih.1, hmsg, hheader], ih.2⟩

theorem length_lt_of_readMany (hallowed : ∀ m ∈ msgs, m.Allowed) (hp : p.rest = msgs.flatMap Saved.record)
    (h : (readMany msgs.length p).1 = msgs.map (fun m => (some m.header, some m.buffer))) :
    ∀ m ∈ msgs, m.buffer.length < 2 ^ 31 := by
  induction msgs generalizing p with
  | nil => simp
  | cons m _ ih =>
    rw [forall_mem_cons] at hallowed ⊢
    rw [flatMap_cons] at hp
    rw [length_cons, readMany, map_cons, List.cons.injEq, Prod.mk.injEq] at h
    have hheader := getNextHeader_record hallowed.1 hp
    have hlt := length_lt_of_getNextMsg (p := (getNextHeader p).2) (by rw [hheader]) h.1.2
    have hmsg := getNextMsg_eq (p := (getNextHeader p).2) (by rw [hheader]) (by rw [hheader]) hallowed.1.buffer hlt
    exact ⟨hlt, ih hallowed.2 (p := (getNextMsg (getNextHeader p).2).2) (by rw [hmsg]) h.2⟩

theorem length_lt_of_readsBack {mode : Mode} (hallowed : ∀ m ∈ msgs, m.Allowed) (h : ReadsBack mode msgs) :
    ∀ m ∈ msgs, m.buffer.length < 2 ^ 31 := by
  obtain ⟨p, hopen, hread, -⟩ := h
  rw [openFile] at hopen
  split at hopen
  · cases hopen
  · obtain rfl := Option.some.inj hopen
    exact length_lt_of_readMany hallowed (foldl_saveMamaMsg msgs []) hread

/-- What is saved is read back, unless nothing was saved and the empty file has to be mapped, or a message has 2 ^ 31
bytes or more. -/
theorem readsBack_iff (mode : Mode) (msgs : List Saved) (hallowed : ∀ m ∈ msgs, m.Allowed) :
    ReadsBack mode msgs ↔ (mode = .mmap → msgs ≠ []) ∧ ∀ m ∈ msgs, m.buffer.length < 2 ^ 31 := by
  constructor
  · intro h
    refine ⟨fun hmode hmsgs => ?_, length_lt_of_readsBack hallowed h⟩
    obtain ⟨p, hopen, -⟩ := h
    simp [openFile, hmode, hmsgs] at hopen
  · rintro ⟨hsome, hlength⟩
    have hfile := foldl_saveMamaMsg msgs []
    have hopens : ¬(mode = .mmap ∧ msgs.foldl saveMamaMsg [] = []) := by
      rintro ⟨hmode, hnil⟩
      obtain ⟨m, hm⟩ := exists_mem_of_ne_nil msgs (hsome hmode)
      rw [hfile, nil_append, flatMap_eq_nil_iff] at hnil
      simpa [Saved.record] using hnil m hm
    obtain ⟨hread, hend⟩ := readMany_eq hallowed (p := { mode, rest := msgs.foldl saveMamaMsg [] }) hfile hlength
    exact ⟨_, if_neg hopens, hread, by rw [getNextHeader, if_pos hend]⟩

def sample (buffer : Bytes) : Saved := { feedSource := [83], transportName := [84], symbol := [], buffer }

theorem sample_allowed {buffer : Bytes} (hbuffer : buffer ≠ []) (hlength : (decimal buffer.length).length < 120) :
    (sample buffer).Allowed := by
  have hdelim : delimeter ∉ ([83] : Bytes) ∧ delimeter ∉ ([84] : Bytes) := by decide
  refine ⟨hdelim.1, hdelim.2, not_mem_nil, ?_, hbuffer⟩
  simp only [sample, Saved.header, length_append, length_cons, length_nil]
  omega

theorem readsBack_delimeter :
    (sample [29, 10]).Allowed ∧ (sample [58]).Allowed ∧ ReadsBack .mmap [sample [29, 10], sample [58]]
      ∧ ReadsBack .stream [sample [29, 10], sample [58]] := by
  have hfirst : (sample [29, 10]).Allowed := sample_allowed (by decide) (by decide)
  have hsecond : (sample [58]).Allowed := sample_allowed (by decide) (by decide)
  have hallowed : ∀ m ∈ [sample [29, 10], sample [58]], m.Allowed := by simp [hfirst, hsecond]
  exact ⟨hfirst, hsecond, (readsBack_iff .mmap _ hallowed).mpr (by simp [sample]),
    (readsBack_iff .stream _ hallowed).mpr (by simp [sample])⟩

theorem not_readsBack :
    ¬ReadsBack .mmap [] ∧ ∃ m : Saved, m.Allowed ∧ ¬ReadsBack .mmap [m] ∧ ¬ReadsBack .stream [m] := by
  refine ⟨(by rintro ⟨p, hopen, -⟩; cases hopen), ?_⟩
  obtain ⟨buffer, hlength⟩ : ∃ buffer : Bytes, buffer.length = 2 ^ 32 + 1 :=
    ⟨List.replicate (2 ^ 32 + 1) 0, length_replicate⟩
  have hallowed : (sample buffer).Allowed := sample_allowed (ne_nil_of_length_pos (by omega)) (by rw [hlength]; decide)
  have hlong : ∀ mode, ¬ReadsBack mode [sample buffer] := fun mode h => by
    have hlt : buffer.length < 2 ^ 31 := length_lt_of_readsBack (by simpa using hallowed) h _ (mem_singleton_self _)
    omega
  exact ⟨sample buffer, hallowed, hlong .mmap, hlong .stream⟩

end Playback

end OpenMama
