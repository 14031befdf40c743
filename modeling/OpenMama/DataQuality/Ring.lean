import Mathlib.Data.List.Induction
import OpenMama.DataQuality.Duplicates

/-!
# The ring of cached messages

What `fillGap` and `applyPreInitialCache` make of a ring into which any number of messages were put. The first walks
the ring from its oldest message on, the second the array up to the place of the next message.
-/

namespace OpenMama.DataQuality

open Strategy List Cache

variable {n : Nat} {msgs : List Msg} {s : Strategy} {stop : UInt32}

def Cache.ofSize (n : Nat) (h : n < 2 ^ 31) : Cache where
  slots := replicate n none
  cur := 0
  cur_le := Nat.zero_le _
  small := by simpa using h

/-- The last `n`. -/
def recent {α : Type} (n : Nat) (msgs : List α) : List α := msgs.drop (msgs.length - n)

theorem recent_append (hn : 0 < n) (msg : Msg) : recent n (msgs ++ [msg]) =
    (if msgs.length < n then msgs else (recent n msgs).tail) ++ [msg] := by
  rw [recent, recent, length_append, length_singleton, drop_append_of_le_length (by omega)]
  split
  · rw [Nat.sub_eq_zero_of_le (by omega), drop_zero]
  · rw [tail_drop, show msgs.length + 1 - n = msgs.length - n + 1 by omega]

theorem turned_set {α : Type} {l : List α} {cur : Nat} (h : cur < l.length) (x : α) :
    (l.set cur x).drop (if cur + 1 ≥ l.length then 0 else cur + 1) ++
        (l.set cur x).take (if cur + 1 ≥ l.length then 0 else cur + 1) =
      (l.drop cur ++ l.take cur).tail ++ [x] := by
  have htake := length_take_of_le (Nat.le_of_lt h)
  rw [set_eq_take_append_cons_drop, drop_eq_getElem_cons h, cons_append]
  split
  next hlast =>
    rw [drop_eq_nil_of_le hlast]
    simp
  · rw [drop_append, take_append, htake, drop_eq_nil_of_le (by omega), take_of_length_le (by omega)]
    simp

/-- A cache after these messages: the slots from the oldest on. -/
structure Ring (c : Cache) (n : Nat) (msgs : List Msg) : Prop where
  length : c.slots.length = n
  cur : c.cur = msgs.length % n
  turned : c.slots.drop c.cur ++ c.slots.take c.cur =
    replicate (n - msgs.length) none ++ (recent n msgs).map some

theorem Ring.put {c : Cache} (hn : 0 < n) (h : Ring c n msgs) (msg : Msg) : Ring (c.put msg) n (msgs ++ [msg]) := by
  have hcur : c.cur < n := h.cur ▸ Nat.mod_lt _ hn
  refine ⟨by rw [Cache.put, length_set, h.length], ?_, ?_⟩
  · dsimp only [Cache.put]
    rw [h.length, length_append, length_singleton, ← Nat.mod_add_mod, ← h.cur]
    split
    · rw [show c.cur + 1 = n by omega, Nat.mod_self]
    · rw [Nat.mod_eq_of_lt (by omega)]
  · dsimp only [Cache.put]
    rw [turned_set (by rw [h.length]; exact hcur), h.turned, recent_append hn, length_append]
    split
    next hroom =>
      rw [recent, Nat.sub_eq_zero_of_le (Nat.le_of_lt hroom), show n - msgs.length = n - (msgs.length + 1) + 1 by omega]
      simp
    next hfull =>
      rw [Nat.sub_eq_zero_of_le (by omega), Nat.sub_eq_zero_of_le (by omega)]
      simp

theorem ring_foldl (hn : 0 < n) (h : n < 2 ^ 31) (msgs : List Msg) : Ring (msgs.foldl put (ofSize n h)) n msgs := by
  induction msgs using reverseRecOn with
  | nil => exact ⟨length_replicate, (Nat.zero_mod n).symm, by simp [ofSize, recent]⟩
  | append_singleton _ msg ih =>
    rw [foldl_append]
    exact ih.put hn msg

theorem slots_foldl_zero (h : 0 < 2 ^ 31) (msgs : List Msg) : (msgs.foldl put (ofSize 0 h)).slots = [] := by
  induction msgs using reverseRecOn with
  | nil => rfl
  | append_singleton _ _ ih => simp [put, ih]

theorem take_cur_foldl (hn : 0 < n) (h : n < 2 ^ 31) (msgs : List Msg) :
    let c := msgs.foldl put (ofSize n h)
    c.slots.take c.cur = (recent (msgs.length % n) msgs).map some := by
  intro c
  have hring : Ring c n msgs := ring_foldl hn h msgs
  have hcur : c.cur < n := hring.cur ▸ Nat.mod_lt _ hn
  have hdrop := congrArg (drop (n - c.cur)) hring.turned
  rw [drop_left' (by rw [length_drop, hring.length])] at hdrop
  rw [hdrop, drop_append, drop_eq_nil_of_le, length_replicate, nil_append, ← map_drop, recent, drop_drop, ← hring.cur]
  · congr 2
    by_cases hroom : msgs.length < n
    · omega
    · omega
  · rw [length_replicate]
    by_cases hroom : msgs.length < n
    · have : c.cur = msgs.length := by rw [hring.cur, Nat.mod_eq_of_lt hroom]
      omega
    · omega

theorem oldestFirst_foldl (h : n < 2 ^ 31) (msgs : List Msg) :
    (msgs.foldl put (ofSize n h)).oldestFirst = (recent n msgs).map some := by
  rcases Nat.eq_zero_or_pos n with rfl | hn
  · simp [oldestFirst, slots_foldl_zero, recent]
  have hring := ring_foldl hn h msgs
  have htake := take_cur_foldl hn h msgs
  generalize msgs.foldl put (ofSize n h) = c at hring htake
  have hcur : c.cur < c.slots.length := by rw [hring.length, hring.cur]; exact Nat.mod_lt _ hn
  have hturned := hring.turned
  rw [oldestFirst, getElem?_eq_getElem hcur]
  rw [drop_eq_getElem_cons hcur] at hturned
  by_cases hroom : msgs.length < n
  · rw [show n - msgs.length = n - (msgs.length + 1) + 1 by omega, replicate_succ] at hturned
    rw [(cons.inj hturned).1]
    rw [Nat.mod_eq_of_lt hroom] at htake
    rw [recent, Nat.sub_eq_zero_of_le (Nat.le_of_lt hroom)]
    simpa [recent] using htake
  · rw [Nat.sub_eq_zero_of_le (by omega), replicate_zero, nil_append, cons_append] at hturned
    obtain ⟨_, _, hrecent⟩ := exists_cons_of_length_pos
      (show 0 < (recent n msgs).length by rw [recent, length_drop]; omega)
    rw [hrecent] at hturned
    rw [(cons.inj hturned).1]
    rw [drop_eq_getElem_cons hcur, cons_append, hturned, hrecent]

def numbers (next stop : UInt32) : List UInt32 :=
  (range (stop.toNat - next.toNat)).map fun i => next + UInt32.ofNat i

theorem numbers_of_lt {next : UInt32} (h : next < stop) : numbers next stop = next :: numbers (next + 1) stop := by
  rw [UInt32.lt_iff_toNat_lt] at h
  have hstop := stop.toNat_lt
  have hnext : (next + 1).toNat = next.toNat + 1 := by
    rw [UInt32.toNat_add, UInt32.toNat_one, Nat.mod_eq_of_lt (by omega)]
  rw [numbers, numbers, hnext, show stop.toNat - next.toNat = stop.toNat - (next.toNat + 1) + 1 by omega,
    range_succ_eq_map, map_cons, map_map]
  refine congrArg₂ cons (by simp) (map_congr_left fun i _ => ?_)
  simp [Nat.add_comm i 1, UInt32.add_assoc]

theorem numbers_self (next : UInt32) : numbers next next = [] := by simp [numbers]

theorem fillLoop_spec (stale : Bool) {next : UInt32} (h : next < stop) (msgs : List Msg) :
    let found := fillLoop stale stop next (msgs.map some)
    (found.2 ↔ (numbers next stop).Sublist (msgs.map Msg.seqNum)) ∧
      (found.2 → found.1.map Msg.seqNum = numbers next stop) := by
  induction msgs generalizing next with
  | nil => simp [fillLoop, numbers_of_lt h]
  | cons msg _ ih =>
    have hnext : next + 1 ≠ stop → next + 1 < stop := fun hne => (lt_succ_lt h hne).2
    by_cases hmsg : msg.seqNum = next
    · by_cases hlast : next + 1 = stop
      · simp [fillLoop, hmsg, hlast, numbers_of_lt h, numbers_self]
      · rw [map_cons, fillLoop, if_pos hmsg, if_neg hlast, map_cons, numbers_of_lt h, hmsg, cons_sublist_cons]
        refine ⟨(ih (hnext hlast)).1, fun hfound => ?_⟩
        rw [map_cons, (ih (hnext hlast)).2 hfound]
    · rw [map_cons, fillLoop, if_neg hmsg, map_cons, sublist_cons_iff]
      refine ⟨(ih h).1.trans ⟨.inl, fun hsub => hsub.resolve_right ?_⟩, (ih h).2⟩
      rintro ⟨_, heq, -⟩
      rw [numbers_of_lt h] at heq
      exact hmsg (cons.inj heq).1.symm

theorem takeWhile_map_some (msgs : List Msg) : (msgs.map some).takeWhile Option.isSome = msgs.map some := by
  induction msgs with
  | nil => rfl
  | cons _ _ ih => simp [ih]

/-- The gap up to `stop` is filled from the messages, or nothing is forwarded; and the mark is taken away. -/
def AllOrNothing (s : Strategy) (cached : List Msg) (stop : UInt32) : Prop :=
  ((s.fillGap stop).2 = true ↔ (numbers (s.seqNum + 1) stop).Sublist (cached.map Msg.seqNum)) ∧
    (∃ sent : List Msg, (s.fillGap stop).1.events = s.events ++ sent.map .forward ∧
      sent.map Msg.seqNum = if (s.fillGap stop).2 then numbers (s.seqNum + 1) stop else []) ∧
    (s.fillGap stop).1.setCacheMsgStale = false

/-- The gap is filled as a whole or not at all exactly if, where the numbers of the cache cover it, nothing is marked
stale, and elsewhere its first number is not among them. -/
theorem allOrNothing_iff (h : n < 2 ^ 31) (msgs : List Msg) (s : Strategy)
    (hcache : s.cache = msgs.foldl put (ofSize n h)) (stop : UInt32) (hstop : s.seqNum + 1 < stop) :
    AllOrNothing s (recent n msgs) stop ↔
      if (numbers (s.seqNum + 1) stop).Sublist ((recent n msgs).map Msg.seqNum) then s.setCacheMsgStale = false
      else s.seqNum + 1 ∉ (recent n msgs).map Msg.seqNum := by
  obtain ⟨hfills, hsent⟩ := fillLoop_spec s.setCacheMsgStale hstop (recent n msgs)
  have hnone : (fillLoop s.setCacheMsgStale stop (s.seqNum + 1) ((recent n msgs).map some)).1 = [] ↔ _ :=
    fillLoop_eq_nil_iff
  rw [AllOrNothing, fillGap, hcache, oldestFirst_foldl]
  generalize fillLoop s.setCacheMsgStale stop (s.seqNum + 1) ((recent n msgs).map some) = found at *
  rw [and_iff_right hfills]
  have hforward : ∀ sent : List Msg, s.events ++ found.1.map Event.forward = s.events ++ sent.map Event.forward ↔
      found.1 = sent := fun sent => by
    rw [append_cancel_left_eq]
    exact map_inj_right fun _ _ heq => Event.forward.inj heq
  simp only [hforward, exists_eq_left']
  cases hfound : found.2 with
  | true => simp [hsent hfound, hfills.mp hfound]
  | false =>
    have hnot : ¬(numbers (s.seqNum + 1) stop).Sublist ((recent n msgs).map Msg.seqNum) :=
      fun hsub => by cases hfound.symm.trans (hfills.mpr hsub)
    have hmem : (∀ msg, some msg ∈ ((recent n msgs).map some).takeWhile Option.isSome → msg.seqNum ≠ s.seqNum + 1) ↔
        s.seqNum + 1 ∉ (recent n msgs).map Msg.seqNum := by
      rw [takeWhile_map_some]
      simp
    simp [hnot, hnone, hmem]

def sampleMsgs (seqNums : List UInt32) : List Msg := seqNums.map fun seqNum => { seqNum }

def sampleRing (seqNum : UInt32) (seqNums : List UInt32) (stale : Bool) : Strategy :=
  { seqNum, cache := (sampleMsgs seqNums).foldl put (ofSize 2 (by decide)), setCacheMsgStale := stale }

theorem allOrNothing_filled :
    (0 : UInt32) + 1 < 3 ∧ AllOrNothing (sampleRing 0 [9, 1, 2] false) (recent 2 (sampleMsgs [9, 1, 2])) 3 :=
  ⟨by decide, (allOrNothing_iff (by decide) (sampleMsgs [9, 1, 2]) (sampleRing 0 [9, 1, 2] false) rfl 3
    (by decide)).mpr (by decide)⟩

theorem not_allOrNothing :
    ¬AllOrNothing (sampleRing 0 [1] false) (recent 2 (sampleMsgs [1])) 3 ∧
      ¬AllOrNothing (sampleRing 0 [1] true) (recent 2 (sampleMsgs [1])) 2 := by
  constructor
  · rintro ⟨-, ⟨sent, hevents, hsent⟩, -⟩
    have hnone : sent = [] := map_eq_nil_iff.mp hsent
    rw [hnone] at hevents
    cases hevents
  · rintro ⟨-, -, hmark⟩
    cases hmark

/-! ### Replaying after an image -/

/-- The messages that continue the run after `n`, up to the first one from beyond the next number. -/
def continuing : UInt32 → List Msg → List Msg
  | _, [] => []
  | n, msg :: msgs =>
    if msg.seqNum = n + 1 then msg :: continuing (n + 1) msgs
    else if msg.seqNum > n + 1 then [] else continuing n msgs

theorem applyLoop_eq (msgs : List Msg) (s : Strategy) :
    applyLoop (msgs.map some) s =
      { s with
        events := s.events ++ (continuing s.seqNum msgs).map .forward
        seqNum := ((continuing s.seqNum msgs).map Msg.seqNum).getLastD s.seqNum } := by
  induction msgs generalizing s with
  | nil => simp [applyLoop, continuing]
  | cons msg _ ih =>
    rw [map_cons, applyLoop, continuing]
    by_cases hnext : msg.seqNum = s.seqNum + 1
    · rw [if_pos hnext, if_pos hnext, ih]
      simp only [emit, hnext, map_cons, getLastD_cons, append_assoc, singleton_append]
    · rw [if_neg hnext]
      split
      · simp
      · exact ih s

def Replays (s : Strategy) (cached : List Msg) : Prop :=
  s.applyPreInitialCache =
    { s with
      events := s.events ++ (continuing s.seqNum cached).map .forward
      seqNum := ((continuing s.seqNum cached).map Msg.seqNum).getLastD s.seqNum }

/-- What is scanned of a full ring are the messages since its last turn. -/
theorem replays_iff_continuing (h : n < 2 ^ 31) (msgs : List Msg) (s : Strategy)
    (hcache : s.cache = msgs.foldl put (ofSize n h)) :
    Replays s (recent n msgs) ↔ (0 < n → n ≤ msgs.length →
      continuing s.seqNum (recent n msgs) = continuing s.seqNum (recent (msgs.length % n) msgs)) := by
  rcases Nat.eq_zero_or_pos n with rfl | hn
  · have hslots : s.cache.slots = [] := by rw [hcache, slots_foldl_zero]
    simp [Replays, applyPreInitialCache, hslots, recent, applyLoop, continuing]
  have happlied := applyLoop_eq (recent (msgs.length % n) msgs) s
  rw [← take_cur_foldl hn h, ← hcache] at happlied
  rw [Replays, applyPreInitialCache, happlied]
  by_cases hroom : msgs.length < n
  · rw [Nat.mod_eq_of_lt hroom, recent, recent, Nat.sub_self, Nat.sub_eq_zero_of_le (Nat.le_of_lt hroom)]
    exact iff_of_true rfl fun _ hle => absurd hle (Nat.not_le.mpr hroom)
  · refine ⟨fun heq _ _ => ?_, fun heq => by rw [heq hn (Nat.not_lt.mp hroom)]⟩
    have hevents := append_cancel_left (congrArg Strategy.events heq)
    exact ((map_inj_right fun _ _ heq => Event.forward.inj heq).mp hevents).symm

/-- The first number that is not passed over when `next` is looked for. -/
def reached (next : UInt32) (nums : List UInt32) : Option UInt32 := nums.find? (next ≤ ·)

theorem reached_cons {next num : UInt32} {nums : List UInt32} :
    reached next (num :: nums) = if next ≤ num then some num else reached next nums := by
  by_cases hle : next ≤ num
  · simp [reached, hle]
  · simp [reached, hle]

/-- The first messages decide what is forwarded, unless all of them are passed over. -/
theorem continuing_append (num : UInt32) (older newer : List Msg) :
    match reached (num + 1) (older.map Msg.seqNum) with
    | none => continuing num (older ++ newer) = continuing num newer
    | some found =>
      if found = num + 1 then ∃ msg ∈ older, msg ∈ continuing num (older ++ newer)
      else continuing num (older ++ newer) = [] := by
  induction older with
  | nil => rfl
  | cons msg older ih =>
    rw [map_cons, reached_cons, cons_append, continuing]
    by_cases hnext : msg.seqNum = num + 1
    · simp [hnext]
    · by_cases hbeyond : msg.seqNum > num + 1
      · simp [hnext, hbeyond, UInt32.le_of_lt hbeyond]
      · have hle : ¬num + 1 ≤ msg.seqNum := fun hle => hnext (UInt32.le_antisymm (UInt32.not_lt.mp hbeyond) hle)
        rw [if_neg hnext, if_neg hbeyond, if_neg hle]
        revert ih
        split
        · exact id
        · split
          · rintro ⟨old, hold, hin⟩
            exact ⟨old, mem_cons_of_mem _ hold, hin⟩
          · exact id

theorem continuing_subset (num : UInt32) (msgs : List Msg) : continuing num msgs ⊆ msgs := by
  fun_induction continuing num msgs with
  | case1 => exact Subset.refl _
  | case2 _ _ _ _ ih => exact cons_subset_cons _ ih
  | case3 => exact nil_subset _
  | case4 _ _ _ _ _ ih => exact subset_cons_of_subset _ ih

theorem continuing_eq_nil_iff {num : UInt32} {msgs : List Msg} :
    continuing num msgs = [] ↔ reached (num + 1) (msgs.map Msg.seqNum) ≠ some (num + 1) := by
  have h := continuing_append num msgs []
  rw [append_nil] at h
  revert h
  split
  next hreached => simp [hreached, continuing]
  next found hreached =>
    rw [hreached]
    split
    next hfound =>
      rintro ⟨_, -, hin⟩
      simp [ne_nil_of_mem hin, hfound]
    next hfound =>
      intro hnil
      simp [hnil, hfound]

theorem recent_split {α : Type} {k : Nat} (hk : k ≤ n) (l : List α) (hn : n ≤ l.length) :
    recent n l = (recent n l).take (n - k) ++ recent k l := by
  conv_lhs => rw [← take_append_drop (n - k) (recent n l)]
  rw [recent, drop_drop, show l.length - n + (n - k) = l.length - k by omega]
  rfl

theorem map_recent {α β : Type} (f : α → β) (l : List α) : (recent n l).map f = recent n (l.map f) := by
  rw [recent, recent, map_drop, length_map]

/-- A cache of `n` slots took messages with the numbers `nums` and was turned around. What it forgot has no effect for
the number `num`: all of it is passed over, or it begins with a number beyond the next one and the rest does not begin
with the next one. -/
def TurnsUnseen (n : Nat) (num : UInt32) (nums : List UInt32) : Prop :=
  ∀ found, reached (num + 1) ((recent n nums).take (n - nums.length % n)) = some found →
    found ≠ num + 1 ∧ reached (num + 1) (recent (nums.length % n) nums) ≠ some (num + 1)

/-- The replay after an image forwards the run that continues the image's number over the last `n` messages, whatever
else they hold, if and only if the ring was not filled, or what it forgets is not missed. -/
theorem replays_iff (h : n < 2 ^ 31) (num : UInt32) (nums : List UInt32) :
    (∀ (msgs : List Msg) (s : Strategy), msgs.map Msg.seqNum = nums → s.seqNum = num →
      s.cache = msgs.foldl put (ofSize n h) → Replays s (recent n msgs)) ↔
      (0 < n → n ≤ nums.length → TurnsUnseen n num nums) := by
  constructor
  · intro hreplays hn hle found hfound
    have hturned := Nat.mod_lt nums.length hn
    -- messages of two senders, so that a forgotten message is not taken for a kept one
    let kept : List Msg := (recent (nums.length % n) nums).map fun seqNum => { seqNum }
    let forgotten : List Msg :=
      (nums.take (nums.length - nums.length % n)).map fun seqNum => { seqNum, senderId := 1 }
    have hmsgs : (forgotten ++ kept).map Msg.seqNum = nums := by
      simp [forgotten, kept, recent, Function.comp_def]
    have hforgotten : forgotten.length = nums.length - nums.length % n := by
      rw [length_map, length_take]
      omega
    have hlength : (forgotten ++ kept).length = nums.length := by simpa using congrArg length hmsgs
    have hkept : recent (nums.length % n) (forgotten ++ kept) = kept := by
      rw [recent, hlength, drop_left' hforgotten]
    have hsplit : recent n (forgotten ++ kept) = forgotten.drop (nums.length - n) ++ kept := by
      rw [recent, hlength, drop_append_of_le_length (by omega)]
    have heq := (replays_iff_continuing h (forgotten ++ kept) { seqNum := num, cache := _ } rfl).mp
      (hreplays _ _ hmsgs rfl rfl) hn (by rwa [hlength])
    have happend := continuing_append num (forgotten.drop (nums.length - n)) kept
    rw [hlength, hkept, hsplit] at heq
    have hold : (forgotten.drop (nums.length - n)).map Msg.seqNum = (recent n nums).take (n - nums.length % n) := by
      rw [recent, ← map_drop, drop_take, show nums.length - nums.length % n - (nums.length - n) = n - nums.length % n by
        omega]
      simp [Function.comp_def]
    rw [hold, hfound] at happend
    dsimp only at happend
    split at happend
    next =>
      obtain ⟨msg, hmsg, hin⟩ := happend
      rw [heq] at hin
      obtain ⟨_, -, hnew⟩ := mem_map.mp (continuing_subset num kept hin)
      obtain ⟨_, -, rfl⟩ := mem_map.mp (mem_of_mem_drop hmsg)
      cases congrArg Msg.senderId hnew
    next hne =>
      refine ⟨hne, ?_⟩
      have hnil := continuing_eq_nil_iff.mp (heq.symm.trans happend)
      simpa [kept, Function.comp_def] using hnil
  · rintro hunseen msgs s rfl rfl hcache
    refine (replays_iff_continuing h msgs s hcache).mpr fun hn hle => ?_
    have hsplit := recent_split (Nat.le_of_lt (Nat.mod_lt msgs.length hn)) msgs hle
    have happend := continuing_append s.seqNum ((recent n msgs).take (n - msgs.length % n))
      (recent (msgs.length % n) msgs)
    have hfound := hunseen hn (by rwa [length_map])
    rw [TurnsUnseen, length_map, ← map_recent, ← map_take, ← map_recent] at hfound
    rw [hsplit]
    revert happend
    split
    · exact id
    next found hreached =>
      obtain ⟨hne, hnew⟩ := hfound found hreached
      rw [if_neg hne, continuing_eq_nil_iff.mpr hnew]
      exact id

theorem replays_after_turn : Replays (sampleRing 1 [9, 1, 2] false) (recent 2 (sampleMsgs [9, 1, 2])) := by
  refine (replays_iff (by decide) 1 [9, 1, 2]).mpr (fun _ _ found hfound => ?_) (sampleMsgs [9, 1, 2])
    (sampleRing 1 [9, 1, 2] false) rfl rfl rfl
  have hpassed : reached 2 ((recent 2 [9, 1, 2]).take 1) = none := by decide
  cases hpassed.symm.trans hfound

theorem not_replays_full : ¬Replays (sampleRing 0 [1, 2] false) (recent 2 (sampleMsgs [1, 2])) := by
  unfold Replays
  decide

end OpenMama.DataQuality
