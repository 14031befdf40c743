import OpenMama.DataQuality.Updates

/-!
# The numbers of the updates that are forwarded

`DQ_SCHEME_INGORE_DUPS` drops an update whose number is not beyond that of the context, except while a recap is
awaited. `increases_iff` says when the numbers that are forwarded between two images increase.

There are two more ways for a number to be forwarded twice: a conflate count of 0, or one that goes around, makes the
number of the context the next one; and a number that is the next one but for its count is looked for among the cached
messages.
-/

namespace OpenMama.DataQuality

open Strategy List Option

/-! ### What was forwarded -/

def newer (n : Option UInt32) : Event → Option UInt32
  | .forward msg => if msg.type.isImage then none else some msg.seqNum
  | _ => n

def Later (n : Option UInt32) : Event → Prop
  | .forward msg => msg.type.isImage = false → ∀ k, n = some k → k < msg.seqNum
  | _ => True

/-- Nothing, or a number before this one. -/
instance decidableForallLt (n : Option UInt32) (k : UInt32) : Decidable (∀ m, n = some m → m < k) :=
  match n with
  | none => isTrue nofun
  | some m => decidable_of_iff (m < k) ⟨fun h _ hm => some.inj hm ▸ h, fun h => h m rfl⟩

instance (n : Option UInt32) : (e : Event) → Decidable (Later n e)
  | .forward _ => inferInstanceAs (Decidable (_ → _))
  | .gap | .quality _ | .staleData | .recapRequest => isTrue trivial

def Increases (n : Option UInt32) (events : List Event) : Prop := Along newer Later n events

instance (n : Option UInt32) (events : List Event) : Decidable (Increases n events) :=
  inferInstanceAs (Decidable (Along newer Later n events))

def newestFrom (n : Option UInt32) (events : List Event) : Option UInt32 := events.foldl newer n

def Strategy.newest (s : Strategy) : Option UInt32 := newestFrom none s.events

variable {es : List Event} {msg : Msg} {next stop : UInt32} {slots : List (Option Msg)} {stale : Bool} {sender : UInt64}
  {s : Strategy} {t : Transport}

theorem newestFrom_append (n : Option UInt32) (es fs : List Event) :
    newestFrom n (es ++ fs) = newestFrom (newestFrom n es) fs := foldl_append ..

theorem increases_append {n : Option UInt32} {fs : List Event} :
    Increases n (es ++ fs) ↔ Increases n es ∧ Increases (newestFrom n es) fs := along_append

def Quiet (events : List Event) : Prop := ∀ msg, .forward msg ∉ events

theorem newer_of_ne {e : Event} (h : ∀ msg, e ≠ .forward msg) (n : Option UInt32) : newer n e = n ∧ Later n e := by
  cases e with
  | forward msg => exact absurd rfl (h msg)
  | gap | quality | staleData | recapRequest => exact ⟨rfl, trivial⟩

theorem newer_forward (h : msg.type.isImage = false) (n : Option UInt32) :
    newer n (.forward msg) = some msg.seqNum := if_neg (by simp [h])

theorem Quiet.along (h : Quiet es) (n : Option UInt32) : Increases n es ∧ newestFrom n es = n := by
  induction es with
  | nil => exact ⟨trivial, rfl⟩
  | cons e _ ih =>
    obtain ⟨hnewer, hlater⟩ := newer_of_ne (fun msg heq => h msg (heq ▸ mem_cons_self)) n
    have hrest := ih fun msg hmem => h msg (mem_cons_of_mem _ hmem)
    rw [newestFrom, foldl_cons, hnewer]
    exact ⟨⟨hlater, hnewer.symm ▸ hrest.1⟩, hrest.2⟩

theorem Increases.lt {k : UInt32} (h : Increases (some k) es) (hes : ∀ m, .forward m ∈ es → m.type.isImage = false)
    (hmem : .forward msg ∈ es) : k < msg.seqNum := by
  induction es generalizing k with
  | nil => cases hmem
  | cons e es ih =>
    have hrest : ∀ m, .forward m ∈ es → m.type.isImage = false := fun m hm => hes m (mem_cons_of_mem _ hm)
    by_cases hforward : ∃ m, e = .forward m
    · obtain ⟨m, rfl⟩ := hforward
      have himage := hes m mem_cons_self
      have hlt : k < m.seqNum := h.1 himage k rfl
      rcases mem_cons.mp hmem with heq | hmem
      · rwa [Event.forward.inj heq]
      · exact UInt32.lt_trans hlt (ih (newer_forward himage (some k) ▸ h.2) hrest hmem)
    · have hquiet := (newer_of_ne (fun m heq => hforward ⟨m, heq⟩) (some k)).1
      refine ih (hquiet ▸ h.2) hrest ((mem_cons.mp hmem).resolve_left fun heq => hforward ⟨msg, heq.symm⟩)

theorem increases_quiet_forward (h : Quiet es) (hmsg : msg.type.isImage = false) (n : Option UInt32) :
    (Increases n (es ++ [.forward msg]) ↔ ∀ k, n = some k → k < msg.seqNum) ∧
      newestFrom n (es ++ [.forward msg]) = some msg.seqNum := by
  rw [increases_append, newestFrom_append, (h.along n).2]
  exact ⟨⟨fun hall => hall.2.1 hmsg, fun hlater => ⟨(h.along n).1, fun _ => hlater, trivial⟩⟩, newer_forward hmsg n⟩

theorem resetDqState_told (s : Strategy) : ∃ es, Quiet es ∧
    s.resetDqState = { s with dqState := .ok, events := s.events ++ es } := by
  unfold resetDqState
  split
  · exact ⟨[.quality .ok], by simp [Quiet], rfl⟩
  · exact ⟨[], by simp [Quiet], by rw [append_nil]⟩

theorem handleStaleData_told (s : Strategy) : ∃ es, Quiet es ∧
    s.handleStaleData = { s with dqState := .waitingForRecap, events := s.events ++ es } := by
  by_cases hidle : s.dqState ≠ .waitingForRecap ∧ s.dqState ≠ .possiblyStale
  · refine ⟨[.staleData, .recapRequest, .quality .stale], by simp [Quiet], (if_pos hidle).trans ?_⟩
    simp [emit, sendRecapRequest]
  · by_cases hstale : s.dqState = .possiblyStale
    · refine ⟨[.staleData, .recapRequest], by simp [Quiet], ((if_neg hidle).trans (if_pos hstale)).trans ?_⟩
      simp [emit, sendRecapRequest]
    · have hwait : s.dqState = .waitingForRecap := by tauto
      refine ⟨[.staleData], by simp [Quiet], ((if_neg hidle).trans (if_neg hstale)).trans ?_⟩
      rw [← hwait]
      rfl

theorem lt_succ_lt (h : next < stop) (hne : next + 1 ≠ stop) : next < next + 1 ∧ next + 1 < stop := by
  rw [UInt32.lt_iff_toNat_lt] at h ⊢
  rw [UInt32.lt_iff_toNat_lt]
  have hnat : (next + 1).toNat ≠ stop.toNat := fun heq => hne (UInt32.toNat_inj.mp heq)
  have hlt := stop.toNat_lt
  rw [UInt32.toNat_add, UInt32.toNat_one] at hnat ⊢
  omega

theorem fillLoop_increases (stale : Bool) (hslots : ∀ msg, some msg ∈ slots → msg.type.isImage = false)
    (hstop : next < stop) {n : Option UInt32} (hn : ∀ k, n = some k → k < next) :
    Increases n ((fillLoop stale stop next slots).1.map .forward) ∧
      ∀ k, newestFrom n ((fillLoop stale stop next slots).1.map .forward) = some k → k < stop := by
  fun_induction fillLoop stale stop next slots generalizing n with
  | case1 | case2 => exact ⟨trivial, fun k hk => UInt32.lt_trans (hn k hk) hstop⟩
  | case3 msg _ sent _ =>
    have hnewer : newer n (.forward sent) = some msg.seqNum := newer_forward (hslots msg mem_cons_self) n
    exact ⟨⟨fun _ => hn, trivial⟩, fun k hk => some.inj (hnewer.symm.trans hk) ▸ hstop⟩
  | case4 msg _ sent hlast _ ih =>
    have hsucc := lt_succ_lt hstop hlast
    have hnewer : newer n (.forward sent) = some msg.seqNum := newer_forward (hslots msg mem_cons_self) n
    have hrest := ih (fun m hm => hslots m (mem_cons_of_mem _ hm)) hsucc.2 (n := some msg.seqNum)
      fun k hk => some.inj hk ▸ hsucc.1
    rw [map_cons, newestFrom, foldl_cons, Increases, Along, hnewer]
    exact ⟨⟨fun _ => hn, hrest.1⟩, hrest.2⟩
  | case5 _ _ _ _ ih => exact ih (fun m hm => hslots m (mem_cons_of_mem _ hm)) hstop hn

theorem fillLoop_eq_nil_iff :
    (fillLoop stale stop next slots).1 = [] ↔
      ∀ msg, some msg ∈ slots.takeWhile isSome → msg.seqNum ≠ next := by
  fun_induction fillLoop stale stop next slots with
  | case1 | case2 => simp
  | case3 | case4 => simp
  | case5 _ _ _ hmsg ih => simp [ih, hmsg]

theorem mem_fillLoop (hslots : ∀ msg, some msg ∈ slots → msg.type.isImage = false) :
    ∀ msg ∈ (fillLoop stale stop next slots).1, msg.type.isImage = false := by
  fun_induction fillLoop stale stop next slots with
  | case1 | case2 => nofun
  | case3 msg _ _ => exact forall_mem_singleton.mpr (hslots msg mem_cons_self)
  | case4 msg _ _ _ _ ih =>
    exact forall_mem_cons.mpr ⟨hslots msg mem_cons_self, ih fun m hm => hslots m (mem_cons_of_mem _ hm)⟩
  | case5 _ _ _ _ ih => exact ih fun m hm => hslots m (mem_cons_of_mem _ hm)

theorem head_fillLoop {rest : List Msg} (h : (fillLoop stale stop next slots).1 = msg :: rest) : msg.seqNum = next := by
  fun_induction fillLoop stale stop next slots with
  | case1 | case2 => cases h
  | case3 | case4 => exact (List.cons.inj h).1 ▸ rfl
  | case5 _ _ _ _ ih => exact ih h

theorem not_increases_of_cached (hslots : ∀ msg, some msg ∈ slots → msg.type.isImage = false)
    (hfound : (fillLoop stale stop stop slots).1 ≠ []) (hes : Quiet es) (hmsg : msg.type.isImage = false)
    (hseq : msg.seqNum = stop) (n : Option UInt32) :
    ¬ Increases n ((fillLoop stale stop stop slots).1.map .forward ++ (es ++ [.forward msg])) := by
  intro h
  have hall : ∀ msg ∈ (fillLoop stale stop stop slots).1, msg.type.isImage = false := mem_fillLoop hslots
  obtain ⟨first, rest, heq⟩ := exists_cons_of_ne_nil hfound
  have hfirst : first.seqNum = msg.seqNum := (head_fillLoop heq).trans hseq.symm
  rw [heq] at h hall
  obtain ⟨himage, hrest⟩ := forall_mem_cons.mp hall
  have hlater : Increases (some first.seqNum) (rest.map .forward ++ (es ++ [.forward msg])) :=
    newer_forward himage n ▸ h.2
  have hmem : .forward msg ∈ rest.map Event.forward ++ (es ++ [.forward msg]) := by simp
  refine UInt32.lt_irrefl _ (hfirst ▸ hlater.lt (fun m hm => ?_) hmem)
  rcases mem_append.mp hm with hmem | hmem
  · obtain ⟨m', hm', heq'⟩ := mem_map.mp hmem
    exact Event.forward.inj heq' ▸ hrest m' hm'
  · rcases mem_append.mp hmem with hquiet | hlast
    · exact absurd hquiet (hes m)
    · rwa [Event.forward.inj (mem_singleton.mp hlast)]

/-! ### One update -/

/-- A context of one sender, with updates in its cache. -/
structure Owned (sender : UInt64) (s : Strategy) : Prop where
  recoverGaps : s.recoverGaps
  senderId : s.senderId = 0 ∨ s.senderId = sender
  cached : ∀ msg, some msg ∈ s.cache.slots → msg.seqNum ≠ 0 ∧ msg.type.isImage = false

/-- An owned context whose number, unless it waits, is that of the newest message forwarded. -/
structure Follows (t : Transport) (sender : UInt64) (s : Strategy) : Prop extends Owned sender s where
  dqState : s.dqState ≠ .waitingForRecapAfterFt
  spent : waiting s.dqState → t.preInitialOnGap → s.tryToFillGap = false
  newest : waiting s.dqState = false → ∀ n, s.newest = some n → n = s.seqNum

/-- The update is tried as the end of a gap that it is not: it has the next number, and a conflate count
that says otherwise. -/
def Misfit (t : Transport) (s : Strategy) (msg : Msg) : Prop :=
  msg.seqNum = s.seqNum + 1 ∧ isNext s.dqState s.seqNum msg = false ∧ t.preInitialOnGap ∧ s.tryToFillGap

/-- The update goes beyond what was forwarded, where the code does not see to it. -/
structure Fresh (t : Transport) (s : Strategy) (msg : Msg) : Prop where
  /-- While a recap is awaited, and where the conflate count makes an old number the next one. -/
  unchecked : waiting s.dqState ∨ msg.seqNum ≤ s.seqNum ∧ Accepted s.dqState s.seqNum msg →
    ∀ n, s.newest = some n → n < msg.seqNum
  misfit : Misfit t s msg →
    ∀ m, some m ∈ s.cache.oldestFirst.takeWhile isSome → m.seqNum ≠ msg.seqNum

/-- The update is late and is dropped: its number is not beyond the context's, nor the next one by its conflate count.
None is late while a recap is awaited. -/
def Behind (s : Strategy) (msg : Msg) : Prop :=
  waiting s.dqState = false ∧ msg.seqNum ≤ s.seqNum ∧ ¬ Accepted s.dqState s.seqNum msg

instance (t : Transport) (s : Strategy) (msg : Msg) : Decidable (Misfit t s msg) :=
  inferInstanceAs (Decidable (_ ∧ _))

instance (s : Strategy) (msg : Msg) : Decidable (Behind s msg) := inferInstanceAs (Decidable (_ ∧ _))

theorem Owned.not_takeover (h : Owned sender s) (hmsg : msg.senderId = sender) : isTakeover s msg = false := by
  rcases h.senderId with hzero | hsame
  · simp [isTakeover, hzero]
  · simp [isTakeover, hsame, hmsg]

theorem Owned.checkSeqNum_eq (h : Owned sender s) (hmsg : msg.senderId = sender) (t : Transport) :
    checkSeqNum t msg s = checkType t s.dqState s.seqNum msg { s with doNotForward := false } := by
  rw [checkSeqNum, if_pos h.recoverGaps, h.not_takeover hmsg, if_neg (by decide)]

theorem mem_oldestFirst {c : Cache} (h : some msg ∈ c.oldestFirst) : some msg ∈ c.slots := by
  unfold Cache.oldestFirst at h
  split at h
  · rcases mem_append.mp h with hdrop | htake
    · exact mem_of_mem_drop hdrop
    · exact mem_of_mem_take htake
  · exact mem_of_mem_take h

/-- What a message adds to the log, when the numbers in it increase, which is the last of them, and that the context
follows. -/
structure Handled (t : Transport) (sender : UInt64) (s s' : Strategy) (good : Prop) (new : Option UInt32) : Prop where
  follows : Follows t sender s'
  log : ∃ es, s'.events = s.events ++ es ∧ (Increases s.newest es ↔ good)
  newest : s'.newest = new

theorem Handled.congr {s' : Strategy} {p q : Prop} {new : Option UInt32} (h : Handled t sender s s' p new)
    (hpq : p ↔ q) : Handled t sender s s' q new := propext hpq ▸ h

theorem newest_of_forward (h : s.events = es ++ [.forward msg]) (hmsg : msg.type.isImage = false) :
    s.newest = some msg.seqNum := by
  rw [newest, h, newestFrom_append]
  exact newer_forward hmsg (newestFrom none es)

theorem Owned.clearCache (h : Owned sender s) : Owned sender s.clearCache := by
  refine ⟨h.recoverGaps, h.senderId, fun msg hmem => ?_⟩
  obtain ⟨_, -, ⟨⟩⟩ := mem_map.mp hmem

theorem Owned.settled (h : Owned sender s) : Owned sender (settled { s with doNotForward := false }) := by
  have hfresh : Owned sender { s with doNotForward := false, tryToFillGap := false } := { h with }
  unfold DataQuality.settled
  split
  · exact hfresh.clearCache
  · exact { h with }

theorem follows_of_forward (howned : Owned sender s) (hstate : s.dqState ≠ .waitingForRecapAfterFt)
    (hspent : waiting s.dqState → t.preInitialOnGap → s.tryToFillGap = false)
    (hevents : s.events = es ++ [.forward msg]) (hmsg : msg.type.isImage = false)
    (hseq : waiting s.dqState = false → msg.seqNum = s.seqNum) : Follows t sender s := by
  refine ⟨howned, hstate, hspent, fun hwait n hn => ?_⟩
  rw [newest_of_forward hevents hmsg] at hn
  exact some.inj hn ▸ hseq hwait

/-- The context in which an update is late: as it was, but for the gap that there may be to fill. -/
structure Prepared (s r : Strategy) : Prop where
  events : r.events = s.events
  seqNum : r.seqNum = s.seqNum
  dqState : r.dqState = s.dqState
  doNotForward : r.doNotForward = false
  tryToFillGap : r.tryToFillGap = true → s.tryToFillGap = true ∧ r.cache = s.cache

section Update

variable {t : Transport} {sender : UInt64} {s r : Strategy} {msg : Msg}

theorem reportGap_handled (howned : Owned sender r) (hmsg : msg.type.isImage = false)
    (hspent : t.preInitialOnGap → r.tryToFillGap = false) {fs : List Event}
    (hevents : r.events = s.events ++ fs) {good : Prop}
    (hgood : ∀ es m, Quiet es → m.type.isImage = false → m.seqNum = msg.seqNum →
      (Increases s.newest (fs ++ (es ++ [.forward m])) ↔ good)) :
    Handled t sender s ((reportGap msg r).1.emit (.forward (reportGap msg r).2)) good (some msg.seqNum) := by
  obtain ⟨es, hquiet, hstale⟩ := handleStaleData_told (r.emit .gap)
  have hgap : Quiet (.gap :: es) := fun m hmem => by
    rcases mem_cons.mp hmem with heq | hrest
    · cases heq
    · exact hquiet m hrest
  rw [reportGap, hstale]
  refine ⟨follows_of_forward { howned with } ?_ (fun _ => hspent) rfl hmsg (by simp [emit, waiting]), ⟨_, ?_,
    hgood _ { msg with status := .stale } hgap hmsg rfl⟩, ?_⟩
  · exact show DqState.waitingForRecap ≠ .waitingForRecapAfterFt by decide
  · simp [emit, hevents]
  · exact @newest_of_forward _ { msg with status := .stale } _ rfl hmsg

theorem Follows.newest_lt (h : Follows t sender s) (hwait : waiting s.dqState = false)
    (hlt : s.seqNum < msg.seqNum) : ∀ n, s.newest = some n → n < msg.seqNum :=
  fun n hn => h.newest hwait n hn ▸ hlt

theorem fill_increases_iff (h : Follows t sender s) (hwait : waiting s.dqState = false) (hlt : s.seqNum < msg.seqNum)
    (hfill : isNext s.dqState s.seqNum msg = false ∧ t.preInitialOnGap ∧ s.tryToFillGap) (stale : Bool)
    {m : Msg} (hes : Quiet es) (hm : m.type.isImage = false)
    (hseq : m.seqNum = msg.seqNum) :
    Increases s.newest ((fillLoop stale msg.seqNum (s.seqNum + 1) s.cache.oldestFirst).1.map .forward ++
      (es ++ [.forward m])) ↔ Fresh t s msg := by
  have hslots : ∀ m, some m ∈ s.cache.oldestFirst → m.type.isImage = false :=
    fun m hmem => (h.cached m (mem_oldestFirst hmem)).2
  have hchecked : waiting s.dqState ∨ msg.seqNum ≤ s.seqNum ∧ Accepted s.dqState s.seqNum msg →
      ∀ n, s.newest = some n → n < msg.seqNum := fun _ => h.newest_lt hwait hlt
  by_cases hnext : msg.seqNum = s.seqNum + 1
  · rw [← hnext]
    by_cases hnone : (fillLoop stale msg.seqNum msg.seqNum s.cache.oldestFirst).1 = []
    · refine iff_of_true ?_ ⟨hchecked, fun _ => fillLoop_eq_nil_iff.mp hnone⟩
      rw [hnone, map_nil, nil_append, (increases_quiet_forward hes hm _).1, hseq]
      exact h.newest_lt hwait hlt
    · refine iff_of_false (not_increases_of_cached hslots hnone hes hm hseq _) fun hadv => hnone ?_
      exact fillLoop_eq_nil_iff.mpr (hadv.misfit ⟨hnext, hfill⟩)
  · refine iff_of_true ?_ ⟨hchecked, fun hmisfit => absurd hmisfit.1 hnext⟩
    have hsucc := lt_succ_lt hlt fun heq => hnext heq.symm
    obtain ⟨hloop, hnewest⟩ := fillLoop_increases stale hslots hsucc.2 fun n hn =>
      h.newest hwait n hn ▸ hsucc.1
    rw [increases_append, (increases_quiet_forward hes hm _).1, hseq]
    exact ⟨hloop, hnewest⟩

theorem checkGap_handled (h : Follows t sender s) (howned : Owned sender r) (hr : Prepared s r)
    (hmsg : msg.type.isImage = false)
    (hnext : r.tryToFillGap → isNext s.dqState s.seqNum msg = false)
    (hsame : isNext s.dqState s.seqNum msg = false → r.tryToFillGap = s.tryToFillGap)
    (hold : waiting s.dqState = false → s.seqNum < msg.seqNum) :
    Handled t sender s ((checkGap t msg r).1.emit (.forward (checkGap t msg r).2)) (Fresh t s msg)
      (some msg.seqNum) := by
  rw [checkGap]
  by_cases hfill : (t.preInitialOnGap && r.tryToFillGap)
  · obtain ⟨hscheme, htry⟩ := Bool.and_eq_true_iff.mp hfill
    obtain ⟨htry', hcache⟩ := hr.tryToFillGap htry
    have hwait : waiting s.dqState = false := by
      by_contra hwait
      cases htry'.symm.trans (h.spent (Bool.not_eq_false _ ▸ hwait) hscheme)
    set fs := (fillLoop r.setCacheMsgStale msg.seqNum (s.seqNum + 1) s.cache.oldestFirst).1.map
      Event.forward with hfs
    have hgood : ∀ es m, Quiet es → m.type.isImage = false → m.seqNum = msg.seqNum →
        (Increases s.newest (fs ++ (es ++ [.forward m])) ↔ Fresh t s msg) := fun es m hes hm hseq =>
      fill_increases_iff h hwait (hold hwait) ⟨hnext htry, hscheme, htry'⟩ _ hes hm hseq
    have htried : ({ r with tryToFillGap := false }.fillGap msg.seqNum).1.events = s.events ++ fs := by
      rw [hfs, ← hr.events, ← hr.seqNum, ← hcache]
      rfl
    have hclear : Owned sender ({ r with tryToFillGap := false }.fillGap msg.seqNum).1.clearCache :=
      Owned.clearCache { howned with }
    rw [if_pos hfill]
    dsimp only
    split
    · have hlog : s.events ++ fs ++ [.forward msg] = s.events ++ (fs ++ ([] ++ [.forward msg])) := by
        rw [nil_append, append_assoc]
      have hevents : (({ r with tryToFillGap := false }.fillGap msg.seqNum).1.events
          ++ [.forward msg]) = s.events ++ fs ++ [.forward msg] := by rw [htried]
      refine ⟨follows_of_forward { hclear with } ?_ (fun _ _ => rfl)
        hevents hmsg (fun _ => rfl), ⟨_, hevents.trans hlog,
        hgood [] msg (fun _ => not_mem_nil) hmsg rfl⟩, newest_of_forward hevents hmsg⟩
      exact (show r.dqState ≠ .waitingForRecapAfterFt from hr.dqState ▸ h.dqState)
    · exact reportGap_handled hclear hmsg (fun _ => rfl) htried hgood
  · rw [if_neg hfill]
    have hspent : t.preInitialOnGap → r.tryToFillGap = false := fun hscheme => by simpa [hscheme] using hfill
    apply reportGap_handled howned hmsg hspent (hr.events.trans (append_nil _).symm)
    intro _ m hes hm hseq
    rw [nil_append, (increases_quiet_forward hes hm _).1, hseq]
    refine ⟨fun hlater => ⟨fun _ => hlater, fun hmisfit => ?_⟩, fun hadv => ?_⟩
    · have hno := (hsame hmisfit.2.1).symm.trans (hspent hmisfit.2.2.1)
      cases hmisfit.2.2.2.symm.trans hno
    · by_cases hwait : waiting s.dqState
      · exact hadv.unchecked (.inl hwait)
      · have hwait' : waiting s.dqState = false := Bool.not_eq_true _ ▸ hwait
        exact h.newest_lt hwait' (hold hwait')

theorem isImage_of_isUpdate (h : msg.type.isUpdate) : msg.type.isImage = false := by
  simp only [MsgType.isUpdate, Bool.and_eq_true, Bool.not_eq_true'] at h
  exact h.1

theorem accepted_handled (h : Follows t sender s) (hmsg : msg.type.isImage = false)
    (haccepted : Accepted s.dqState s.seqNum msg) :
    Handled t sender s
      ({ (settled { s with doNotForward := false }).resetDqState with seqNum := msg.seqNum }.emit
        (.forward msg)) (Fresh t s msg) (some msg.seqNum) := by
  have hsettled := h.toOwned.settled
  obtain ⟨-, -, -, -, -, hevents, htry⟩ := settled_frame { s with doNotForward := false }
  obtain ⟨es, hquiet, hreset⟩ := resetDqState_told (settled { s with doNotForward := false })
  rw [hreset]
  have hlog : s.events ++ es ++ [.forward msg] = s.events ++ (es ++ [.forward msg]) := append_assoc ..
  have htold : (settled { s with doNotForward := false }).events ++ es ++ [.forward msg]
      = s.events ++ es ++ [.forward msg] := by rw [hevents]
  refine ⟨follows_of_forward { hsettled with }
    (show DqState.ok ≠ .waitingForRecapAfterFt by decide) (fun _ _ => htry) htold hmsg
    (fun _ => rfl), ⟨_, htold.trans hlog, ?_⟩, newest_of_forward htold hmsg⟩
  rw [(increases_quiet_forward hquiet hmsg _).1]
  refine ⟨fun hlater => ⟨fun _ => hlater, fun hmisfit => ?_⟩, fun hadv => ?_⟩
  · cases haccepted.1.symm.trans hmisfit.2.1
  · by_cases hcase : waiting s.dqState ∨ msg.seqNum ≤ s.seqNum
    · exact hadv.unchecked (hcase.imp_right fun hle => ⟨hle, haccepted⟩)
    · rw [not_or] at hcase
      exact h.newest_lt (Bool.not_eq_true _ ▸ hcase.1) (UInt32.not_le.mp hcase.2)

theorem late_handled (ht : t.ignoreDups) (h : Follows t sender s) (howned : Owned sender r)
    (hr : Prepared s r) (hmsg : msg.type.isImage = false) (hseq : msg.seqNum ≠ 0)
    (hlate : ¬ Accepted s.dqState s.seqNum msg)
    (hnext : r.tryToFillGap → isNext s.dqState s.seqNum msg = false)
    (hsame : isNext s.dqState s.seqNum msg = false → r.tryToFillGap = s.tryToFillGap)
    (hspent : waiting s.dqState → t.preInitialOnGap → r.tryToFillGap = false) :
    let late := checkLate t s.dqState s.seqNum msg r
    Handled t sender s (if late.1.doNotForward then late.1 else late.1.emit (.forward late.2)) (Fresh t s msg)
      (if Behind s msg then s.newest else some msg.seqNum) := by
  have hnotNext : msg.seqNum ≤ s.seqNum → ¬ Misfit t s msg := by
    rintro hle ⟨heq, -⟩
    rw [UInt32.le_iff_toNat_le] at hle
    have hzero : msg.seqNum.toNat ≠ 0 := fun hzero => hseq (UInt32.toNat_inj.mp hzero)
    have hnat := congrArg UInt32.toNat heq
    have hbound := s.seqNum.toNat_lt
    rw [UInt32.toNat_add, UInt32.toNat_one] at hnat
    omega
  dsimp only
  unfold checkLate
  by_cases hdrop : (t.ignoreDups && decide (msg.seqNum ≤ s.seqNum) && !waiting r.dqState)
  · -- It is dropped.
    rw [if_pos hdrop]
    simp only [Bool.and_eq_true, decide_eq_true_eq, Bool.not_eq_true'] at hdrop
    have hwait : waiting s.dqState = false := hr.dqState ▸ hdrop.2
    have hbehind : Behind s msg := ⟨hwait, hdrop.1.2, hlate⟩
    rw [if_pos hbehind]
    have hsame : r.newest = s.newest := congrArg (newestFrom none) hr.events
    refine ⟨⟨{ howned with }, hr.dqState ▸ h.dqState, hr.dqState ▸ hspent, fun _ n hn => ?_⟩, ⟨[], ?_, ?_⟩, hsame⟩
    · exact hr.seqNum ▸ h.newest hwait n (hsame.symm.trans hn)
    · exact hr.events.trans (append_nil _).symm
    · refine iff_of_true trivial ⟨fun hcase => ?_, fun hmisfit => absurd hmisfit (hnotNext hdrop.1.2)⟩
      rcases hcase with hwaiting | haccepted
      · cases hwait.symm.trans hwaiting
      · exact absurd haccepted.2 hlate
  · rw [if_neg hdrop]
    have hold : waiting s.dqState = false → s.seqNum < msg.seqNum := fun hwait => by
      simpa [ht, hr.dqState, hwait] using hdrop
    have hahead : ¬ Behind s msg := fun hbehind => UInt32.not_le.mpr (hold hbehind.1) hbehind.2.1
    rw [if_neg hahead]
    by_cases hdup : msg.seqNum = s.seqNum ∧ s.dqState ≠ .waitingForRecapAfterFt
    · -- It repeats the number of a context that waits for a recap.
      rw [if_pos hdup]
      have hwait : waiting s.dqState := by
        by_contra hno
        exact UInt32.lt_irrefl _ (hdup.1 ▸ hold (Bool.not_eq_true _ ▸ hno))
      have hforward : ¬ r.doNotForward := by simp [hr.doNotForward]
      change Handled t sender s (if r.doNotForward = true then _ else _) _ _
      rw [if_neg hforward]
      have hquiet : Quiet [.quality .duplicate] := by simp [Quiet]
      have himage : ({ msg with status := .duplicate } : Msg).type.isImage = false := hmsg
      have hlog : r.events ++ [.quality .duplicate] ++ [.forward { msg with status := .duplicate }]
          = s.events ++ ([.quality .duplicate] ++ [.forward { msg with status := .duplicate }]) := by
        rw [hr.events, append_assoc]
      refine ⟨follows_of_forward { howned with }
        (show DqState.duplicate ≠ .waitingForRecapAfterFt by decide) nofun rfl hmsg
        fun _ => ?_, ⟨_, hlog, ?_⟩, @newest_of_forward _ { msg with status := .duplicate } _ rfl hmsg⟩
      · exact hdup.1.trans hr.seqNum.symm
      · rw [(increases_quiet_forward hquiet himage s.newest).1]
        refine ⟨fun hlater => ⟨fun _ => hlater, fun hmisfit => ?_⟩, fun hadv => hadv.unchecked (.inl hwait)⟩
        exact absurd hmisfit (hnotNext (UInt32.le_of_eq hdup.1))
    · rw [if_neg hdup, if_neg h.dqState]
      have hforward := (checkGap_late t msg r).2.trans hr.doNotForward
      rw [if_neg (by rw [hforward]; decide)]
      exact checkGap_handled h howned hr hmsg hnext hsame hold

theorem checkAndForward_handled (ht : t.ignoreDups) (h : Follows t sender s)
    (hsender : msg.senderId = sender) (hseq : msg.seqNum ≠ 0) (hupd : msg.type.isUpdate) :
    Handled t sender s (s.checkAndForward t msg) (Fresh t s msg)
      (if Behind s msg then s.newest else some msg.seqNum) := by
  have hmsg := isImage_of_isUpdate hupd
  have hcheck : checkSeqNum t msg s = checkUpdate t s.dqState s.seqNum msg { s with doNotForward := false } := by
    rw [h.checkSeqNum_eq hsender, checkType_update hupd]
  rw [checkAndForward, hcheck]
  by_cases haccepted : Accepted s.dqState s.seqNum msg
  · rw [checkUpdate_accepted haccepted]
    have hforward : (settled { s with doNotForward := false }).resetDqState.doNotForward = false :=
      (resetDqState_frame _).2.2.trans (settled_frame _).2.2.2.2.1
    have hgoes : ¬ (settled { s with doNotForward := false }).resetDqState.doNotForward := by
      rw [hforward]
      decide
    rw [if_neg hgoes, if_neg fun hbehind : Behind s msg => hbehind.2.2 haccepted]
    exact accepted_handled h hmsg haccepted
  · rw [checkUpdate_late haccepted]
    split
    next hnext =>
      obtain ⟨-, -, hstate, hnumber, hforward, hevents, htry⟩ :=
        settled_frame { s with doNotForward := false }
      have hno : (settled { s with doNotForward := false }).tryToFillGap → False :=
        fun hyes => nomatch htry.symm.trans hyes
      refine late_handled ht h (h.toOwned.settled) ⟨hevents, hnumber, hstate, hforward, fun hyes => (hno hyes).elim⟩
        hmsg hseq haccepted (fun hyes => (hno hyes).elim) (fun hfalse => ?_) fun _ _ => htry
      cases hnext.symm.trans hfalse
    next hnext =>
      exact late_handled ht h { h with }
        ⟨rfl, rfl, rfl, rfl, fun hyes => ⟨hyes, rfl⟩⟩ hmsg hseq haccepted
        (fun _ => Bool.not_eq_true _ ▸ hnext) (fun _ => rfl) h.spent

theorem checkAndForward_behind (ht : t.ignoreDups) (h : Owned sender s) (hsender : msg.senderId = sender)
    (hupd : msg.type.isUpdate) (hbehind : Behind s msg) : (s.checkAndForward t msg).dqState = s.dqState := by
  obtain ⟨hwait, hle, hlate⟩ := hbehind
  have hdrop (r : Strategy) (hr : r.dqState = s.dqState) :
      checkLate t s.dqState s.seqNum msg r = ({ r with doNotForward := true }, msg) :=
    if_pos (by simp [ht, hle, hr, hwait])
  have hsettled := (settled_frame { s with doNotForward := false }).2.2.1
  have hkept : (if isNext s.dqState s.seqNum msg then settled { s with doNotForward := false }
      else { s with doNotForward := false }).dqState = s.dqState := by
    split
    · exact hsettled
    · rfl
  rw [checkAndForward, h.checkSeqNum_eq hsender, checkType_update hupd, checkUpdate_late hlate, hdrop _ hkept]
  exact hkept

end Update

/-! ### Images -/

theorem Handled.trans {s' s'' : Strategy} {p q : Prop} {new new' : Option UInt32} (h : Handled t sender s s' p new)
    (h' : Handled t sender s' s'' q new') : Handled t sender s s'' (p ∧ q) new' := by
  obtain ⟨es, hes, hp⟩ := h.log
  obtain ⟨fs, hfs, hq⟩ := h'.log
  have hnewest : s'.newest = newestFrom s.newest es := by
    rw [Strategy.newest, hes, newestFrom_append]
    rfl
  refine ⟨h'.follows, ⟨es ++ fs, ?_, ?_⟩, h'.newest⟩
  · rw [hfs, hes, append_assoc]
  · rw [increases_append, ← hnewest, hp, hq]

theorem Follows.handled_self (h : Follows t sender s) : Handled t sender s s True s.newest :=
  ⟨h, ⟨[], (append_nil _).symm, iff_of_true trivial trivial⟩, rfl⟩

theorem not_waiting_of_isOldRecap {ctxSeqNum : UInt32} (hseq : msg.seqNum ≠ 0) (h : isOldRecap ctxSeqNum msg s) :
    waiting s.dqState = false := by
  unfold isOldRecap at h
  split at h
  · simp_all
  · simp_all
  · cases h

/-- The image begins anew: its number and its sender are those of the context from now on. -/
def Begins (s : Strategy) (msg : Msg) (checked : Strategy × Msg) : Prop :=
  ∃ d fill es, waiting d = false ∧ Quiet es ∧ checked = ({ s with
    seqNum := msg.seqNum, senderId := msg.senderId, dqState := d, tryToFillGap := fill,
    doNotForward := false, events := s.events ++ es }, msg)

theorem checkRecap_begins {ctxSeqNum : UInt32} (h : (t.ignoreDups && isOldRecap ctxSeqNum msg s) = false) :
    Begins s msg (checkRecap t ctxSeqNum msg s) := by
  rw [checkRecap, h]
  by_cases hcache : t.preRecapCache
  · obtain ⟨es, hes, heq⟩ := resetDqState_told { s with tryToFillGap := true }
    refine ⟨.ok, true, es, rfl, hes, ?_⟩
    rw [if_pos hcache]
    dsimp only
    rw [heq]
    rfl
  · obtain ⟨es, hes, heq⟩ := resetDqState_told s
    refine ⟨.ok, s.tryToFillGap, es, rfl, hes, ?_⟩
    rw [if_neg hcache]
    dsimp only
    rw [heq]
    rfl

theorem checkInitial_begins {ctxSeqNum : UInt32}
    (hs : s.doNotForward = false) (hnew : isOldRecap ctxSeqNum msg { s with tryToFillGap := true } = false) :
    Begins s msg (checkInitial t ctxSeqNum msg s) := by
  rw [checkInitial]
  split
  · refine ⟨.staleNoRecap, true, [], rfl, by simp [Quiet], ?_⟩
    rw [append_nil, ← hs]
    rfl
  · obtain ⟨d, fill, es, hd, hes, heq⟩ := checkRecap_begins (t := t) (s := { s with tryToFillGap := true })
      (by rw [hnew, Bool.and_false])
    exact ⟨d, fill, es, hd, hes, heq⟩

theorem checkType_image (himage : msg.type.isImage) (hs : s.doNotForward = false) (t : Transport) (ctxState : DqState)
    (ctxSeqNum : UInt32) :
    ((t.ignoreDups && isOldRecap ctxSeqNum msg s)
        ∧ checkType t ctxState ctxSeqNum msg s = ({ s with doNotForward := true }, msg))
      ∨ (t.ignoreDups && isOldRecap ctxSeqNum msg s) = false ∧ Begins s msg (checkType t ctxState ctxSeqNum msg s) := by
  cases htype : msg.type <;> simp only [htype, MsgType.isImage, Bool.false_eq_true] at himage
  case initial | bookInitial =>
    have hnew (s : Strategy) : isOldRecap ctxSeqNum msg s = false := by rw [isOldRecap, htype]
    rw [checkType, htype, hnew]
    exact .inr ⟨Bool.and_false _, checkInitial_begins hs (hnew _)⟩
  case recap | bookRecap =>
    rw [checkType, htype]
    by_cases hold : (t.ignoreDups && isOldRecap ctxSeqNum msg s)
    · exact .inl ⟨hold, if_pos hold⟩
    · have hnew := Bool.not_eq_true _ ▸ hold
      exact .inr ⟨hnew, checkRecap_begins hnew⟩

/-- A late recap is dropped. -/
def dropsImage (t : Transport) (s : Strategy) (msg : Msg) : Bool :=
  t.ignoreDups && isOldRecap s.seqNum msg s

/-- The number of the context when an image was checked. -/
def imageNum (t : Transport) (s : Strategy) (msg : Msg) : UInt32 := if dropsImage t s msg then s.seqNum else msg.seqNum

theorem image_handled (h : Owned sender s) (hfollows : dropsImage t s msg → Follows t sender s)
    (hsender : msg.senderId = sender) (hseq : msg.seqNum ≠ 0) (himage : msg.type.isImage) :
    Handled t sender s (s.checkAndForward t msg) True (if dropsImage t s msg then s.newest else none) ∧
      waiting (s.checkAndForward t msg).dqState = false ∧
      (s.checkAndForward t msg).seqNum = imageNum t s msg := by
  rw [checkAndForward, h.checkSeqNum_eq hsender, imageNum]
  have hcases := checkType_image himage (s := { s with doNotForward := false }) rfl t s.dqState s.seqNum
  rcases hcases with ⟨hold, heq⟩ | ⟨hnew, d, _, es, hd, hes, heq⟩
  · have hdrops : dropsImage t s msg := hold
    rw [heq, if_pos hdrops, if_pos hdrops]
    exact ⟨⟨{ hfollows hold with }, ⟨[], (append_nil _).symm, iff_of_true trivial trivial⟩, rfl⟩,
      not_waiting_of_isOldRecap hseq (Bool.and_eq_true_iff.mp hold).2, rfl⟩
  · have hkeeps : ¬ dropsImage t s msg := fun hdrops => nomatch hnew.symm.trans hdrops
    rw [heq, if_neg hkeeps, if_neg hkeeps]
    have hnewest : newestFrom none (s.events ++ es ++ [.forward msg]) = none := by
      rw [newestFrom_append]
      exact if_pos himage
    have hlog : s.events ++ es ++ [.forward msg] = s.events ++ (es ++ [.forward msg]) := append_assoc ..
    have hstate : d ≠ .waitingForRecapAfterFt := by
      rintro rfl
      cases hd
    refine ⟨⟨⟨⟨h.recoverGaps, .inr hsender, h.cached⟩, fun hft => ?_, fun hwait => ?_, fun _ n hn => ?_⟩,
      ⟨_, hlog, iff_of_true (increases_append.mpr ?_) trivial⟩, hnewest⟩, hd, rfl⟩
    · exact hstate hft
    · cases hd.symm.trans hwait
    · cases hnewest.symm.trans hn
    · exact ⟨(hes.along _).1, fun hno => (nomatch himage.symm.trans hno), trivial⟩

/-- Either nothing is forwarded from the cache, or the context goes on to the last number that is. -/
theorem applyLoop_handled (hslots : ∀ msg, some msg ∈ slots → msg.seqNum ≠ 0 ∧ msg.type.isImage = false)
    (h : Follows t sender s) (hs : waiting s.dqState = false) :
    Handled t sender s (applyLoop slots s) True
        (if (applyLoop slots s).seqNum = s.seqNum then s.newest else some (applyLoop slots s).seqNum) ∧
      s.seqNum ≤ (applyLoop slots s).seqNum ∧ (applyLoop slots s).dqState = s.dqState := by
  fun_induction applyLoop slots s with
  | case1 | case2 | case4 =>
    rw [if_pos rfl]
    exact ⟨h.handled_self, UInt32.le_refl _, rfl⟩
  | case3 msg _ s hnext ih =>
    obtain ⟨hzero, himage⟩ := hslots msg mem_cons_self
    have hlt : s.seqNum < msg.seqNum := by
      rw [hnext] at hzero ⊢
      rw [UInt32.lt_iff_toNat_lt]
      have hne : (s.seqNum + 1).toNat ≠ 0 := fun h => hzero (UInt32.toNat_inj.mp h)
      have hbound := s.seqNum.toNat_lt
      rw [UInt32.toNat_add, UInt32.toNat_one] at hne ⊢
      omega
    have hnew := newest_of_forward (s := { s.emit (.forward msg) with seqNum := msg.seqNum }) rfl himage
    have hone : Handled t sender s { s.emit (.forward msg) with seqNum := msg.seqNum } True (some msg.seqNum) := by
      refine ⟨{ h with newest := fun _ n hn => (some.inj (hnew.symm.trans hn)).symm },
        ⟨[.forward msg], rfl, iff_of_true ⟨fun _ n hn => ?_, trivial⟩ trivial⟩, hnew⟩
      exact h.newest hs n hn ▸ hlt
    obtain ⟨hrest, hle, hstate⟩ := ih (fun m hm => hslots m (mem_cons_of_mem _ hm)) hone.follows hs
    have hbeyond := UInt32.lt_of_lt_of_le hlt hle
    rw [if_neg (UInt32.ne_of_lt hbeyond).symm]
    have hlast : Handled t sender s _ True _ := (hone.trans hrest).congr and_self_iff
    refine ⟨{ hlast with newest := hlast.newest.trans ?_ }, UInt32.le_of_lt hbeyond, hstate⟩
    split
    next hsame => exact hnew.trans (congrArg some hsame.symm)
    next => rfl
  | case5 _ _ s _ _ ih => exact ih (fun m hm => hslots m (mem_cons_of_mem _ hm)) h hs

theorem processPointToPointMessage_handled (h : Owned sender s) (hfollows : dropsImage t s msg → Follows t sender s)
    (hsender : msg.senderId = sender) (hseq : msg.seqNum ≠ 0) (himage : msg.type.isImage) :
    let s' := s.processPointToPointMessage t msg
    Handled t sender s s' True (if s'.seqNum = imageNum t s msg then if dropsImage t s msg then s.newest else none
        else some s'.seqNum) ∧ waiting s'.dqState = false := by
  have hchecked (s : Strategy) (h : Owned sender s) (hfollows : dropsImage t s msg → Follows t sender s) :
      let s' := if !t.preInitialOnGap && opensCache t msg.type then
        (s.checkAndForward t msg).applyPreInitialCache.clearCache else s.checkAndForward t msg
      Handled t sender s s' True (if s'.seqNum = imageNum t s msg then if dropsImage t s msg then s.newest else none
        else some s'.seqNum) ∧ waiting s'.dqState = false := by
    obtain ⟨himage, hstate, hnum⟩ := image_handled h hfollows hsender hseq himage
    intro s'
    by_cases hopens : !t.preInitialOnGap && opensCache t msg.type
    · have hs' : s' = (s.checkAndForward t msg).applyPreInitialCache.clearCache := if_pos hopens
      have hfollows := himage.follows
      obtain ⟨hloop, -, hkept⟩ := applyLoop_handled (fun msg hmem => hfollows.cached msg (mem_of_mem_take hmem))
        hfollows hstate
      have hall := (himage.trans hloop).congr and_self_iff
      have hlast := hall.follows
      rw [hnum, himage.newest] at hall
      rw [hs']
      exact ⟨{ hall with follows := { hlast with toOwned := hlast.toOwned.clearCache } }, hkept ▸ hstate⟩
    · have hs' : s' = s.checkAndForward t msg := if_neg hopens
      rw [hs', if_pos hnum]
      exact ⟨himage, hstate⟩
  rw [processPointToPointMessage]
  by_cases hlast : msg.total = 0 ∨ msg.msgNum = msg.total
  · rw [if_pos hlast]
    -- that the initial has arrived is of no concern to the context
    obtain ⟨harrived, hstate⟩ := hchecked { s with initialArrived := true } { h with } fun hold => { hfollows hold with }
    exact ⟨{ harrived with }, hstate⟩
  · rw [if_neg hlast]
    exact hchecked s h hfollows

/-! ### The stream -/

def held (t : Transport) (expectingInitial : Bool) (msg : Msg) (s : Strategy) : Bool :=
  (expectingInitial && !s.initialArrived)
    || (s.dqState = .waitingForRecap && t.preRecapCache && !msg.type.isFinal)

def MsgType.isForwarded : MsgType → Bool
  | .refresh | .delete | .expire | .notPermissioned | .notFound | .unknown => false
  | _ => true

def Checked (t : Transport) (s : Strategy) (expectingInitial : Bool) (msg : Msg) : Prop :=
  msg.type.isImage = false ∧ held t expectingInitial msg s = false ∧ msg.type.isForwarded

instance (t : Transport) (s : Strategy) (expectingInitial : Bool) (msg : Msg) :
    Decidable (Checked t s expectingInitial msg) := inferInstanceAs (Decidable (_ ∧ _))

theorem mem_put {c : Cache} {m : Msg} (h : some m ∈ (c.put msg).slots) : some m ∈ c.slots ∨ m = msg := by
  rcases mem_or_eq_of_mem_set h with hmem | heq
  · exact .inl hmem
  · exact .inr (some.inj heq)

theorem put_handled (h : Follows t sender s) (hseq : msg.seqNum ≠ 0) (hmsg : msg.type.isImage = false) (stale : Bool) :
    Handled t sender s { s with setCacheMsgStale := stale, cache := s.cache.put msg } True s.newest := by
  refine ⟨{ h with cached := fun m hm => ?_ }, ⟨[], (append_nil _).symm, iff_of_true trivial trivial⟩, rfl⟩
  rcases mem_put hm with hmem | rfl
  · exact h.cached m hmem
  · exact ⟨hseq, hmsg⟩

/-- One message as it comes to the subscription, which may or may not expect its initial. -/
def receive (t : Transport) (s : Strategy) (arrival : Bool × Msg) : Strategy :=
  subscriptionPreMsgHook t arrival.1 arrival.2 s

def InStream (sender : UInt64) (msg : Msg) : Prop :=
  msg.senderId = sender ∧ msg.seqNum ≠ 0 ∧ (msg.type.isImage ∨ isInitialMessageOrRecap msg.type = false)

theorem receive_image (himage : msg.type.isImage) (t : Transport) (s : Strategy) (expectingInitial : Bool) :
    receive t s (expectingInitial, msg) = s.processPointToPointMessage t msg := by
  apply if_pos
  cases htype : msg.type <;> simp [htype, MsgType.isImage, isInitialMessageOrRecap] at himage ⊢

theorem receive_update (hmsg : isInitialMessageOrRecap msg.type = false) (t : Transport) (s : Strategy)
    (expectingInitial : Bool) : receive t s (expectingInitial, msg)
      = if held t expectingInitial msg s then
          { s with setCacheMsgStale := s.dqState = .waitingForRecap && t.preRecapCache || s.setCacheMsgStale
                   cache := s.cache.put msg }
        else if msg.type.isForwarded then s.checkAndForward t msg else s := by
  apply (if_neg (by simp [hmsg])).trans
  by_cases hheld : held t expectingInitial msg s
  · refine (if_pos hheld).trans ((if_pos hheld).trans ?_).symm
    by_cases hstale : (s.dqState = .waitingForRecap && t.preRecapCache)
    · rw [if_pos hstale, hstale, Bool.true_or]
    · rw [if_neg hstale, (Bool.not_eq_true _).mp hstale, Bool.false_or]
  · refine (if_neg hheld).trans ((if_neg hheld).trans ?_).symm
    cases htype : msg.type <;> rfl

/-- The number of the last update checked, and whether one that is not late was checked since the last image. -/
structure Received where
  last : UInt32 := 0
  taken : Bool := false

/-- A cached message that follows an image is taken too, and moves the number of the context on. -/
def Received.after (t : Transport) (s : Strategy) (r : Received) (arrival : Bool × Msg) : Received :=
  if arrival.2.type.isImage then
    { r with taken := (receive t s arrival).seqNum != imageNum t s arrival.2 || dropsImage t s arrival.2 && r.taken }
  else if Checked t s arrival.1 arrival.2 then { last := arrival.2.seqNum, taken := r.taken || !Behind s arrival.2 }
  else r

/-- What the record of received messages says of the context. -/
structure Traces (s : Strategy) (r : Received) : Prop where
  last : waiting s.dqState → s.newest = some r.last
  taken : s.newest.isSome = r.taken

/-- The update advances, where the code does not see to it. -/
structure Advances (t : Transport) (s : Strategy) (r : Received) (msg : Msg) : Prop where
  /-- While a recap is awaited the number is beyond that of the update before. -/
  awaited : waiting s.dqState → r.last < msg.seqNum
  /-- An old number that the conflate count makes the next one is the first since the image. -/
  again : waiting s.dqState = false → msg.seqNum ≤ s.seqNum → Accepted s.dqState s.seqNum msg → r.taken = false
  misfit : Misfit t s msg →
    ∀ m, some m ∈ s.cache.oldestFirst.takeWhile isSome → m.seqNum ≠ msg.seqNum

instance (t : Transport) (s : Strategy) (r : Received) (msg : Msg) : Decidable (Advances t s r msg) :=
  decidable_of_iff
    ((waiting s.dqState → r.last < msg.seqNum)
      ∧ (waiting s.dqState = false → msg.seqNum ≤ s.seqNum → Accepted s.dqState s.seqNum msg → r.taken = false)
      ∧ (Misfit t s msg → ∀ slot ∈ s.cache.oldestFirst.takeWhile isSome, slot.map Msg.seqNum ≠ some msg.seqNum))
    ⟨fun h => ⟨h.1, h.2.1, fun hmisfit m hmem heq => h.2.2 hmisfit _ hmem (congrArg some heq)⟩,
      fun h => ⟨h.awaited, h.again, fun hmisfit slot hmem heq => by
        obtain ⟨m, rfl, hm⟩ := map_eq_some_iff.mp heq
        exact h.misfit hmisfit m hmem hm⟩⟩

theorem fresh_iff {r : Received} (h : Follows t sender s) (hr : Traces s r) : Fresh t s msg ↔ Advances t s r msg := by
  constructor
  · refine fun hfresh => ⟨fun hwait => hfresh.unchecked (.inl hwait) _ (hr.last hwait), fun hwait hle haccepted => ?_,
      hfresh.misfit⟩
    rw [← hr.taken, ← Bool.not_eq_true, isSome_iff_exists]
    rintro ⟨n, hn⟩
    have hlt := hfresh.unchecked (.inr ⟨hle, haccepted⟩) n hn
    rw [h.newest hwait n hn] at hlt
    exact UInt32.not_le.mpr hlt hle
  · refine fun hadv => ⟨fun hcase n hn => ?_, hadv.misfit⟩
    by_cases hwait : waiting s.dqState
    · rw [hr.last hwait] at hn
      exact some.inj hn ▸ hadv.awaited hwait
    · obtain ⟨hle, haccepted⟩ := hcase.resolve_left hwait
      have hnone := hr.taken.trans (hadv.again (Bool.not_eq_true _ ▸ hwait) hle haccepted)
      rw [hn] at hnone
      cases hnone

/-- One message: the log increases if the message advances, and what was received is recorded. -/
theorem receive_handled (ht : t.ignoreDups) (h : Follows t sender s) {r : Received} (hr : Traces s r)
    {arrival : Bool × Msg} (hmsg : InStream sender arrival.2) :
    ∃ new, Handled t sender s (receive t s arrival)
        (Checked t s arrival.1 arrival.2 → Advances t s r arrival.2) new ∧
      Traces (receive t s arrival) (r.after t s arrival) := by
  obtain ⟨expectingInitial, msg⟩ := arrival
  obtain ⟨hsender, hseq, htype⟩ := hmsg
  by_cases himage : msg.type.isImage
  · obtain ⟨hone, hstate⟩ := processPointToPointMessage_handled h.toOwned (fun _ => h) hsender hseq himage
    rw [Received.after, if_pos himage, receive_image himage]
    refine ⟨_, hone.congr (iff_of_true trivial fun hchecked => nomatch himage.symm.trans hchecked.1),
      fun hwait => (nomatch hstate.symm.trans hwait), ?_⟩
    rw [hone.newest]
    dsimp only
    split
    next hsame =>
      rw [hsame, ← hr.taken]
      split <;> simp_all
    next hother => simp [hother]
  · have hupd : msg.type.isImage = false := Bool.not_eq_true _ ▸ himage
    have hother := htype.resolve_left himage
    rw [Received.after, if_neg himage, receive_update hother]
    by_cases hheld : held t expectingInitial msg s
    · have hno : ¬ Checked t s expectingInitial msg := fun hchecked => nomatch hheld.symm.trans hchecked.2.1
      rw [if_pos hheld, if_neg hno]
      exact ⟨_, (put_handled h hseq hupd _).congr (iff_of_true trivial fun hchecked => absurd hchecked hno), { hr with }⟩
    · rw [if_neg hheld]
      by_cases hforward : msg.type.isForwarded
      · have hchecked : Checked t s expectingInitial msg := ⟨hupd, Bool.not_eq_true _ ▸ hheld, hforward⟩
        have hupdate : msg.type.isUpdate := by
          cases htype : msg.type <;> simp [htype, MsgType.isImage, isInitialMessageOrRecap] at hupd hother ⊢ <;> rfl
        rw [if_pos hforward, if_pos hchecked]
        have hone := checkAndForward_handled ht h hsender hseq hupdate
        have hgood : Fresh t s msg ↔ (Checked t s expectingInitial msg → Advances t s r msg) :=
          (fresh_iff h hr).trans ⟨fun hadv _ => hadv, fun hadv => hadv hchecked⟩
        refine ⟨_, hone.congr hgood, ?_⟩
        by_cases hbehind : Behind s msg
        · have hkept := checkAndForward_behind ht h.toOwned hsender hupdate hbehind
          refine ⟨fun hwait => ?_, ?_⟩
          · rw [hkept] at hwait
            cases hbehind.1.symm.trans hwait
          · rw [hone.newest, if_pos hbehind, hr.taken]
            simp [hbehind]
        · refine ⟨fun _ => hone.newest.trans (if_neg hbehind), ?_⟩
          rw [hone.newest, if_neg hbehind]
          simp [hbehind]
      · have hno : ¬ Checked t s expectingInitial msg := fun hchecked => hforward hchecked.2.2
        rw [if_neg hforward, if_neg hno]
        exact ⟨_, h.handled_self.congr (iff_of_true trivial fun hchecked => absurd hchecked hno), hr⟩

/-- The strategy, with what was received so far. -/
def track (t : Transport) (p : Strategy × Received) (arrival : Bool × Msg) : Strategy × Received :=
  (receive t p.1 arrival, p.2.after t p.1 arrival)

theorem receives_handled (ht : t.ignoreDups) (h : Follows t sender s) {r : Received} (hr : Traces s r)
    {arrivals : List (Bool × Msg)} (hmsgs : ∀ arrival ∈ arrivals, InStream sender arrival.2) :
    ∃ new, Handled t sender s (arrivals.foldl (receive t) s) (Along (track t)
      (fun p arrival => Checked t p.1 arrival.1 arrival.2 → Advances t p.1 p.2 arrival.2) (s, r) arrivals) new := by
  induction arrivals generalizing s r with
  | nil => exact ⟨_, h.handled_self⟩
  | cons _ _ ih =>
    obtain ⟨hfirst, hrest⟩ := forall_mem_cons.mp hmsgs
    obtain ⟨_, hone, htraces⟩ := receive_handled ht h hr hfirst
    obtain ⟨new, hall⟩ := ih hone.follows htraces hrest
    exact ⟨new, hone.trans hall⟩

/-- After an initial the numbers of the updates that are forwarded increase from image to image, if and only if every
update that is checked advances: while a recap is awaited it has a number beyond that of the update before it, the
first old number that a conflate count makes the next one comes before any other update, and no number that a conflate
count makes a gap is in the cache. -/
theorem increases_iff (t : Transport) (ht : t.ignoreDups) (sender : UInt64) (s : Strategy)
    (hs : Owned sender s) (hevents : s.events = []) (initial : Bool × Msg)
    (htype : initial.2.type = .initial ∨ initial.2.type = .bookInitial)
    (arrivals : List (Bool × Msg)) (hmsgs : ∀ arrival ∈ initial :: arrivals, InStream sender arrival.2) :
    Increases none ((initial :: arrivals).foldl (receive t) s).events
      ↔ Along (track t) (fun p arrival => Checked t p.1 arrival.1 arrival.2 → Advances t p.1 p.2 arrival.2)
          (track t (s, {}) initial) arrivals := by
  obtain ⟨⟨hsender, hseq, -⟩, hrest⟩ := forall_mem_cons.mp hmsgs
  have himage : initial.2.type.isImage = true := by rcases htype with h | h <;> rw [h] <;> rfl
  have hnew : dropsImage t s initial.2 = false := by
    rcases htype with h | h <;> rw [dropsImage, isOldRecap, h, Bool.and_false]
  obtain ⟨hfirst, hstate⟩ := processPointToPointMessage_handled hs (fun hold => nomatch hnew.symm.trans hold) hsender
    hseq himage
  have htraces : Traces (receive t s initial) (({} : Received).after t s initial) := by
    rw [Received.after, if_pos himage, receive_image himage]
    refine ⟨fun hwait => (nomatch hstate.symm.trans hwait), ?_⟩
    rw [hfirst.newest, hnew]
    split
    next hsame => simp [hsame]
    next hother => simp [hother]
  rw [← receive_image himage t s initial.1] at hfirst
  obtain ⟨_, hall⟩ := receives_handled ht hfirst.follows htraces hrest
  obtain ⟨_, hes, hgood⟩ := (hfirst.trans hall).log
  rw [true_and, newest, hevents] at hgood
  rw [foldl_cons, hes, hevents]
  exact hgood

def ignoring : Transport := { ignoreDups := true }

theorem not_increases_repeated : ¬ Increases none
    (([(false, { type := .initial, seqNum := 10, senderId := 1 }),
       (false, { seqNum := 15, senderId := 1 }),
       (false, { seqNum := 15, senderId := 1 })] : List (Bool × Msg)).foldl (receive ignoring) {}).events := by
  decide

def afterGap : List (Bool × Msg) :=
  [(false, { seqNum := 11, senderId := 1 }), (false, { seqNum := 11, senderId := 1 }),
   (false, { seqNum := 15, senderId := 1 }), (false, { seqNum := 16, senderId := 1 }),
   (false, { type := .recap, seqNum := 16, senderId := 1 }), (false, { seqNum := 17, senderId := 1 })]

theorem increases_afterGap : ignoring.ignoreDups ∧ Increases none
    (((false, { type := .initial, seqNum := 10, senderId := 1 }) :: afterGap).foldl (receive ignoring)
      {}).events :=
  ⟨rfl, (increases_iff ignoring rfl 1 {} ⟨rfl, .inl rfl, by simp⟩ rfl
    (false, { type := .initial, seqNum := 10, senderId := 1 }) (.inl rfl) afterGap
    (by simp [afterGap, InStream, MsgType.isImage, isInitialMessageOrRecap])).mpr (by decide)⟩

end OpenMama.DataQuality
