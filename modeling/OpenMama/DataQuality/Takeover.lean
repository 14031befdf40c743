import OpenMama.DataQuality.Updates

/-!
# Takeovers that are to be recovered by a recap

Under `DQ_FT_WAIT_FOR_RECAP` an update from another sender is recorded and then still checked, against the state and
the number that the context had before. So the record does not outlive the message unless the context was waiting
already. `awaits_image_iff` says when the context waits for the image throughout.
-/

namespace OpenMama.DataQuality

open Strategy

def AwaitsImage (s : Strategy) : Prop := s.dqState = .waitingForRecapAfterFt ∧ s.doNotForward

variable {s : Strategy} {msg : Msg} {t : Transport} {image : Msg}

theorem exists_of_fillLoop {stale : Bool} {stop next : UInt32} {slots : List (Option Msg)}
    (h : (fillLoop stale stop next slots).2) :
    ∃ k, 0 < k ∧ k ≤ slots.length ∧ next + UInt32.ofNat k = stop := by
  fun_induction fillLoop stale stop next slots with
  | case1 | case2 => cases h
  | case3 => exact ⟨1, Nat.one_pos, by simp, ‹_›⟩
  | case4 _ _ _ _ _ ih =>
    obtain ⟨k, hpos, hk, hsum⟩ := ih h
    refine ⟨k + 1, k.succ_pos, Nat.succ_le_succ hk, ?_⟩
    rw [← hsum, UInt32.ofNat_add, UInt32.add_comm (UInt32.ofNat k), ← UInt32.add_assoc]
    rfl
  | case5 _ _ _ _ ih =>
    obtain ⟨k, hpos, hk, hsum⟩ := ih h
    exact ⟨k, hpos, Nat.le_succ_of_le hk, hsum⟩

theorem length_oldestFirst (c : Cache) : c.oldestFirst.length ≤ c.slots.length := by
  unfold Cache.oldestFirst
  split
  · simp only [List.length_append, List.length_drop, List.length_take]
    omega
  · simp only [List.length_take]
    omega

theorem fillGap_self {stop : UInt32} (h : s.seqNum = stop) : (s.fillGap stop).2 = false := by
  subst h
  by_contra hfilled
  obtain ⟨k, -, hk, hsum⟩ := exists_of_fillLoop (Bool.not_eq_false _ ▸ hfilled)
  have hlen := Nat.lt_of_le_of_lt (length_oldestFirst s.cache) s.cache.small
  have hnat := congrArg UInt32.toNat hsum
  rw [UInt32.toNat_add, UInt32.toNat_add, UInt32.toNat_ofNat'] at hnat
  simp only [UInt32.toNat_one] at hnat
  omega

theorem checkLate_takeover {ctxState : DqState} (hctx : ctxState ≠ .waitingForRecapAfterFt)
    (hstate : s.dqState = .waitingForRecapAfterFt) (hnum : s.seqNum = msg.seqNum) (t : Transport) (ctxSeqNum : UInt32) :
    (checkLate t ctxState ctxSeqNum msg s).1.dqState ≠ .waitingForRecapAfterFt := by
  have hreport (s' : Strategy) : (reportGap msg s').1.dqState ≠ .waitingForRecapAfterFt := by
    obtain ⟨_, hevs⟩ := handleStaleData_frame (s'.emit .gap)
    rw [reportGap, hevs]
    exact show DqState.waitingForRecap ≠ .waitingForRecapAfterFt by decide
  have hkeep : ¬ (t.ignoreDups && msg.seqNum ≤ ctxSeqNum && !waiting s.dqState) := by simp [hstate, waiting]
  rw [checkLate, if_neg hkeep]
  by_cases hdup : msg.seqNum = ctxSeqNum ∧ ctxState ≠ .waitingForRecapAfterFt
  · rw [if_pos hdup]
    exact show DqState.duplicate ≠ .waitingForRecapAfterFt by decide
  · rw [if_neg hdup, if_neg hctx, checkGap]
    split
    · have hfill : ({ s with tryToFillGap := false }.fillGap msg.seqNum).2 = false := fillGap_self hnum
      rw [if_neg (Bool.eq_false_iff.mp hfill)]
      exact hreport _
    · exact hreport s

section

variable (ht : t.ftWaitForRecap) (hs : s.recoverGaps)
include ht hs

theorem step_takeover_ne (htake : isTakeover s msg) (hupd : msg.type.isUpdate)
    (hstate : s.dqState ≠ .waitingForRecapAfterFt) : (step t s msg).dqState ≠ .waitingForRecapAfterFt := by
  rw [step_checkType hs (fun _ => ht), checkType_update hupd]
  by_cases haccepted : Accepted s.dqState s.seqNum msg
  · rw [checkUpdate_accepted haccepted]
    exact fun h => nomatch (resetDqState_dqState _).symm.trans h
  · rw [checkUpdate_late haccepted, received, if_pos htake]
    obtain ⟨-, -, hdq, hnum, -⟩ := settled_frame
      { s with doNotForward := true, seqNum := msg.seqNum, dqState := .waitingForRecapAfterFt }
    split
    · exact checkLate_takeover hstate hdq hnum t s.seqNum
    · exact checkLate_takeover hstate rfl rfl t s.seqNum

theorem step_awaits (hupd : msg.type.isUpdate) (hstate : s.dqState = .waitingForRecapAfterFt)
    (hlate : ¬ Accepted s.dqState s.seqNum msg) : AwaitsImage (step t s msg) ∧ (step t s msg).events = s.events := by
  have hreceived : (received s msg).dqState = .waitingForRecapAfterFt ∧ (received s msg).events = s.events := by
    unfold received
    split
    · exact ⟨rfl, rfl⟩
    · exact ⟨hstate, rfl⟩
  have hcheck (r : Strategy) (hr : r.dqState = .waitingForRecapAfterFt) (hevents : r.events = s.events) :
      AwaitsImage (checkLate t s.dqState s.seqNum msg r).1
        ∧ (checkLate t s.dqState s.seqNum msg r).1.events = s.events := by
    have hkeep : ¬ (t.ignoreDups && msg.seqNum ≤ s.seqNum && !waiting r.dqState) := by simp [hr, waiting]
    rw [checkLate, if_neg hkeep, if_neg (fun h => h.2 hstate), if_pos hstate]
    exact ⟨⟨hr, rfl⟩, hevents⟩
  obtain ⟨-, -, hdq, -, -, hevents, -⟩ := settled_frame (received s msg)
  rw [step_checkType hs (fun _ => ht), checkType_update hupd, checkUpdate_late hlate]
  split
  · exact hcheck _ (hdq.trans hreceived.1) (hevents.trans hreceived.2)
  · exact hcheck _ hreceived.1 hreceived.2

theorem step_awaits_iff (hupd : msg.type.isUpdate) (hstate : s.dqState = .waitingForRecapAfterFt) :
    AwaitsImage (step t s msg) ↔ ¬ Accepted s.dqState s.seqNum msg := by
  refine ⟨fun hawaits haccepted => ?_, fun hlate => (step_awaits ht hs hupd hstate hlate).1⟩
  rw [step_checkType hs (fun _ => ht), checkType_update hupd, checkUpdate_accepted haccepted] at hawaits
  cases (resetDqState_dqState _).symm.trans hawaits.1

end

/-- What an image does that is taken: the context is the sender's, and does not wait for a takeover. -/
structure Taken (image : Msg) (s r : Strategy) : Prop where
  senderId : r.senderId = image.senderId
  recoverGaps : r.recoverGaps = s.recoverGaps
  dqState : r.dqState ≠ .waitingForRecapAfterFt

theorem checkRecap_taken (hstate : s.dqState = .waitingForRecapAfterFt) (t : Transport) (ctxSeqNum : UInt32) :
    Taken image s (checkRecap t ctxSeqNum image s).1 := by
  have hold : isOldRecap ctxSeqNum image s = false := by
    unfold isOldRecap
    split
    · simp [hstate, waiting]
    · split <;> simp [hstate, waiting]
    · rfl
  rw [checkRecap, hold, Bool.and_false, if_neg (by decide)]
  have hreset (r : Strategy) : Taken image r
      { r.resetDqState.resetDqContext image.seqNum image.senderId with doNotForward := false } :=
    ⟨rfl, (resetDqState_frame r).2.1,
      fun h => nomatch (resetDqState_dqState r).symm.trans h⟩
  split
  · exact ⟨rfl, (hreset _).recoverGaps, (hreset _).dqState⟩
  · exact hreset s

theorem checkInitial_taken (hstate : s.dqState = .waitingForRecapAfterFt) (t : Transport) (ctxSeqNum : UInt32) :
    Taken image s (checkInitial t ctxSeqNum image s).1 := by
  rw [checkInitial]
  split
  · exact ⟨rfl, rfl, show DqState.staleNoRecap ≠ .waitingForRecapAfterFt by decide⟩
  · have htaken : Taken image { s with tryToFillGap := true }
        (checkRecap t ctxSeqNum image { s with tryToFillGap := true }).1 :=
      checkRecap_taken (s := { s with tryToFillGap := true }) hstate t ctxSeqNum
    exact { htaken with }

theorem step_image (ht : t.ftWaitForRecap) (hs : s.recoverGaps) (himage : image.type.isImage)
    (hstate : s.dqState = .waitingForRecapAfterFt) :
    Taken image s (step t s image) := by
  have hreceived : (received s image).dqState = .waitingForRecapAfterFt := by
    unfold received
    split
    · rfl
    · exact hstate
  have htaken : Taken image (received s image) (checkType t s.dqState s.seqNum image (received s image)).1 := by
    unfold checkType
    split
    · exact checkInitial_taken hreceived t s.seqNum
    · exact checkInitial_taken hreceived t s.seqNum
    · exact checkRecap_taken hreceived t s.seqNum
    · exact checkRecap_taken hreceived t s.seqNum
    next htype =>
      rw [htype] at himage
      cases himage
    next _ _ _ _ _ =>
      exact absurd himage (by unfold MsgType.isImage; split <;> simp_all)
  rw [step_checkType hs (fun _ => ht)]
  exact ⟨htaken.senderId, htaken.recoverGaps.trans (received_frame s image).2, htaken.dqState⟩

def Dropped (t : Transport) (s : Strategy) (msg : Msg) : Prop :=
  ¬ Accepted s.dqState s.seqNum msg ∧ dropped t s.seqNum msg s

instance (t : Transport) (s : Strategy) (msg : Msg) : Decidable (Dropped t s msg) :=
  inferInstanceAs (Decidable (_ ∧ _))

theorem step_forwards (hs : s.recoverGaps) (hupd : msg.type.isUpdate) (hsame : isTakeover s msg = false)
    (hstate : s.dqState ≠ .waitingForRecapAfterFt) :
    ((step t s msg).doNotForward = false ↔ ¬ Dropped t s msg)
      ∧ (step t s msg).dqState ≠ .waitingForRecapAfterFt := by
  rw [step_update hs hupd hsame, Dropped]
  obtain ⟨-, -, hdq, -, hforward, -⟩ := settled_frame { s with doNotForward := false }
  by_cases haccepted : Accepted s.dqState s.seqNum msg
  · rw [checkUpdate_accepted haccepted]
    refine ⟨iff_of_true ?_ (fun h => h.1 haccepted), fun h => ?_⟩
    · exact (resetDqState_frame _).2.2.trans hforward
    · cases (resetDqState_dqState _).symm.trans h
  · have hlate (r : Strategy) (hdq : r.dqState = s.dqState) (hforward : r.doNotForward = false) :
        ((checkLate t s.dqState s.seqNum msg r).1.doNotForward = false ↔ ¬ dropped t s.seqNum msg s)
          ∧ (checkLate t s.dqState s.seqNum msg r).1.dqState ≠ .waitingForRecapAfterFt := by
      obtain ⟨hlate, hdrop⟩ := checkLate_late t s.dqState s.seqNum msg r
      constructor
      · rw [hdrop]
        simp [hforward, hstate, dropped, hdq]
      · rcases hlate.dqState with hsame | hdup | hwait
        · rw [hsame, hdq]
          exact hstate
        · rw [hdup]
          decide
        · rw [hwait]
          decide
    rw [checkUpdate_late haccepted]
    simp only [haccepted, not_false_eq_true, true_and]
    split
    · exact hlate _ hdq hforward
    · exact hlate _ rfl rfl

theorem waits_along {msgs : List Msg} (ht : t.ftWaitForRecap) (hs : s.recoverGaps)
    (hupd : ∀ msg ∈ msgs, msg.type.isUpdate) (hstate : s.dqState = .waitingForRecapAfterFt) :
    (∀ n < msgs.length, AwaitsImage (run t (msgs.take (n + 1)) s))
      ↔ Along (step t) (fun s msg => ¬ Accepted s.dqState s.seqNum msg) s msgs := by
  have hpoints : Along (step t) (fun s msg => AwaitsImage (step t s msg)) s msgs
      ↔ ∀ n < msgs.length, AwaitsImage (run t (msgs.take (n + 1)) s) :=
    along_iff_forall_take (I := AwaitsImage) s msgs
  refine hpoints.symm.trans (Along.congr_on
    (I := fun s => s.recoverGaps ∧ s.dqState = .waitingForRecapAfterFt) ⟨hs, hstate⟩ ?_ ?_)
  · intro s hs msg hmsg
    exact step_awaits_iff ht hs.1 (hupd msg hmsg) hs.2
  · intro s hs msg hmsg hawaits
    exact ⟨(step_frame (hupd msg hmsg) (fun _ => ht)).2.trans hs.1, hawaits.1⟩

theorem waits_to_end {msgs : List Msg} (ht : t.ftWaitForRecap) (hs : s.recoverGaps)
    (hupd : ∀ msg ∈ msgs, msg.type.isUpdate) (hstate : s.dqState = .waitingForRecapAfterFt)
    (hlate : Along (step t) (fun s msg => ¬ Accepted s.dqState s.seqNum msg) s msgs) :
    (run t msgs s).recoverGaps ∧ (run t msgs s).dqState = .waitingForRecapAfterFt := by
  induction msgs generalizing s with
  | nil => exact ⟨hs, hstate⟩
  | cons _ _ ih =>
    obtain ⟨hmsg, hmsgs⟩ := List.forall_mem_cons.mp hupd
    exact ih ((step_frame hmsg (fun _ => ht)).2.trans hs) hmsgs
      ((step_awaits_iff ht hs hmsg hstate).mpr hlate.1).1 hlate.2

theorem forwards_along {ups : List Msg} (hs : s.recoverGaps)
    (hups : ∀ msg ∈ ups, msg.type.isUpdate ∧ msg.senderId = s.senderId) (hstate : s.dqState ≠ .waitingForRecapAfterFt) :
    (∀ n < ups.length, (run t (ups.take (n + 1)) s).doNotForward = false)
      ↔ Along (step t) (fun s msg => ¬ Dropped t s msg) s ups := by
  have hpoints : Along (step t) (fun s msg => (step t s msg).doNotForward = false) s ups
      ↔ ∀ n < ups.length, (run t (ups.take (n + 1)) s).doNotForward = false :=
    along_iff_forall_take (I := fun s => s.doNotForward = false) s ups
  have hsame (r : Strategy) (hr : r.senderId = s.senderId) (msg : Msg) (hmsg : msg ∈ ups) :
      isTakeover r msg = false := by
    simp [isTakeover, hr, (hups msg hmsg).2]
  refine hpoints.symm.trans (Along.congr_on (I := fun r => r.recoverGaps ∧ r.senderId = s.senderId
    ∧ r.dqState ≠ .waitingForRecapAfterFt) ⟨hs, rfl, hstate⟩ ?_ ?_)
  · intro r hr msg hmsg
    exact (step_forwards hr.1 (hups msg hmsg).1 (hsame r hr.2.1 msg hmsg) hr.2.2).1
  · intro r hr msg hmsg _
    have htake := hsame r hr.2.1 msg hmsg
    obtain ⟨hsender, hrecover⟩ := step_frame (s := r) (t := t) (hups msg hmsg).1 (by simp [htake])
    exact ⟨hrecover.trans hr.1, hsender.trans hr.2.1, (step_forwards hr.1 (hups msg hmsg).1 htake hr.2.2).2⟩

/-- After an update from another sender the context forwards nothing until an image comes, and then the updates of its
sender, exactly when it was waiting like that before, accepts none of the updates in between, and drops none of those
after the image. -/
theorem awaits_image_iff (t : Transport) (s : Strategy) (msg image : Msg) (msgs ups : List Msg)
    (ht : t.ftWaitForRecap) (hs : s.recoverGaps) (htake : isTakeover s msg)
    (hupd : ∀ m ∈ msg :: msgs, m.type.isUpdate) (himage : image.type.isImage)
    (hups : ∀ m ∈ ups, m.type.isUpdate ∧ m.senderId = image.senderId) :
    ((∀ n < (msg :: msgs).length, AwaitsImage (run t ((msg :: msgs).take (n + 1)) s))
        ∧ ∀ n < ups.length,
          (run t (ups.take (n + 1)) (run t (msg :: msgs ++ [image]) s)).doNotForward = false)
      ↔ s.dqState = .waitingForRecapAfterFt
        ∧ Along (step t) (fun s m => ¬ Accepted s.dqState s.seqNum m) s (msg :: msgs)
        ∧ Along (step t) (fun s m => ¬ Dropped t s m) (run t (msg :: msgs ++ [image]) s) ups := by
  by_cases hstate : s.dqState = .waitingForRecapAfterFt
  · rw [waits_along ht hs hupd hstate, and_iff_right hstate]
    refine and_congr_right fun hlate => ?_
    obtain ⟨hrecover, hwaits⟩ := waits_to_end ht hs hupd hstate hlate
    have hend : run t (msg :: msgs ++ [image]) s = step t (run t (msg :: msgs) s) image := by
      rw [run, List.foldl_append]
      rfl
    have htaken := step_image ht hrecover himage hwaits
    rw [hend]
    refine forwards_along (htaken.recoverGaps.trans hrecover) (fun m hm => ?_) htaken.dqState
    exact ⟨(hups m hm).1, (hups m hm).2.trans htaken.senderId.symm⟩
  · refine iff_of_false (fun h => ?_) (fun h => hstate h.1)
    exact step_takeover_ne ht hs htake (hupd msg List.mem_cons_self) hstate (h.1 0 (Nat.succ_pos _)).1

def takenOver : Strategy :=
  { okAt10 with dqState := .waitingForRecapAfterFt, doNotForward := true }

def recapWait : Transport := { ftWaitForRecap := true }

theorem awaits_image_takenOver :
    (∀ n < 2, AwaitsImage (run recapWait
        ([{ seqNum := 3, senderId := 8 }, { seqNum := 13, senderId := 7 }].take (n + 1)) takenOver))
      ∧ ∀ n < 1, (run recapWait ([{ seqNum := 6, senderId := 8 }].take (n + 1))
        (run recapWait [{ seqNum := 3, senderId := 8 }, { seqNum := 13, senderId := 7 },
          { type := .recap, seqNum := 5, senderId := 8 }] takenOver)).doNotForward = false :=
  (awaits_image_iff recapWait takenOver { seqNum := 3, senderId := 8 }
    { type := .recap, seqNum := 5, senderId := 8 } [{ seqNum := 13, senderId := 7 }]
    [{ seqNum := 6, senderId := 8 }] rfl rfl (by decide) (by decide) (by decide) (by decide)).mpr
    ⟨rfl, ⟨by decide, by decide, trivial⟩, by decide, trivial⟩

theorem not_awaits_image_okAt10 :
    (run recapWait [{ seqNum := 11, senderId := 8 }] okAt10).dqState = .ok
      ∧ (run recapWait [{ seqNum := 10, senderId := 8 }] okAt10).dqState = .duplicate
      ∧ (run recapWait [{ seqNum := 3, senderId := 8 }] okAt10).dqState = .waitingForRecap
      ∧ (run recapWait [{ seqNum := 3, senderId := 8 }, { seqNum := 3, senderId := 7 }]
        okAt10).doNotForward = false := by
  decide

end OpenMama.DataQuality
