import OpenMama.ImageRequest.Retries

/-!
# The references of an image request

Every request takes a reference to the destroy handle and so does every reply timer. A tick gives one up, a timer that
is destroyed another, and an image or the time-out that of a request. So the books balance if each request gets one of
the two, and one only.
-/

namespace OpenMama.ImageRequest

open List World

open DestroyHandle (Handle Exit)

def Output.isTimedOut : Output → Bool
  | .timedOut .. => true
  | _ => false

namespace World

def live (w : World) : Nat := w.timers.countP (fun timer => !timer.destroyed)

/-- The requests for which neither an image came nor a time-out. Every tick of a timer that was destroyed
takes one away. -/
def owed (w : World) : Int := w.requests - w.answers - w.log.countP Output.isTimedOut - w.lateTicks

/-- `imageRequestImpl_checkDestroyReplyTimer` destroys the timer. -/
def Destroys (w : World) (now : ℚ) : Prop :=
  w.replyTimer ≠ none ∧ now - w.replyTimerStart + 1 / 10 < w.timeout

instance (w : World) (now : ℚ) : Decidable (w.Destroys now) := by unfold Destroys; infer_instance

def TimesOut (w : World) : Prop := w.p2pListener = true ∧ w.imageCount = 0 ∧ w.retries ≤ w.reqCount

instance (w : World) : Decidable w.TimesOut := by unfold TimesOut; infer_instance

/-- The references that are given up: by an image in the inbox, by a tick and a time-out, and by a timer
that is destroyed. -/
def drops (w : World) : Op → Nat
  | .image _ => if w.p2pListener then 1 else 0
  | .tick id _ _ => if (w.timers.find? (·.id = id)).isSome then 1 + (if w.TimesOut then 1 else 0) else 0
  | .stop now => if w.Destroys now then 1 else 0
  | .destroy now transport => if transport = true ∧ w.waitingForResponse = true ∧ w.Destroys now then 1 else 0
  | .sendRequest .. | .fire _ => 0

/-- The ticks that are still to come when the request is destroyed. -/
def outstanding (w : World) (now : ℚ) (transport : Bool) : Nat :=
  (if transport = true ∧ w.waitingForResponse = true then w.checkDestroyReplyTimer now else w).timers.length

end World

/-- The count never goes below zero, and the handle is freed once, by the destroyed request's last tick, and not used
afterwards. -/
structure Right (w : World) : Prop where
  positive : w.negative = false
  live : w.fault = false
  frees : w.frees = if w.destroyed = true ∧ w.timers = [] then 1 else 0

/-- No more references are given up than there are requests without an answer and timers. In the end there
is one for each tick that is still to come. -/
def Covered (w : World) : Op → Prop
  | .destroy now transport =>
    (w.drops (.destroy now transport) : Int) ≤ w.owed + w.live ∧
      w.owed + w.live = w.outstanding now transport + w.drops (.destroy now transport)
  | op => (w.drops op : Int) ≤ w.owed + w.live

instance (w : World) : (op : Op) → Decidable (Covered w op)
  | .destroy _ _ => inferInstanceAs (Decidable (_ ∧ _))
  | .sendRequest .. | .fire _ | .tick .. | .image _ | .stop _ => inferInstanceAs (Decidable (_ ≤ _))

/-! ### The books -/

namespace World

/-- The references are those of unanswered requests and of live timers. -/
structure Balanced (w : World) : Prop where
  sane : w.Sane
  references : w.response.numberReferences = w.owed + w.live
  nodup : (w.timers.map Timer.id).Nodup
  fresh : ∀ timer ∈ w.timers, timer.id < w.started
  reply : ∀ id, w.replyTimer = some id → ∃ timer ∈ w.timers, timer.id = id ∧ timer.destroyed = false
  live : w.fault = false
  undestroyed : w.destroyed = false
  idle : w.waitingForResponse = false → w.queue = []

variable {w : World} {timers : List Timer} {timer : Timer} {op : Op}

/-- A step that gives up `d` references. -/
structure Drops (w : World) (d : Int) (w' : World) : Prop where
  balanced : w'.Balanced
  references : w.response.numberReferences - d ≤ w'.response.numberReferences
  sticky : w.negative = true → w'.negative = true
  negative : w.negative = false → 0 ≤ w.response.numberReferences →
    (w'.negative = false ↔ d ≤ w.response.numberReferences)

theorem Drops.trans {w₁ w₂ : World} {d e : Int} (h : Drops w d w₁) (h' : Drops w₁ e w₂)
    (he : e = 0 ∨ 0 ≤ e ∧ w₁.response.numberReferences = w.response.numberReferences - d) : Drops w (d + e) w₂ where
  balanced := h'.balanced
  references := by
    have := h.references
    have := h'.references
    omega
  sticky := h'.sticky ∘ h.sticky
  negative hpositive hle := by
    have hreferences := h.references
    have hfirst := h.negative hpositive hle
    by_cases hd : d ≤ w.response.numberReferences
    · rw [h'.negative (hfirst.mpr hd) (by omega)]
      omega
    · have hbelow : w₁.negative := by
        rw [← Bool.not_eq_false]
        exact fun hfalse => hd (hfirst.mp hfalse)
      refine iff_of_false (fun hfalse => ?_) (by omega)
      cases (h'.sticky hbelow).symm.trans hfalse

theorem Drops.keeps {w₁ w₂ : World} {d : Int} (h : Drops w d w₁) (h' : Drops w₁ 0 w₂) : Drops w d w₂ := by
  simpa using h.trans h' (.inl rfl)

section

variable (h : w.Balanced)
include h

theorem Balanced.congr {w' : World} (hsane : w'.Sane) (hidle : w'.waitingForResponse = false → w'.queue = [])
    (hreferences : w'.response.numberReferences - w'.owed = w.response.numberReferences - w.owed)
    (hle : w.response.numberReferences ≤ w'.response.numberReferences)
    (hsame : (w'.negative, w'.timers, w'.started, w'.replyTimer, w'.fault, w'.destroyed) =
      (w.negative, w.timers, w.started, w.replyTimer, w.fault, w.destroyed)) : Drops w 0 w' := by
  simp only [Prod.mk.injEq] at hsame
  obtain ⟨hnegative, htimers, hstarted, hreply, hlive, hdestroyed⟩ := hsame
  refine ⟨⟨hsane, ?_, htimers ▸ h.nodup, ?_, ?_, hlive.trans h.live, hdestroyed.trans h.undestroyed, hidle⟩, by omega,
    hnegative.trans, fun hpositive hle => iff_of_true (hnegative.trans hpositive) hle⟩
  · have := h.references
    rw [World.live, htimers, ← World.live]
    omega
  · rw [htimers, hstarted]
    exact h.fresh
  · rw [htimers, hreply]
    exact h.reply

theorem Balanced.refl : Drops w 0 w := h.congr h.sane h.idle rfl (Int.le_refl _) rfl

theorem Balanced.startReplyTimer (now : ℚ) : Drops w 0 (w.startReplyTimer now) := by
  have hsane := h.sane.startReplyTimer now
  unfold World.startReplyTimer at hsane ⊢
  split
  · exact h.refl
  next hnone =>
    simp only [hnone, h.sane.owned.retain_eq] at hsane ⊢
    refine ⟨⟨hsane, ?_, ?_, ?_, ?_, h.live, h.undestroyed, h.idle⟩, by dsimp only; omega, fun hn => hn, iff_of_true⟩
    · have hreferences := h.references
      simp only [World.owed, World.live, countP_append] at hreferences ⊢
      simp only [countP_singleton, Bool.not_false, if_true]
      omega
    · rw [map_append, nodup_append_comm]
      refine nodup_cons.mpr ⟨fun hmem => ?_, h.nodup⟩
      obtain ⟨timer, htimer, hid⟩ := mem_map.mp hmem
      exact absurd hid (Nat.ne_of_lt (h.fresh timer htimer))
    · intro timer htimer
      rcases mem_append.mp htimer with htimer | htimer
      · exact Nat.lt_succ_of_lt (h.fresh timer htimer)
      · rw [mem_singleton.mp htimer]
        exact Nat.lt_succ_self _
    · intro _ hid
      obtain rfl := Option.some.inj hid
      exact ⟨_, mem_append_right _ mem_cons_self, rfl, rfl⟩

theorem Balanced.emit {out : Output} (hout : out.isTimedOut = false) : Drops w 0 (w.emit out) := by
  refine h.congr (h.sane.emit out) h.idle ?_ (Int.le_refl _) rfl
  simp only [World.emit, World.owed, countP_append, countP_singleton, hout]
  simp

theorem Balanced.requestAction (now : ℚ) (action : Option Nat) (haction : ∀ a ∈ w.queue, some a.id ≠ action) :
    Drops w 0 (w.requestAction now action) := by
  have hdropped := h.congr (h.sane.dropAction haction) h.idle rfl (Int.le_refl _) rfl
  unfold World.requestAction
  dsimp only
  split
  · exact hdropped
  · have hstarted := hdropped.keeps (hdropped.balanced.startReplyTimer now)
    exact hstarted.keeps (hstarted.balanced.emit rfl)

theorem Balanced.dispatch (now : ℚ) (immediate off : Bool) (hwaiting : w.waitingForResponse) :
    Drops w 0 (w.dispatch now immediate off) := by
  have hsane := h.sane.dispatch now immediate off
  have hpush := h.congr h.sane.push h.idle rfl (Int.le_refl _) rfl
  cases off with
  | true => exact hpush.keeps (hpush.balanced.requestAction now _ (fun a => h.sane.ne_dispatched))
  | false => exact h.congr hsane (fun hidle => nomatch hwaiting.symm.trans hidle) rfl (Int.le_refl _) rfl

theorem Balanced.sendRequest (now timeout : ℚ) (retries : Int) (throttle isRecapRequest off : Bool) :
    Drops w 0 (w.sendRequest now timeout retries throttle isRecapRequest off) := by
  have howned : Owned (w.accept timeout retries isRecapRequest) := { h.sane.owned with }
  have hsane := h.sane.retainAccepted timeout retries isRecapRequest
  have haccepted : Drops w 0 (w.accept timeout retries isRecapRequest).retain ∧
      (w.accept timeout retries isRecapRequest).retain.waitingForResponse := by
    rw [howned.retain_eq] at hsane ⊢
    refine ⟨h.congr hsane nofun ?_ (Int.le_add_one (Int.le_refl _)) rfl, rfl⟩
    simp only [accept, owed]
    omega
  unfold World.sendRequest
  split
  · exact haccepted.1.keeps (haccepted.1.balanced.dispatch now isRecapRequest off haccepted.2)
  · exact haccepted.1.keeps (haccepted.1.balanced.requestAction now none (fun _ _ => nofun))

end

def without (timers : List Timer) (id : Nat) (now : ℚ) : List Timer :=
  (timers.map (fun timer => if timer.id = id then { timer with destroyed := true } else timer)).filter
    (fun timer => timer.id ≠ id ∨ timer.IsDue now)

theorem map_id_destroy (timers : List Timer) (id : Nat) :
    (timers.map (fun timer => if timer.id = id then { timer with destroyed := true } else timer)).map Timer.id =
      timers.map Timer.id := by
  rw [map_map]
  apply map_congr_left
  intro timer _
  show (if timer.id = id then { timer with destroyed := true } else timer).id = timer.id
  split <;> rfl

theorem nodup_without (h : (timers.map Timer.id).Nodup) (id : Nat) (now : ℚ) :
    ((without timers id now).map Timer.id).Nodup := by
  rw [← map_id_destroy timers id] at h
  exact h.sublist (filter_sublist.map Timer.id)

theorem mem_without {id : Nat} {now : ℚ} (h : timer ∈ without timers id now) :
    ∃ old ∈ timers, old.id = timer.id ∧ old.request = timer.request := by
  obtain ⟨old, hold, rfl⟩ := mem_map.mp (mem_filter.mp h).1
  refine ⟨old, hold, ?_⟩
  split <;> exact ⟨rfl, rfl⟩

theorem without_of_not_mem {id : Nat} (h : id ∉ timers.map Timer.id) (now : ℚ) : without timers id now = timers := by
  have hne : ∀ timer ∈ timers, timer.id ≠ id := fun timer htimer heq => h (mem_map.mpr ⟨timer, htimer, heq⟩)
  rw [without, map_congr_left (g := fun timer => timer) (fun timer htimer => if_neg (hne timer htimer)),
    map_id', filter_eq_self]
  intro timer htimer
  exact decide_eq_true (.inl (hne timer htimer))

theorem countP_without (hnodup : (timers.map Timer.id).Nodup) (hmem : timer ∈ timers) (halive : timer.destroyed = false)
    (now : ℚ) :
    (without timers timer.id now).countP (fun timer => !timer.destroyed) + 1 =
      timers.countP (fun timer => !timer.destroyed) := by
  induction timers with
  | nil => cases hmem
  | cons head tail ih =>
    rw [map_cons, nodup_cons] at hnodup
    rcases mem_cons.mp hmem with rfl | htail
    · have hrest := without_of_not_mem hnodup.1 now
      rw [without] at hrest ⊢
      rw [map_cons, if_pos rfl, filter_cons]
      split
      · rw [countP_cons, hrest, countP_cons, halive]
        rfl
      · rw [hrest, countP_cons, halive]
        rfl
    · have hne : head.id ≠ timer.id := fun heq => hnodup.1 (heq ▸ mem_map.mpr ⟨timer, htail, rfl⟩)
      have hcons : without (head :: tail) timer.id now = head :: without tail timer.id now := by
        rw [without, map_cons, if_neg hne, filter_cons, if_pos (decide_eq_true (.inl hne)), without]
      have := ih hnodup.2 htail
      rw [hcons, countP_cons, countP_cons]
      omega

theorem countP_take (p : Timer → Bool) (hnodup : (timers.map Timer.id).Nodup) (hmem : timer ∈ timers) :
    timers.countP p = (timers.filter (·.id ≠ timer.id)).countP p + if p timer then 1 else 0 := by
  induction timers with
  | nil => cases hmem
  | cons head tail ih =>
    rw [map_cons, nodup_cons] at hnodup
    rw [countP_cons, filter_cons]
    rcases mem_cons.mp hmem with rfl | htail
    · have hrest : tail.filter (·.id ≠ timer.id) = tail := by
        rw [filter_eq_self]
        intro other hother
        exact decide_eq_true (fun heq => hnodup.1 (heq ▸ mem_map.mpr ⟨other, hother, rfl⟩))
      rw [hrest, if_neg (c := decide (timer.id ≠ timer.id)) (by simp)]
    · have hne : head.id ≠ timer.id := fun heq => hnodup.1 (heq ▸ mem_map.mpr ⟨timer, htail, rfl⟩)
      rw [if_pos (decide_eq_true hne), countP_cons, ih hnodup.2 htail]
      omega

section

variable (w)

theorem owed_take (hnodup : (w.timers.map Timer.id).Nodup) (hmem : timer ∈ w.timers) :
    (w.take timer).owed + (w.take timer).live = w.owed + w.live - 1 := by
  have hcount := countP_take (fun t => !t.destroyed) hnodup hmem
  simp only [owed, live, take] at hcount ⊢
  cases hdestroyed : timer.destroyed <;> simp only [hdestroyed] at hcount ⊢ <;> simp at hcount ⊢ <;> omega

theorem release_emit (out : Output) : w.release.1.emit out = (w.emit out).release.1 := by
  by_cases hfreed : w.frees ≠ 0
  · rw [release, release, if_pos hfreed, if_pos (show (w.emit out).frees ≠ 0 from hfreed)]
    rfl
  · rw [release, release, if_neg hfreed, if_neg (show ¬ (w.emit out).frees ≠ 0 from hfreed)]
    rfl

theorem requests_release : w.release.1.requests = w.requests := by
  obtain ⟨_, _, _, _, heq⟩ := w.release_keeps
  rw [heq]

theorem requests_stopWaitForResponse (now : ℚ) : (w.stopWaitForResponse now).requests = w.requests := by
  show (w.checkDestroyReplyTimer now).requests = w.requests
  unfold checkDestroyReplyTimer
  split
  · rfl
  · split
    · exact w.requests_release
    · rfl

end

section

variable (h : w.Balanced)
include h

theorem Balanced.release {w' : World} (hsane : w'.Sane) (hresponse : w'.response = w.response)
    (howed : w'.owed + w'.live = w.owed + w.live - 1) (hnegative : w'.negative = w.negative)
    (hnodup : (w'.timers.map Timer.id).Nodup) (hfresh : ∀ timer ∈ w'.timers, timer.id < w'.started)
    (hreply : ∀ id, w'.replyTimer = some id → ∃ timer ∈ w'.timers, timer.id = id ∧ timer.destroyed = false)
    (hlive : w'.fault = w.fault) (hdestroyed : w'.destroyed = w.destroyed)
    (hidle : w'.waitingForResponse = false → w'.queue = []) :
    Drops w 1 w'.release.1 ∧ w'.release.1.response.numberReferences = w.response.numberReferences - 1 := by
  have hreferences := h.references
  have hreleased := hsane.release
  rw [hsane.owned.release_eq] at hreleased ⊢
  refine ⟨⟨⟨hreleased, ?_, hnodup, hfresh, hreply, hlive.trans h.live, hdestroyed.trans h.undestroyed, hidle⟩,
    by simp [hresponse], fun hn => by simp [hnegative, hn], fun hpositive _ => ?_⟩, by rw [hresponse]⟩
  · simp only [World.owed, World.live, hresponse] at hreferences howed ⊢
    omega
  · simp only [hresponse, hnegative, hpositive, Bool.false_or, decide_eq_false_iff_not]
    omega

theorem Balanced.checkDestroyReplyTimer (now : ℚ) :
    Drops w (if w.Destroys now then 1 else 0) (w.checkDestroyReplyTimer now) ∧
      (w.checkDestroyReplyTimer now).response.numberReferences =
        w.response.numberReferences - (if w.Destroys now then 1 else 0) := by
  by_cases hyes : w.Destroys now
  · obtain ⟨id, hreply⟩ := Option.ne_none_iff_exists'.mp hyes.1
    obtain ⟨timer, htimer, rfl, halive⟩ := h.reply id hreply
    have hcount := countP_without h.nodup htimer halive now
    have heq : w.checkDestroyReplyTimer now =
        (World.release { w with replyTimer := none, timers := without w.timers timer.id now }).1 := by
      simp only [World.checkDestroyReplyTimer, hreply, if_pos hyes.2, without, World.release]
      split <;> rfl
    rw [heq, if_pos hyes]
    refine h.release ⟨{ h.sane.owned with }, { h.sane.queued with }, fun other hother => ?_, by simp⟩
      rfl ?_ rfl (nodup_without h.nodup _ now) (fun other hother => ?_) (by simp) rfl rfl h.idle
    · obtain ⟨old, hold, _, hrequest⟩ := mem_without hother
      exact hrequest ▸ h.sane.timers old hold
    · simp only [World.owed, World.live] at hcount ⊢
      omega
    · obtain ⟨old, hold, hid, _⟩ := mem_without hother
      exact hid ▸ h.fresh old hold
  · have heq : w.checkDestroyReplyTimer now = w := by
      unfold World.checkDestroyReplyTimer
      split
      · rfl
      next _ hreply => exact if_neg (fun hlong => hyes ⟨by simp [hreply], hlong⟩)
    rw [heq, if_neg hyes]
    exact ⟨h.refl, by omega⟩

theorem Balanced.stopWaitForResponse (now : ℚ) :
    Drops w (if w.Destroys now then 1 else 0) (w.stopWaitForResponse now) ∧
      (w.stopWaitForResponse now).response.numberReferences =
        w.response.numberReferences - (if w.Destroys now then 1 else 0) := by
  obtain ⟨hcheck, hreferences⟩ := h.checkDestroyReplyTimer now
  obtain ⟨hsane, hempty⟩ := h.sane.stopWaitForResponse now
  exact ⟨hcheck.keeps (hcheck.balanced.congr hsane (fun _ => hempty) rfl (Int.le_refl _) rfl), hreferences⟩

theorem Balanced.onInitialMessage (counted : Bool) : Drops w 1 (w.onInitialMessage counted) := by
  have hsane : Sane { w with answers := w.answers + 1 } :=
    { h.sane with owned := { h.sane.owned with }, queued := { h.sane.queued with } }
  have hreleased := (h.release hsane rfl (by simp only [World.owed, World.live]; omega)
    rfl h.nodup h.fresh h.reply rfl rfl h.idle).1
  have hbalanced := hreleased.balanced
  unfold World.onInitialMessage
  dsimp only
  split
  · refine hreleased.keeps (hbalanced.congr ?_ hbalanced.idle rfl (Int.le_refl _) rfl)
    exact { hbalanced.sane with owned := { hbalanced.sane.owned with }, queued := { hbalanced.sane.queued with } }
  · exact hreleased

theorem Balanced.processTimeout (hreply : w.replyTimer = none) (now : ℚ) (off : Bool) (timer : Nat) :
    Drops w (if w.TimesOut then 1 else 0) (w.processTimeout now off timer) := by
  have hno : ∀ w' : World, w'.replyTimer = none → ¬ w'.Destroys now := fun w' hnone hd => hd.1 hnone
  generalize hd : (if w.TimesOut then (1 : Int) else 0) = d
  unfold World.processTimeout
  split
  next hdeaf =>
    obtain rfl := hd.symm.trans (if_neg (fun ht : w.TimesOut => nomatch hdeaf.symm.trans ht.1))
    exact h.refl
  next hlistens =>
    split
    next himages =>
      have hstop := (h.stopWaitForResponse now).1
      rw [if_neg (hno w hreply)] at hstop
      obtain rfl := hd.symm.trans (if_neg (fun ht : w.TimesOut => Nat.lt_irrefl 0 (ht.2.1 ▸ himages)))
      dsimp only
      split
      · exact hstop
      · exact hstop.keeps (hstop.balanced.emit rfl)
    next hnone =>
      have hcounted := h.congr h.sane.count h.idle rfl (Int.le_refl _) rfl
      split
      next hretries =>
        obtain rfl := hd.symm.trans (if_neg (fun ht : w.TimesOut => absurd ht.2.2 (by omega)))
        have hemit := hcounted.balanced.emit (show (Output.retried w.requests timer).isTimedOut = false from rfl)
        have hretried := hcounted.keeps hemit
        dsimp only
        split
        · exact hretried
        next hwaiting =>
          have hsent := hretried.keeps (hretried.balanced.dispatch now true off (by simpa using hwaiting))
          exact hsent.keeps (hsent.balanced.startReplyTimer now)
      next hretries =>
        obtain rfl := hd.symm.trans (if_pos (⟨by simpa using hlistens, by omega, by omega⟩ : w.TimesOut))
        obtain ⟨hstop, hreferences⟩ := hcounted.balanced.stopWaitForResponse now
        rw [if_neg (hno { w with reqCount := w.reqCount + 1 } hreply)] at hreferences hstop
        have hbalanced := hstop.balanced
        have hreleased := (hbalanced.release (hbalanced.sane.emit (.timedOut w.requests timer)) rfl
          (by
            simp only [World.emit, World.owed, World.live, countP_append, countP_singleton, Output.isTimedOut, if_true]
            omega)
          rfl hbalanced.nodup hbalanced.fresh hbalanced.reply rfl rfl hbalanced.idle).1
        rw [release_emit, requests_release, requests_stopWaitForResponse]
        exact (hcounted.keeps hstop).trans hreleased (.inr ⟨by decide, hreferences⟩)

theorem Balanced.onReplyTimeout (hmem : timer ∈ w.timers) (now : ℚ) (off : Bool) :
    Drops w (1 + (if w.TimesOut then 1 else 0)) (w.onReplyTimeout timer now off) := by
  have hsub : ∀ other ∈ (w.take timer).timers, other ∈ w.timers := fun other hother => (mem_filter.mp hother).1
  have hsane := h.sane.take timer
  obtain ⟨hreleased, hreferences⟩ := h.release hsane rfl (owed_take w h.nodup hmem) rfl
    (h.nodup.sublist (filter_sublist.map Timer.id)) (fun other hother => h.fresh other (hsub other hother))
    nofun rfl rfl h.idle
  have htimesOut : (World.release { w.take timer with replyTimer := none }).1.TimesOut ↔ w.TimesOut := by
    rw [hsane.owned.release_eq]
    exact Iff.rfl
  have hreply : (World.release { w.take timer with replyTimer := none }).1.replyTimer = none := by
    rw [hsane.owned.release_eq]
  have hprocessed := hreleased.balanced.processTimeout hreply now off timer.request
  simp only [htimesOut] at hprocessed
  rw [h.sane.onReplyTimeout_eq]
  exact hreleased.trans hprocessed (.inr ⟨by split <;> decide, hreferences⟩)

theorem Balanced.step (hop : op.IsUse) : Drops w (w.drops op) (w.step op) := by
  cases op with
  | sendRequest _ _ _ _ _ _ => exact h.sendRequest ..
  | fire now =>
    simp only [step]
    split
    · exact h.refl
    next _ queue hqueue =>
      obtain ⟨hsane, hother⟩ := h.sane.pop hqueue
      have hrest : Drops w 0 { w with queue := queue } := by
        refine h.congr hsane (fun hidle => ?_) rfl (Int.le_refl _) rfl
        cases hqueue.symm.trans (h.idle hidle)
      exact hrest.keeps (hrest.balanced.requestAction now _ hother)
  | tick id now off =>
    cases hfind : w.timers.find? (·.id = id) with
    | none => simpa [step, drops, hfind] using h.refl
    | some _ => simpa [step, drops, hfind] using h.onReplyTimeout (mem_of_find?_eq_some hfind) now off
  | image counted =>
    simp only [step, drops]
    split
    · exact h.onInitialMessage counted
    · exact h.refl
  | stop now => simpa [step, drops] using (h.stopWaitForResponse now).1
  | destroy _ _ => exact hop.elim

end

/-! ### The end -/

/-- A destroyed request with these references left. -/
structure Gone (references : Int) (w : World) : Prop where
  destroyed : w.destroyed = true
  owner : w.response.destroyed = true
  unfreed : w.frees = 0
  references : w.response.numberReferences = references
  positive : w.negative = false
  live : w.fault = false
  deaf : w.p2pListener = false
  empty : w.queue = []
  nodup : (w.timers.map Timer.id).Nodup

structure Freed (w : World) : Prop where
  right : Right w
  deaf : w.p2pListener = false
  empty : w.queue = []
  drained : w.timers = []

end World

def Op.IsLate : Op → Prop
  | .tick .. | .fire _ | .image _ => True
  | _ => False

instance : DecidablePred Op.IsLate
  | .tick .. | .fire _ | .image _ => inferInstanceAs (Decidable True)
  | .sendRequest .. | .stop _ | .destroy _ _ => inferInstanceAs (Decidable False)

namespace World

variable {w : World} {after : List Op} {references : Int}

theorem step_of_late (hdeaf : w.p2pListener = false) (hempty : w.queue = []) {op : Op} (hop : op.IsLate) :
    w.step op = w ∨ ∃ timer ∈ w.timers, ∃ now off, w.step op = w.onReplyTimeout timer now off := by
  cases op with
  | sendRequest | stop | destroy => exact hop.elim
  | fire _ => exact .inl (by simp only [step, hempty])
  | image _ => exact .inl (if_neg (by simp [hdeaf]))
  | tick id now off =>
    cases hfind : w.timers.find? (·.id = id) with
    | none => exact .inl (by simp only [step, hfind])
    | some timer => exact .inr ⟨timer, mem_of_find?_eq_some hfind, now, off, by simp only [step, hfind]⟩

theorem Freed.run (h : w.Freed) (hafter : ∀ op ∈ after, op.IsLate) :
    Along step (fun w op => Right (w.step op)) w after := by
  induction after with
  | nil => trivial
  | cons op _ ih =>
    rw [forall_mem_cons] at hafter
    have hstep : w.step op = w := by
      rcases step_of_late h.deaf h.empty hafter.1 with hstep | ⟨_, htimer, _⟩
      · exact hstep
      · rw [h.drained] at htimer
        cases htimer
    rw [Along, hstep]
    exact ⟨h.right, ih hafter.2⟩

theorem Gone.onReplyTimeout (h : w.Gone references) (hle : 1 ≤ references) {timer : Timer} (hmem : timer ∈ w.timers)
    (now : ℚ) (off : Bool) :
    let w' := w.onReplyTimeout timer now off
    w'.timers.length + 1 = w.timers.length ∧ (references ≠ 1 → w'.Gone (references - 1)) ∧
      (references = 1 → w'.frees = 1 ∧ (w'.timers = [] → w'.Freed)) := by
  have hlength := countP_take (fun _ => true) h.nodup hmem
  simp only [countP_true, if_true] at hlength
  have hreferences := h.references
  have hrelease : (w.take timer).release = (if references = 1 then
      { w.take timer with
        response := { w.response with numberReferences := references - 1 }, frees := 1 }
      else { w.take timer with response := { w.response with numberReferences := references - 1 } }, false) := by
    have hunfreed : ¬ (w.take timer).frees ≠ 0 := fun hne => hne h.unfreed
    have hnegative : ¬ references - 1 < 0 := by omega
    rw [release, if_neg hunfreed, Handle.removeReference]
    rw [if_neg (by show ¬ w.response.destroyed = false; simp [h.owner])]
    by_cases hlast : references = 1
    · simp [take, h.unfreed, hreferences, h.positive, hlast]
    · rw [if_neg (by show ¬ w.response.numberReferences - 1 = 0; omega), if_neg hlast]
      simp [take, hreferences, h.positive, hnegative]
  have hdef : w.onReplyTimeout timer now off = (w.take timer).release.1 := by
    unfold World.onReplyTimeout
    rw [hrelease]
    rfl
  have hnodup : ((w.timers.filter (·.id ≠ timer.id)).map Timer.id).Nodup :=
    h.nodup.sublist (filter_sublist.map Timer.id)
  rw [hdef, hrelease]
  refine ⟨?_, fun hmore => ?_, fun hlast => ?_⟩
  · split <;> exact hlength.symm
  · rw [if_neg hmore]
    exact { h with nodup := hnodup, references := rfl }
  · rw [if_pos hlast]
    refine ⟨rfl, fun hdrained => ⟨⟨h.positive, h.live, ?_⟩, h.deaf, h.empty, hdrained⟩⟩
    exact (if_pos ⟨h.destroyed, hdrained⟩).symm

theorem Gone.right_iff (h : w.Gone references) : Right w ↔ w.timers ≠ [] := by
  constructor
  · intro hright hnil
    have hfrees := hright.frees
    rw [h.unfreed, if_pos ⟨h.destroyed, hnil⟩] at hfrees
    cases hfrees
  · intro hne
    exact ⟨h.positive, h.live, by rw [h.unfreed, if_neg (fun hboth => hne hboth.2)]⟩

theorem Gone.run (h : w.Gone references) (hle : 1 ≤ references) (htimers : w.timers ≠ [])
    (hafter : ∀ op ∈ after, op.IsLate) (hdrained : (after.foldl step w).timers = []) :
    Along step (fun w op => Right (w.step op)) w after ↔ references = w.timers.length := by
  induction after generalizing w references with
  | nil => exact absurd hdrained htimers
  | cons _ _ ih =>
    rw [forall_mem_cons] at hafter
    rw [foldl_cons] at hdrained
    rw [Along]
    rcases step_of_late h.deaf h.empty hafter.1 with hstep | ⟨timer, hmem, now, off, hstep⟩
    · rw [hstep] at hdrained ⊢
      rw [ih h hle htimers hafter.2 hdrained]
      exact and_iff_right (h.right_iff.mpr htimers)
    · obtain ⟨hlength, hmore, hlast⟩ := h.onReplyTimeout hle hmem now off
      rw [hstep] at hdrained ⊢
      by_cases hone : references = 1
      · obtain ⟨hfrees, hfreed⟩ := hlast hone
        constructor
        · rintro ⟨hright, _⟩
          have hnil : (w.onReplyTimeout timer now off).timers = [] := by
            have := hright.frees
            rw [hfrees] at this
            by_contra hne
            rw [if_neg (fun hboth => hne hboth.2)] at this
            cases this
          rw [hnil, length_nil] at hlength
          omega
        · intro _
          have hnil : (w.onReplyTimeout timer now off).timers = [] := eq_nil_of_length_eq_zero (by omega)
          exact ⟨(hfreed hnil).right, (hfreed hnil).run hafter.2⟩
      · have hgone := hmore hone
        by_cases hnil : (w.onReplyTimeout timer now off).timers = []
        · rw [hnil, length_nil] at hlength
          refine iff_of_false (fun hboth => hgone.right_iff.mp hboth.1 hnil) (by omega)
        · rw [ih hgone (by omega) hnil hafter.2 hdrained]
          rw [and_iff_right (hgone.right_iff.mpr hnil)]
          omega

/-- What the request has come to when its handle is told that it is destroyed. -/
structure Ending (w : World) (now : ℚ) (transport : Bool) (w' : World) : Prop where
  unfreed : w'.frees = 0
  live : w'.fault = false
  nodup : (w'.timers.map Timer.id).Nodup
  empty : w'.queue = []
  outstanding : w'.timers.length = w.outstanding now transport
  references : w'.response.numberReferences = w.response.numberReferences - w.drops (.destroy now transport)
  negative : w.negative = false → 0 ≤ w.response.numberReferences →
    (w'.negative = false ↔ (w.drops (.destroy now transport) : Int) ≤ w.response.numberReferences)

theorem Balanced.stopPending (h : w.Balanced) (now : ℚ) (transport : Bool) :
    w.Ending now transport (w.stopPending now transport) := by
  unfold World.stopPending
  split
  next htransport =>
    split
    next hwaiting =>
      obtain ⟨hstop, hreferences⟩ := h.stopWaitForResponse now
      have hdrops : w.drops (.destroy now transport) = if w.Destroys now then 1 else 0 := by
        simp [World.drops, htransport, hwaiting]
      refine ⟨hstop.balanced.sane.owned.live, hstop.balanced.live, hstop.balanced.nodup,
        (h.sane.stopWaitForResponse now).2, ?_, ?_, fun hpositive hle => ?_⟩
      · rw [World.outstanding, if_pos ⟨htransport, hwaiting⟩]
        rfl
      · rw [hdrops]
        split <;> simp_all
      · rw [hstop.negative hpositive hle, hdrops]
        split <;> simp_all
    next hidle =>
      have hdrops : w.drops (.destroy now transport) = 0 := if_neg fun hall => hidle hall.2.1
      refine ⟨h.sane.owned.live, h.live, h.nodup, h.idle (Bool.eq_false_iff.mpr hidle), ?_, ?_, fun hpositive hle => ?_⟩
      · rw [World.outstanding, if_neg fun hall => hidle hall.2]
      · simp [hdrops]
      · simp [hdrops, hpositive, hle]
  next hnone =>
    have hdrops : w.drops (.destroy now transport) = 0 := if_neg fun hall => hnone hall.1
    refine ⟨h.sane.owned.live, h.live, h.nodup, rfl, ?_, ?_, fun hpositive hle => ?_⟩
    · rw [World.outstanding, if_neg fun hall => hnone hall.1]
    · simp [hdrops]
    · simp [hdrops, hpositive, hle]

theorem Balanced.destroyed_iff (h : w.Balanced) (hpositive : w.negative = false) (hle : 0 ≤ w.response.numberReferences)
    (now : ℚ) (transport : Bool) (hafter : ∀ op ∈ after, op.IsLate)
    (hdrained : (after.foldl World.step (w.step (.destroy now transport))).timers = []) :
    (Right (w.step (.destroy now transport)) ∧
      Along World.step (fun w op => Right (w.step op)) (w.step (.destroy now transport)) after) ↔
      Covered w (.destroy now transport) := by
  obtain ⟨hfrees, hlive, hnodup, hempty, houtstanding, hreferences, hnegative⟩ := h.stopPending now transport
  simp only [World.step, World.destroy, Covered, ← h.references, ← houtstanding] at hdrained ⊢
  generalize w.stopPending now transport = w' at *
  have hunfreed : ¬ w'.frees ≠ 0 := fun hne => hne hfrees
  by_cases hcovered : (w.drops (.destroy now transport) : Int) ≤ w.response.numberReferences
  · have hpositive' := (hnegative hpositive hle).mpr hcovered
    by_cases hzero : w'.response.numberReferences = 0
    · have hdisown : w'.disown = { w' with frees := 1 } := by
        rw [disown, Handle.destroyOwner, if_pos hzero]
        simp [hfrees]
      rw [hdisown]
      by_cases hnil : w'.timers = []
      · have hfreed : Freed { w' with frees := 1, p2pListener := false, msg := false, destroyed := true } :=
          ⟨⟨hpositive', hlive, (if_pos ⟨rfl, hnil⟩).symm⟩, rfl, hempty, hnil⟩
        apply iff_of_true ⟨hfreed.right, hfreed.run hafter⟩
        rw [hnil, length_nil]
        omega
      · refine iff_of_false (fun hboth => ?_) (fun heq => hnil (eq_nil_of_length_eq_zero (by omega)))
        have hfrees := hboth.1.frees
        rw [if_neg (fun hboth => hnil hboth.2)] at hfrees
        cases hfrees
    · have hdisown : w'.disown = { w' with response := { w'.response with destroyed := true } } := by
        rw [disown, if_neg hunfreed, Handle.destroyOwner, if_neg hzero]
        simp
      rw [hdisown] at hdrained ⊢
      have hgone : Gone w'.response.numberReferences { w' with
          response := { w'.response with destroyed := true }, p2pListener := false, msg := false, destroyed := true } :=
        ⟨rfl, rfl, hfrees, rfl, hpositive', hlive, rfl, hempty, hnodup⟩
      by_cases hnil : w'.timers = []
      · refine iff_of_false (fun hboth => hgone.right_iff.mp hboth.1 hnil) (fun heq => ?_)
        rw [hnil, length_nil] at heq
        omega
      · refine (and_iff_right (hgone.right_iff.mpr hnil)).trans ((hgone.run (by omega) hnil hafter hdrained).trans ?_)
        show w'.response.numberReferences = w'.timers.length ↔ _
        omega
  · refine iff_of_false (fun hboth => ?_) (fun hboth => hcovered hboth.1)
    have hkeeps : w'.disown.negative = w'.negative := by
      obtain ⟨_, _, _, heq⟩ := w'.disown_keeps
      rw [heq]
    have hfalse := hboth.1.positive
    exact hcovered ((hnegative hpositive hle).mp (hkeeps ▸ hfalse))

end World

/-- A request is created, used and destroyed, and the ticks that are still to come then do come. The count of its handle
never goes below zero, and the handle is freed once, by the last of them, if and only if no step gives up more
references than there are unanswered requests and timers, and in the end the two are as many as the ticks to come. -/
theorem references_iff (before : List Op) (hbefore : ∀ op ∈ before, op.IsUse) (now : ℚ) (transport : Bool)
    (after : List Op) (hafter : ∀ op ∈ after, op.IsLate)
    (hdrained : ((before ++ .destroy now transport :: after).foldl step {}).timers = []) :
    Along step (fun w op => Right (w.step op)) {} (before ++ .destroy now transport :: after) ↔
      Along step Covered {} (before ++ [.destroy now transport]) := by
  let Good (w : World) : Prop := w.Balanced ∧ w.negative = false ∧ 0 ≤ w.response.numberReferences
  have hinit : Good {} := ⟨⟨sane_init, rfl, nodup_nil, nofun, nofun, rfl, rfl, fun _ => rfl⟩, rfl, Int.le_refl 0⟩
  have hstep : ∀ w, Good w → ∀ op, op.IsUse → Right (w.step op) → Good (w.step op) := by
    intro w hw _ hop hright
    have hdrops := hw.1.step hop
    have hcovered := (hdrops.negative hw.2.1 hw.2.2).mp hright.positive
    exact ⟨hdrops.balanced, hright.positive, by have := hdrops.references; omega⟩
  have hiff : ∀ w, Good w → ∀ op, op.IsUse → (Right (w.step op) ↔ Covered w op) := by
    intro w hw op hop
    have hdrops := hw.1.step hop
    have hbalanced := hdrops.balanced
    have hcovered : Covered w op ↔ (w.drops op : Int) ≤ w.owed + w.live := by
      cases op with
      | destroy => exact absurd hop (fun h => h)
      | _ => exact Iff.rfl
    rw [hcovered, ← hw.1.references, ← hdrops.negative hw.2.1 hw.2.2]
    refine ⟨Right.positive, fun hpositive => ⟨hpositive, hbalanced.live, ?_⟩⟩
    rw [hbalanced.sane.owned.live, if_neg (fun hboth => absurd (hbalanced.undestroyed.symm.trans hboth.1) (by nofun))]
  have huses :=
    Along.congr_on (I := Good) hinit (fun w hw op hop => hiff w hw op (hbefore op hop))
      (fun w hw op hop => hstep w hw op (hbefore op hop))
  rw [along_append, along_append, huses]
  refine and_congr_right fun hall => ?_
  have hgood : Good (before.foldl step {}) := by
    have hrun : Along step (fun w op => op.IsUse ∧ Right (w.step op)) {} before := by
      rw [along_and]
      exact ⟨along_of_forall_mem hbefore, huses.mpr hall⟩
    exact hrun.invariant hinit (fun w op hw hok => hstep w hw op hok.1 hok.2)
  rw [foldl_append] at hdrained
  rw [Along, Along, Along, and_true]
  exact hgood.1.destroyed_iff hgood.2.1 hgood.2.2 now transport hafter hdrained

def answered : List Op :=
  [.sendRequest 0 10 0 false false false, .image true, .stop 1,
    .sendRequest 20 10 1 false false false, .tick 1 30 true, .tick 2 40 false,
    .sendRequest 50 10 0 false false false, .image true]

theorem references_answered :
    ((answered ++ [Op.destroy 60 true, Op.tick 3 61 false]).foldl step {}).frees = 1 ∧
      Along step (fun w op => Right (w.step op)) {} (answered ++ .destroy 60 true :: [.tick 3 61 false]) :=
  ⟨by decide +kernel,
    (references_iff answered (by decide) 60 true [.tick 3 61 false] (by decide) (by decide +kernel)).mpr (by decide +kernel)⟩

theorem not_references_unanswered :
    (([.sendRequest 0 10 0 false false false, .stop 1, .destroy 2 true] : List Op).foldl step {}).frees = 0 ∧
      ¬ Right (([.sendRequest 0 10 0 false false false, .stop 1, .destroy 2 true] : List Op).foldl step {}) ∧
      (([.sendRequest 0 10 0 false false false, .image true, .image true, .stop 10, .destroy 10 true, .tick 0 10 false] :
        List Op).foldl step {}).fault = true ∧
      ¬ Right (([.sendRequest 0 10 0 false false false, .image true, .image true, .stop 10, .destroy 10 true,
        .tick 0 10 false] : List Op).foldl step {}) :=
  ⟨by decide +kernel, fun h => absurd h.frees (by decide +kernel), by decide +kernel,
    fun h => absurd h.live (by decide +kernel)⟩

end OpenMama.ImageRequest
