import OpenMama.MultiParticipant.Manager
import OpenMama.Lib.Run
import Mathlib.Data.List.Count
import Mathlib.Data.List.Nodup

/-!
# Where messages go

`participant` says which participant a message is about, and `Routed` that the messages of a run reached the listeners
of their participants once and that the handlers were told of each participant once and in time. The code does that
but for a message with an empty part id whose symbol names no participant, and unless somebody was added twice.
-/

namespace OpenMama.MultiParticipant

open List Manager Std.TreeMap

variable {H L : Type}

def participant (msg : Msg) : Option String :=
  (msg.symbols.partId.filter (· ≠ "")).or (msg.symbols.name.bind Symbols.afterLastDot)

def Blank (msg : Msg) : Prop :=
  msg.symbols.partId = some "" ∧ msg.symbols.name.isSome ∧ msg.symbols.name.bind Symbols.afterLastDot = none

instance (msg : Msg) : Decidable (Blank msg) := inferInstanceAs (Decidable (_ ∧ _ ∧ _))

def filedUnder (msg : Msg) : Option String := if Blank msg then some "" else participant msg

variable {m : Manager H L} {msg : Msg} {handler : H}

theorem getPartId_eq (msg : Msg) : getPartId msg = filedUnder msg := by
  rcases hid : msg.symbols.partId with _ | id <;> rcases hname : msg.symbols.name with _ | symbol <;>
    simp only [getPartId, filedUnder, participant, Blank, hid, hname]
  · simp
  · cases hdot : Symbols.afterLastDot symbol <;> simp [hdot]
  · by_cases hempty : id = "" <;> simp [hempty, Option.filter_some]
  · by_cases hempty : id = "" <;> cases hdot : Symbols.afterLastDot symbol <;>
      simp [hempty, hdot, Option.filter_some]

namespace Manager

def listeners (m : Manager H L) : Option String → List L
  | none => m.consListeners
  | some partId => (m.partListeners[partId]?).getD []

end Manager

def registeredFor (target : Option String) (regs : List (Registration L)) : List L :=
  (regs.filter fun r => r.partId = target).map Registration.listener

structure Grown (events : List (Event H L)) (regs : List (Registration L)) (m m' : Manager H L) : Prop where
  handlers : m'.handlers = m.handlers
  gotConsolidated : m'.gotConsolidated = m.gotConsolidated
  log : m'.log = m.log ++ events
  listeners : ∀ target, m'.listeners target = m.listeners target ++ registeredFor target regs
  entries : ∀ partId, partId ∈ m'.partListeners ↔
    partId ∈ m.partListeners ∨ ∃ r ∈ regs, r.partId = some partId

namespace Grown

variable {events events' : List (Event H L)} {regs regs' : List (Registration L)} {m m₁ m' : Manager H L}

theorem refl (m : Manager H L) : Grown [] [] m m where
  handlers := rfl
  gotConsolidated := rfl
  log := (append_nil _).symm
  listeners _ := (append_nil _).symm
  entries _ := by simp

theorem trans (h : Grown events regs m m₁) (h' : Grown events' regs' m₁ m') :
    Grown (events ++ events') (regs ++ regs') m m' where
  handlers := h'.handlers.trans h.handlers
  gotConsolidated := h'.gotConsolidated.trans h.gotConsolidated
  log := by rw [h'.log, h.log, append_assoc]
  listeners target := by simp [h'.listeners, h.listeners, registeredFor]
  entries partId := by
    rw [h'.entries, h.entries, or_assoc]
    simp only [mem_append, or_and_right, exists_or]

theorem of_log (m : Manager H L) (events : List (Event H L)) : Grown events [] m { m with log := m.log ++ events } where
  handlers := rfl
  gotConsolidated := rfl
  log := rfl
  listeners _ := (append_nil _).symm
  entries _ := by simp

theorem register (m : Manager H L) (r : Registration L) : Grown [] [r] m (m.register r) := by
  obtain ⟨_, target⟩ := r
  cases target with
  | none =>
    refine ⟨rfl, rfl, (append_nil _).symm, fun target => ?_, fun partId => by simp [Manager.register,
      addConsolidatedListener]⟩
    cases target with
    | none => rfl
    | some _ => exact (append_nil _).symm
  | some p =>
    refine ⟨rfl, rfl, (append_nil _).symm, fun target => ?_, fun partId => ?_⟩
    · cases target with
      | none => exact (append_nil _).symm
      | some partId =>
        simp only [Manager.listeners, Manager.register, addParticipantListener,
          Std.TreeMap.getElem?_insert, Std.LawfulEqCmp.compare_eq_iff_eq, registeredFor]
        by_cases hp : p = partId
        · simp [hp]
        · simp [hp]
    · simp [Manager.register, addParticipantListener, Std.TreeMap.mem_insert, or_comm]

theorem foldl_register (m : Manager H L) (regs : List (Registration L)) :
    Grown [] regs m (regs.foldl Manager.register m) := by
  induction regs generalizing m with
  | nil => exact refl m
  | cons r _ ih => exact (register m r).trans (ih (m.register r))

theorem notify (event : H → Event H L) (reply : H → List (Registration L)) (m : Manager H L) :
    Grown (m.handlers.map event) (m.handlers.flatMap reply) m (m.notify event reply) := by
  unfold Manager.notify
  generalize m.handlers = handlers
  induction handlers generalizing m with
  | nil => exact refl m
  | cons h _ ih =>
    have hcall : Grown [event h] (reply h) m ((reply h).foldl Manager.register { m with log := m.log ++ [event h] }) :=
      (of_log m [event h]).trans (foldl_register _ (reply h))
    exact hcall.trans (ih _)

end Grown

/-! ### What a message does -/

def Msg.IsFullImage (msg : Msg) : Prop := msg.type = .initial ∨ msg.type = .recap

instance (msg : Msg) : Decidable msg.IsFullImage := inferInstanceAs (Decidable (_ ∨ _))

/-- The handlers are told about a message: it is the first under its name, or the first consolidated one that
is a full image or finds no listener. -/
def Manager.Announces (m : Manager H L) (msg : Msg) : Prop :=
  match filedUnder msg with
  | some partId => partId ∉ m.partListeners
  | none => m.gotConsolidated = false ∧ (msg.IsFullImage ∨ m.consListeners = [])

instance (m : Manager H L) (msg : Msg) : Decidable (m.Announces msg) := by
  unfold Manager.Announces
  split <;> infer_instance

def createEvent (msg : Msg) (handler : H) : Event H L :=
  match filedUnder msg with
  | some partId => .participantCreate handler partId
  | none => .consolidatedCreate handler

namespace Manager

variable (m msg) (reply : H → List (Registration L))

def opened : Manager H L :=
  match filedUnder msg with
  | some partId => { m with partListeners := m.partListeners.insertIfNew partId [] }
  | none => { m with gotConsolidated := true }

def replies : List (Registration L) :=
  if m.Announces msg then m.handlers.flatMap reply else []

def heard (target : Option String) : List L :=
  m.listeners target ++ registeredFor target (m.replies msg reply)

def invoked : List (Event H L) :=
  (if m.Announces msg then m.handlers.map (createEvent msg) else []) ++
    (m.heard msg reply (filedUnder msg)).map (.delivered · msg)

theorem listeners_opened : (m.opened msg).listeners = m.listeners := by
  funext target
  unfold opened
  cases filedUnder msg with
  | none => cases target <;> rfl
  | some p =>
    cases target with
    | none => rfl
    | some _ =>
      simp only [listeners, getElem?_insertIfNew, Std.LawfulEqCmp.compare_eq_iff_eq]
      split
      next h =>
        rw [← h.1, getElem?_eq_none h.2]
        rfl
      · rfl

def told : Manager H L :=
  if m.Announces msg then notify (createEvent msg) reply (m.opened msg) else m

variable {m msg reply} {partId : String}

theorem told_of_some (hfiled : filedUnder msg = some partId) :
    m.told msg reply = if partId ∈ m.partListeners then m else m.createPartListAndNotify partId reply := by
  have hevent : createEvent msg = fun h : H => (Event.participantCreate h partId : Event H L) := by
    funext h
    simp only [createEvent, hfiled]
  simp only [told, Announces, opened, hfiled, hevent, createPartListAndNotify, ite_not]

theorem told_of_none (hfiled : filedUnder msg = none) :
    m.told msg reply =
      if msg.IsFullImage ∨ m.consListeners = [] then m.notifyConsolidatedCreate reply else m := by
  have hevent : createEvent msg = (Event.consolidatedCreate : H → Event H L) := by
    funext h
    simp only [createEvent, hfiled]
  simp only [told, Announces, opened, hfiled, hevent, notifyConsolidatedCreate]
  cases m.gotConsolidated <;> simp

theorem mem_told (hfiled : filedUnder msg = some partId) : partId ∈ (m.told msg reply).partListeners := by
  rw [told_of_some hfiled]
  split
  · assumption
  · refine ((Grown.notify _ reply _).entries partId).mpr (.inl ?_)
    exact mem_insertIfNew_self

theorem gotConsolidated_told (hfiled : filedUnder msg = none) (hfull : msg.IsFullImage) :
    (m.told msg reply).gotConsolidated := by
  rw [told_of_none hfiled, if_pos (.inl hfull), notifyConsolidatedCreate]
  split
  · assumption
  · exact (Grown.notify _ reply _).gotConsolidated

theorem handleFullImage_eq (hfull : msg.IsFullImage) : m.handleFullImage msg reply = m.told msg reply := by
  unfold handleFullImage
  rw [getPartId_eq]
  cases hfiled : filedUnder msg with
  | none => rw [told_of_none hfiled, if_pos (.inl hfull)]
  | some _ => rw [told_of_some hfiled]

theorem forwardMsg_eq (hconsolidated : msg.IsFullImage → filedUnder msg = none → m.gotConsolidated) :
    m.forwardMsg msg reply =
      (m.told msg reply).deliver ((m.told msg reply).listeners (filedUnder msg)) msg := by
  unfold forwardMsg
  rw [getPartId_eq]
  cases hfiled : filedUnder msg with
  | some partId =>
    have hmem : partId ∈ (m.told msg reply).partListeners := mem_told hfiled
    obtain ⟨listeners, hentry⟩ := Option.isSome_iff_exists.mp (isSome_getElem?_iff_mem.mpr hmem)
    have hfound : (m.told msg reply).listeners (some partId) = listeners := by
      rw [Manager.listeners, hentry]
      rfl
    rw [hfound]
    rw [told_of_some hfiled] at hentry ⊢
    by_cases hknown : partId ∈ m.partListeners
    · rw [if_pos hknown] at hentry ⊢
      simp only [hentry]
    · rw [if_neg hknown] at hentry ⊢
      simp only [getElem?_eq_none hknown, hentry]
  | none =>
    rw [told_of_none hfiled]
    by_cases hempty : m.consListeners = []
    · simp only [hempty, ne_eq, not_true_eq_false, if_false, or_true, if_true, listeners]
      split
      · rfl
      next hnone => rw [not_not.mp hnone, deliver, map_nil, append_nil]
    · simp only [ne_eq, hempty, not_false_eq_true, if_true, or_false, listeners]
      split
      next hfull => rw [notifyConsolidatedCreate, if_pos (hconsolidated hfull hfiled)]
      · rfl

theorem told_told (hfull : msg.IsFullImage) : (m.told msg reply).told msg reply = m.told msg reply := by
  cases hfiled : filedUnder msg with
  | some _ => rw [told_of_some (m := m.told msg reply) hfiled, if_pos (mem_told hfiled)]
  | none =>
    rw [told_of_none (m := m.told msg reply) hfiled, if_pos (.inl hfull), notifyConsolidatedCreate,
      if_pos (gotConsolidated_told hfiled hfull)]

theorem onMsg_eq (htype : msg.type ≠ .endOfInitials) :
    m.onMsg msg reply = (m.told msg reply).deliver ((m.told msg reply).listeners (filedUnder msg)) msg := by
  by_cases hfull : msg.IsFullImage
  · have honMsg : m.onMsg msg reply = (m.handleFullImage msg reply).forwardMsg msg reply := by
      rcases hfull with h | h <;> simp [onMsg, h]
    rw [honMsg, handleFullImage_eq hfull, forwardMsg_eq fun _ hfiled => gotConsolidated_told hfiled hfull,
      told_told hfull]
  · have honMsg : m.onMsg msg reply = m.forwardMsg msg reply := by
      unfold onMsg
      split
      next h => exact absurd (.inl h) hfull
      next h => exact absurd (.inr h) hfull
      next h => exact absurd h htype
      · rfl
    rw [honMsg, forwardMsg_eq fun h => absurd h hfull]

end Manager

/-- What a message does to a manager. -/
structure Handled (m : Manager H L) (msg : Msg) (reply : H → List (Registration L)) (m' : Manager H L) : Prop where
  handlers : m'.handlers = m.handlers
  log : m'.log = m.log ++ m.invoked msg reply
  listeners : m'.listeners = m.heard msg reply
  gotConsolidated : m'.gotConsolidated = true ↔
    m.gotConsolidated = true ∨ m.Announces msg ∧ filedUnder msg = none
  entries : ∀ partId, partId ∈ m'.partListeners ↔ partId ∈ m.partListeners ∨ filedUnder msg = some partId ∨
    ∃ r ∈ m.replies msg reply, r.partId = some partId

namespace Manager

variable {reply : H → List (Registration L)}

theorem mem_opened (partId : String) :
    partId ∈ (m.opened msg).partListeners ↔ partId ∈ m.partListeners ∨ filedUnder msg = some partId := by
  unfold opened
  cases filedUnder msg with
  | none => simp
  | some p => simp [mem_insertIfNew, or_comm]

theorem gotConsolidated_opened :
    (m.opened msg).gotConsolidated ↔ m.gotConsolidated ∨ filedUnder msg = none := by
  unfold opened
  cases filedUnder msg with
  | none => simp
  | some p => simp

theorem onMsg_endOfInitials (htype : msg.type = .endOfInitials) : m.onMsg msg reply = m := by simp [onMsg, htype]

theorem told_grown :
    Grown (if m.Announces msg then m.handlers.map (createEvent msg) else []) (m.replies msg reply)
      (if m.Announces msg then m.opened msg else m) (m.told msg reply) := by
  rw [replies, told]
  by_cases hannounces : m.Announces msg
  · have hhandlers : (m.opened msg).handlers = m.handlers := by
      unfold opened
      split <;> rfl
    simp only [if_pos hannounces]
    rw [← hhandlers]
    exact .notify (createEvent msg) reply (m.opened msg)
  · simp only [if_neg hannounces]
    exact .refl m

theorem listeners_told : (m.told msg reply).listeners = m.heard msg reply := by
  funext target
  rw [told_grown.listeners, heard]
  split
  · rw [listeners_opened]
  · rfl

theorem onMsg_handled (m : Manager H L) (reply : H → List (Registration L)) (htype : msg.type ≠ .endOfInitials) :
    Handled m msg reply (m.onMsg msg reply) := by
  rw [onMsg_eq htype, listeners_told]
  have hgrown := told_grown.trans
    (.of_log (m.told msg reply) ((m.heard msg reply (filedUnder msg)).map (Event.delivered · msg)))
  rw [append_nil] at hgrown
  by_cases hannounces : m.Announces msg
  · simp only [if_pos hannounces] at hgrown
    refine ⟨hgrown.handlers.trans ?_, hgrown.log.trans ?_, listeners_told, ?_, fun partId => ?_⟩
    · unfold opened
      split <;> rfl
    · rw [invoked, if_pos hannounces]
      unfold opened
      split <;> rfl
    · refine (Eq.congr_left hgrown.gotConsolidated).trans (gotConsolidated_opened.trans ?_)
      rw [and_iff_right hannounces]
    · apply (hgrown.entries partId).trans
      rw [mem_opened, or_assoc]
  · simp only [if_neg hannounces] at hgrown
    refine ⟨hgrown.handlers, hgrown.log.trans ?_, listeners_told, ?_, fun partId => ?_⟩
    · rw [invoked, if_neg hannounces]
    · apply (Eq.congr_left hgrown.gotConsolidated).trans
      simp [hannounces]
    · have hknown : filedUnder msg = some partId → partId ∈ m.partListeners := by
        intro hfiled
        rw [Announces, hfiled] at hannounces
        exact not_not.mp hannounces
      apply (hgrown.entries partId).trans
      rw [← or_assoc, or_iff_left_of_imp hknown]

end Manager

/-! ### Entries -/

/-- Who was announced or delivered to has an entry. -/
structure Known (m : Manager H L) : Prop where
  told : ∀ handler partId, .participantCreate handler partId ∈ m.log → partId ∈ m.partListeners
  consolidated : ∀ handler, .consolidatedCreate handler ∈ m.log → m.gotConsolidated = true
  delivered : ∀ listener msg partId, .delivered listener msg ∈ m.log → filedUnder msg = some partId →
    partId ∈ m.partListeners

theorem mem_invoked_cases {reply : H → List (Registration L)} {e : Event H L} (h : e ∈ m.invoked msg reply) :
    (m.Announces msg ∧ ∃ handler ∈ m.handlers, e = createEvent msg handler) ∨
      ∃ listener, e = .delivered listener msg := by
  rcases mem_append.mp h with hcreate | hdelivered
  · split at hcreate
    next hannounces =>
      obtain ⟨handler, hmem, rfl⟩ := mem_map.mp hcreate
      exact .inl ⟨hannounces, handler, hmem, rfl⟩
    · cases hcreate
  · obtain ⟨listener, -, rfl⟩ := mem_map.mp hdelivered
    exact .inr ⟨listener, rfl⟩

theorem createEvent_eq_participant {handler' : H} {partId : String}
    (h : (createEvent msg handler : Event H L) = .participantCreate handler' partId) :
    filedUnder msg = some partId := by
  unfold createEvent at h
  split at h
  · cases h
    assumption
  · cases h

theorem createEvent_eq_consolidated {handler' : H}
    (h : (createEvent msg handler : Event H L) = .consolidatedCreate handler') : filedUnder msg = none := by
  unfold createEvent at h
  split at h
  · cases h
  · assumption

theorem createEvent_ne_delivered {msg' : Msg} {listener : L} :
    (createEvent msg handler : Event H L) ≠ .delivered listener msg' := by
  unfold createEvent
  split <;> nofun

namespace Known

theorem of_grown {m' : Manager H L} {regs : List (Registration L)} (h : Known m) (hgrown : Grown [] regs m m') :
    Known m' := by
  have hlog : m'.log = m.log := hgrown.log.trans (append_nil _)
  refine ⟨fun handler partId he => ?_, fun handler he => ?_, fun listener msg partId he hfiled => ?_⟩
  · rw [hlog] at he
    exact (hgrown.entries partId).mpr (.inl (h.told handler partId he))
  · rw [hlog] at he
    exact hgrown.gotConsolidated.trans (h.consolidated handler he)
  · rw [hlog] at he
    exact (hgrown.entries partId).mpr (.inl (h.delivered listener msg partId he hfiled))

theorem of_handled {m' : Manager H L} {reply : H → List (Registration L)} (h : Known m)
    (hhandled : Handled m msg reply m') : Known m' := by
  refine ⟨fun handler partId he => ?_, fun handler he => ?_, fun listener msg' partId he hfiled => ?_⟩
  · rw [hhandled.log, mem_append] at he
    apply (hhandled.entries partId).mpr
    rcases he with hold | hnew
    · exact .inl (h.told handler partId hold)
    · rcases mem_invoked_cases hnew with ⟨-, handler', -, heq⟩ | ⟨listener, heq⟩
      · exact .inr (.inl (createEvent_eq_participant heq.symm))
      · cases heq
  · rw [hhandled.log, mem_append] at he
    apply hhandled.gotConsolidated.mpr
    rcases he with hold | hnew
    · exact .inl (h.consolidated handler hold)
    · rcases mem_invoked_cases hnew with ⟨hannounces, handler', -, heq⟩ | ⟨listener, heq⟩
      · exact .inr ⟨hannounces, createEvent_eq_consolidated heq.symm⟩
      · cases heq
  · rw [hhandled.log, mem_append] at he
    apply (hhandled.entries partId).mpr
    rcases he with hold | hnew
    · exact .inl (h.delivered listener msg' partId hold hfiled)
    · rcases mem_invoked_cases hnew with ⟨-, handler', -, heq⟩ | ⟨listener', heq⟩
      · exact absurd heq.symm createEvent_ne_delivered
      · cases heq
        exact .inr (.inl hfiled)

theorem step (h : Known m) (op : Op H L) : Known (m.step op) := by
  cases op with
  | addHandler _ => exact { h with }
  | register r => exact h.of_grown (.register m r)
  | onMsg msg reply =>
    by_cases htype : msg.type = .endOfInitials
    · rw [Manager.step, onMsg_endOfInitials htype]
      exact h
    · exact h.of_handled (onMsg_handled m reply htype)

end Known

theorem Known.createEvent_not_mem (h : Known m) (hannounces : m.Announces msg) (handler : H) :
    createEvent msg handler ∉ m.log := by
  intro hmem
  cases hfiled : filedUnder msg with
  | some partId =>
    rw [Manager.Announces, hfiled] at hannounces
    rw [createEvent, hfiled] at hmem
    exact hannounces (h.told handler partId hmem)
  | none =>
    rw [Manager.Announces, hfiled] at hannounces
    rw [createEvent, hfiled] at hmem
    cases hannounces.1.symm.trans (h.consolidated handler hmem)

theorem exists_log_step (m : Manager H L) (op : Op H L) : ∃ events, (m.step op).log = m.log ++ events := by
  cases op with
  | addHandler _ => exact ⟨[], (append_nil _).symm⟩
  | register r => exact ⟨[], (Grown.register m r).log⟩
  | onMsg msg reply =>
    by_cases htype : msg.type = .endOfInitials
    · exact ⟨[], by rw [step, onMsg_endOfInitials htype, append_nil]⟩
    · exact ⟨_, (onMsg_handled m reply htype).log⟩

/-- The second event does not announce the participant of a message that was delivered by the first. -/
def InTime (first second : Event H L) : Prop :=
  ∀ listener msg, first = .delivered listener msg → ∀ handler partId,
    second = .participantCreate handler partId → participant msg ≠ some partId

theorem participant_of_blank (h : Blank msg) : participant msg = none := by
  rw [participant, h.1, h.2.2]
  rfl

theorem filedUnder_of_participant {partId : String} (h : participant msg = some partId) :
    filedUnder msg = some partId := by
  rw [filedUnder, if_neg]
  · exact h
  · intro hblank
    rw [participant_of_blank hblank] at h
    cases h

theorem inTime_invoked (m : Manager H L) (msg : Msg) (reply : H → List (Registration L)) :
    (m.invoked msg reply).Pairwise InTime := by
  have hcreate : ∀ handler e, InTime (createEvent msg handler : Event H L) e := by
    intro _ e l _ heq
    exact absurd heq createEvent_ne_delivered
  have hdelivered : ∀ (e : Event H L) l, InTime e (.delivered l msg) := by
    intro e l _ _ _ _ _ heq
    cases heq
  refine pairwise_append.mpr ⟨?_, ?_, fun a _ b hb => ?_⟩
  · split
    · exact pairwise_map.mpr (pairwise_of_forall fun _ _ => hcreate _ _)
    · exact .nil
  · exact pairwise_map.mpr (pairwise_of_forall fun _ _ => hdelivered _ _)
  · obtain ⟨l, -, rfl⟩ := mem_map.mp hb
    exact hdelivered a l

theorem inTime_step (h : Known m) (hlog : m.log.Pairwise InTime) (op : Op H L) : (m.step op).log.Pairwise InTime := by
  cases op with
  | addHandler _ => exact hlog
  | register r =>
    rw [step, (Grown.register m r).log, append_nil]
    exact hlog
  | onMsg msg reply =>
    by_cases htype : msg.type = .endOfInitials
    · rw [step, onMsg_endOfInitials htype]
      exact hlog
    · rw [step, (onMsg_handled m reply htype).log]
      refine pairwise_append.mpr ⟨hlog, inTime_invoked m msg reply, ?_⟩
      rintro - hfirst - hsecond listener msg' rfl handler partId rfl hparticipant
      rcases mem_invoked_cases hsecond with ⟨hannounces, handler', -, heq⟩ | ⟨l, heq⟩
      · have hknown := h.delivered listener msg' partId hfirst (filedUnder_of_participant hparticipant)
        rw [Manager.Announces, createEvent_eq_participant heq.symm] at hannounces
        exact hannounces hknown
      · cases heq

theorem inTime_run (h : Known m) (hlog : m.log.Pairwise InTime) (ops : List (Op H L)) :
    (ops.foldl step m).log.Pairwise InTime := by
  induction ops generalizing m with
  | nil => exact hlog
  | cons op _ ih => exact ih (h.step op) (inTime_step h hlog op)

/-! ### Runs -/

variable [DecidableEq H] [DecidableEq L]

def DeliveredOnce (m : Manager H L) : Op H L → Prop
  | .onMsg msg reply => msg.type ≠ .endOfInitials → ∀ listener,
      (((m.onMsg msg reply).log.drop m.log.length).count (.delivered listener msg) =
        if listener ∈ (m.onMsg msg reply).listeners (participant msg) then 1 else 0)
  | _ => True

def Event.IsNotice : Event H L → Prop
  | .delivered _ _ => False
  | _ => True

/-- Messages are routed to their participants, and a handler is told about each of them once and in time. -/
structure Routed (ops : List (Op H L)) : Prop where
  delivered : Along Manager.step DeliveredOnce {} ops
  toldOnce : ∀ e : Event H L, e.IsNotice → (ops.foldl Manager.step {}).log.count e ≤ 1
  inTime : (ops.foldl Manager.step ({} : Manager H L)).log.Pairwise InTime

def TakesListeners (m : Manager H L) : Op H L → Prop
  | .onMsg msg reply => msg.type ≠ .endOfInitials →
      (m.heard msg reply (filedUnder msg)).Nodup ∧
      (Blank msg → ∀ listener, listener ∈ m.heard msg reply (some "") ↔ listener ∈ m.heard msg reply none)
  | _ => True

def TellsHandlers (m : Manager H L) : Op H L → Prop
  | .onMsg msg _ => msg.type ≠ .endOfInitials → m.Announces msg → m.handlers.Nodup
  | _ => True

theorem count_invoked (m : Manager H L) (msg : Msg) (reply : H → List (Registration L)) (listener : L) :
    (m.invoked msg reply).count (.delivered listener msg) =
      (m.heard msg reply (filedUnder msg)).count listener := by
  have hcreate : (.delivered listener msg : Event H L) ∉
      if m.Announces msg then m.handlers.map (createEvent msg) else [] := by
    split
    · rw [mem_map]
      rintro ⟨h, -, heq⟩
      unfold createEvent at heq
      split at heq <;> cases heq
    · exact not_mem_nil
  have hinj : Function.Injective fun l => (.delivered l msg : Event H L) := fun a b hab => by
    cases hab
    rfl
  rw [invoked, count_append, count_eq_zero_of_not_mem hcreate, Nat.zero_add, count_map_of_injective _ _ hinj]

theorem count_eq_ite_iff {l l' : List L} :
    (∀ a, l.count a = if a ∈ l' then 1 else 0) ↔ l.Nodup ∧ ∀ a, a ∈ l ↔ a ∈ l' := by
  constructor
  · intro h
    refine ⟨nodup_iff_count_le_one.mpr fun a => ?_, fun a => ?_⟩
    · rw [h a]
      split <;> simp
    · rw [← count_pos_iff, h a]
      split <;> simp_all
  · rintro ⟨hnodup, hmem⟩ a
    rw [hnodup.count, if_congr (hmem a) rfl rfl]

theorem deliveredOnce_iff (m : Manager H L) (op : Op H L) : DeliveredOnce m op ↔ TakesListeners m op := by
  cases op with
  | addHandler _ => exact Iff.rfl
  | register r => exact Iff.rfl
  | onMsg msg reply =>
    refine forall_congr' fun htype => ?_
    have hhandled := onMsg_handled m reply htype
    rw [hhandled.log, drop_left, hhandled.listeners]
    simp only [count_invoked]
    refine count_eq_ite_iff.trans (and_congr_right fun _ => ?_)
    by_cases hblank : Blank msg
    · rw [participant_of_blank hblank, filedUnder, if_pos hblank]
      exact ⟨fun h _ => h, fun h => h hblank⟩
    · rw [filedUnder, if_neg hblank]
      exact iff_of_true (fun _ => Iff.rfl) fun h => absurd h hblank

theorem count_createEvent (m : Manager H L) (msg : Msg) (reply : H → List (Registration L)) (handler : H) :
    (m.invoked msg reply).count (createEvent msg handler) =
      if m.Announces msg then m.handlers.count handler else 0 := by
  have hdelivered : (createEvent msg handler : Event H L) ∉
      (m.heard msg reply (filedUnder msg)).map (.delivered · msg) := by
    rw [mem_map]
    rintro ⟨l, -, heq⟩
    exact createEvent_ne_delivered heq.symm
  have hinj : Function.Injective (createEvent msg : H → Event H L) := by
    intro a b hab
    unfold createEvent at hab
    split at hab <;> cases hab <;> rfl
  rw [invoked, count_append, count_eq_zero_of_not_mem hdelivered]
  split
  · exact count_map_of_injective _ _ hinj _
  · rfl

def ToldOnce (m : Manager H L) : Prop := ∀ e : Event H L, e.IsNotice → m.log.count e ≤ 1

theorem toldOnce_onMsg_iff (h : Known m) (honce : ToldOnce m) (reply : H → List (Registration L))
    (htype : msg.type ≠ .endOfInitials) :
    ToldOnce (m.onMsg msg reply) ↔ (m.Announces msg → m.handlers.Nodup) := by
  have hlog : ∀ e, (m.onMsg msg reply).log.count e = m.log.count e + (m.invoked msg reply).count e := by
    intro e
    rw [(onMsg_handled m reply htype).log, count_append]
  constructor
  · intro honce' hannounces
    refine nodup_iff_count_le_one.mpr fun handler => ?_
    have hnotice : (createEvent msg handler : Event H L).IsNotice := by
      unfold createEvent
      split <;> trivial
    have hcount := honce' (createEvent msg handler) hnotice
    rw [hlog, count_createEvent, if_pos hannounces] at hcount
    omega
  · intro hnodup e he
    rw [hlog]
    by_cases hmem : e ∈ m.invoked msg reply
    · rcases mem_invoked_cases hmem with ⟨hannounces, handler, -, rfl⟩ | ⟨_, rfl⟩
      · rw [count_eq_zero_of_not_mem (h.createEvent_not_mem hannounces handler), count_createEvent,
          if_pos hannounces, Nat.zero_add]
        exact nodup_iff_count_le_one.mp (hnodup hannounces) handler
      · exact he.elim
    · rw [count_eq_zero_of_not_mem hmem]
      exact honce e he

theorem toldOnce_step_iff (h : Known m) (honce : ToldOnce m) (op : Op H L) :
    ToldOnce (m.step op) ↔ TellsHandlers m op := by
  cases op with
  | addHandler _ => exact iff_of_true honce trivial
  | register r =>
    refine iff_of_true (fun e he => ?_) trivial
    rw [step, (Grown.register m r).log, append_nil]
    exact honce e he
  | onMsg msg reply =>
    by_cases htype : msg.type = .endOfInitials
    · rw [step, onMsg_endOfInitials htype]
      exact iff_of_true honce fun hne => absurd htype hne
    · apply (toldOnce_onMsg_iff h honce reply htype).trans
      exact ⟨fun hnodup _ => hnodup, fun hnodup => hnodup htype⟩

theorem ToldOnce.of_run {ops : List (Op H L)} (h : ToldOnce (ops.foldl step m)) : ToldOnce m := by
  induction ops generalizing m with
  | nil => exact h
  | cons op _ ih =>
    obtain ⟨_, hevents⟩ := exists_log_step m op
    intro e he
    have hstep := ih h e he
    rw [hevents, count_append] at hstep
    omega

theorem toldOnce_run_iff (h : Known m) (honce : ToldOnce m) (ops : List (Op H L)) :
    ToldOnce (ops.foldl step m) ↔ Along step TellsHandlers m ops := by
  induction ops generalizing m with
  | nil => exact iff_of_true honce trivial
  | cons op _ ih =>
    rw [foldl_cons, Along, ← toldOnce_step_iff h honce]
    constructor
    · intro hrun
      have hstep := ToldOnce.of_run hrun
      exact ⟨hstep, (ih (h.step op) hstep).mp hrun⟩
    · rintro ⟨hstep, hrest⟩
      exact (ih (h.step op) hstep).mpr hrest

def Regular (m : Manager H L) (op : Op H L) : Prop := TakesListeners m op ∧ TellsHandlers m op

/-- A run routes its messages exactly when every message of it finds different handlers and listeners, and a
message with an empty part id and no participant finds the consolidated listeners under the empty name. -/
theorem routed_iff (ops : List (Op H L)) : Routed ops ↔ Along Manager.step Regular {} ops := by
  have hknown : Known ({} : Manager H L) := ⟨nofun, nofun, nofun⟩
  have htold := toldOnce_run_iff hknown (fun _ _ => Nat.zero_le 1) ops
  have hdelivered : Along step DeliveredOnce {} ops ↔ Along step TakesListeners {} ops :=
    Along.congr deliveredOnce_iff {} ops
  refine Iff.trans ?_ (along_and _ ops).symm
  constructor
  · intro h
    exact ⟨hdelivered.mp h.delivered, htold.mp h.toldOnce⟩
  · rintro ⟨hlisteners, hhandlers⟩
    exact ⟨hdelivered.mpr hlisteners, htold.mpr hhandlers, inTime_run hknown .nil ops⟩

def imageAndUpdate : List (Op Nat Nat) :=
  [.addHandler 0, .register ⟨1, none⟩,
    .onMsg { type := .initial, symbols := { symbol := some "IBM.N" } } fun _ => [⟨2, some "N"⟩],
    .onMsg { type := .update, symbols := { symbol := some "IBM" } } fun _ => []]

theorem routed_imageAndUpdate : Routed imageAndUpdate := by
  refine (routed_iff imageAndUpdate).mpr ⟨⟨trivial, trivial⟩, ⟨trivial, trivial⟩, ⟨fun _ => ⟨?_, ?_⟩, fun _ _ => ?_⟩,
    ⟨fun _ => ⟨?_, ?_⟩, fun _ _ => ?_⟩, trivial⟩
  · decide +kernel
  · exact fun h => absurd h (by decide +kernel)
  · decide +kernel
  · decide +kernel
  · exact fun h => absurd h (by decide +kernel)
  · decide +kernel

theorem empty_partId_not_routed :
    ¬ Routed ([.register ⟨1, none⟩,
      .onMsg { type := .update, symbols := { symbol := some "IBM", partId := some "" } } fun _ => []] :
        List (Op Nat Nat)) := by
  intro h
  have hcount := h.delivered.2.1 (by decide) 1
  exact absurd hcount (by decide +kernel)

end OpenMama.MultiParticipant
