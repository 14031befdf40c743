import OpenMama.FaultTolerance.Member

/-!
# Failover is sticky

A member that takes over takes an incarnation beyond those it has accepted, so that the members it took over from do
not take it back when they return. The next incarnation after the last number is 0, and a member of the type bridge
that hears heartbeats before it is activated keeps the incarnation it took then: both are excluded by the hypotheses
of `failover_sticky`.
-/

namespace OpenMama.FaultTolerance

open List

def FtEvent.isRestart : FtEvent → Bool
  | .activate _ | .deactivate => true
  | .heartbeat _ | .heartbeatTimer | .timeout _ => false

namespace FtMember

def heartbeats (m : FtMember) : FtEvent → List Heartbeat
  | .heartbeat hb => [hb]
  | .timeout pending => if m.timeoutTimer then m.polled pending else []
  | .activate _ | .deactivate | .heartbeatTimer => []

def meeting (m : FtMember) : FtEvent → FtMember
  | .timeout _ => { m with foundheartbeat := 0 }
  | .activate _ | .deactivate | .heartbeat _ | .heartbeatTimer => m

def heard (m : FtMember) (e : FtEvent) : List Heartbeat := (m.meeting e).accepted (m.heartbeats e)

def Shrugs (i : UInt32) (m : FtMember) (e : FtEvent) : Prop :=
  ∀ before hb after, m.heartbeats e = before ++ hb :: after → hb.weight = m.weight → hb.incarnation ≤ i →
    ((m.meeting e).checkHeartbeats (before ++ [hb])).state = ((m.meeting e).checkHeartbeats before).state

/-- The incarnation never decreases, and a member that becomes ACTIVE has one beyond each that it accepted of its own
weight, whose heartbeats do not change its state from then on. `known` are those accepted before. -/
def Sticky (known : List UInt32) : FtMember → List FtEvent → Prop
  | _, [] => True
  | m, e :: es =>
    m.incarnation ≤ (m.step e).incarnation
      ∧ (m.state ≠ .active → (m.step e).state = .active →
        ∀ i ∈ known, i < (m.step e).incarnation ∧ Along step (Shrugs i) (m.step e) es)
      ∧ Sticky (known ++ ((m.heard e).filter (·.weight = m.weight)).map Heartbeat.incarnation) (m.step e) es

def Counts (m : FtMember) (e : FtEvent) : Prop := ∀ hb ∈ m.heard e, hb.incarnation ≠ 4294967295

instance (m : FtMember) (e : FtEvent) : Decidable (m.Counts e) :=
  inferInstanceAs (Decidable (∀ hb ∈ m.heard e, _))

/-! ### The incarnation to come -/

variable {i : UInt32} {m : FtMember} {e : FtEvent} {known : List UInt32}

theorem lt_succ_of_ne_last (h : i ≠ 4294967295) : i < i + 1 := by
  have hne : i.toNat ≠ 4294967295 := fun heq => h (UInt32.toNat_inj.mp heq)
  have hlt := i.toNat_lt
  rw [UInt32.lt_iff_toNat_lt, UInt32.toNat_add, UInt32.toNat_one]
  omega

theorem mamaCheckHeartbeat_nextIncarnation {hb : Heartbeat} (h : m.Accepts hb) (hlast : hb.incarnation ≠ 4294967295) :
    m.nextIncarnation ≤ (m.mamaCheckHeartbeat hb).nextIncarnation
      ∧ hb.incarnation < (m.mamaCheckHeartbeat hb).nextIncarnation := by
  rw [mamaCheckHeartbeat_of_accepts h]
  split
  next hnext =>
    have hlt := lt_succ_of_ne_last hlast
    exact ⟨UInt32.le_of_lt (UInt32.lt_of_le_of_lt hnext hlt), hlt⟩
  next hnext => exact ⟨UInt32.le_refl _, UInt32.not_le.mp hnext⟩

theorem checkHeartbeats_nextIncarnation {hbs : List Heartbeat}
    (h : ∀ hb ∈ m.accepted hbs, hb.incarnation ≠ 4294967295) :
    m.nextIncarnation ≤ (m.checkHeartbeats hbs).nextIncarnation
      ∧ ∀ hb ∈ m.accepted hbs, hb.incarnation < (m.checkHeartbeats hbs).nextIncarnation := by
  induction hbs generalizing m with
  | nil => exact ⟨UInt32.le_refl _, nofun⟩
  | cons hb _ ih =>
    rw [checkHeartbeats, foldl_cons]
    by_cases hacc : m.Accepts hb
    · rw [accepted_cons_of_accepts hacc] at h ⊢
      obtain ⟨hfirst, hrest⟩ := forall_mem_cons.mp h
      obtain ⟨hle, hlt⟩ := mamaCheckHeartbeat_nextIncarnation hacc hfirst
      obtain ⟨hle', hlt'⟩ := ih hrest
      exact ⟨UInt32.le_trans hle hle', forall_mem_cons.mpr ⟨UInt32.lt_of_lt_of_le hlt hle', hlt'⟩⟩
    · rw [accepted_cons_of_not hacc] at h ⊢
      rw [mamaCheckHeartbeat_of_not_accepts hacc]
      exact ih h

theorem checkHeartbeats_frame (m : FtMember) (hbs : List Heartbeat) :
    (m.checkHeartbeats hbs).incarnation = m.incarnation ∧ (m.checkHeartbeats hbs).weight = m.weight
      ∧ ((m.checkHeartbeats hbs).state = m.state ∨ (m.checkHeartbeats hbs).state = .standby) := by
  by_cases hnone : m.accepted hbs = []
  · rw [checkHeartbeats_of_accepted_eq_nil hnone]
    exact ⟨rfl, rfl, .inl rfl⟩
  · obtain ⟨_, _, -, heq⟩ := checkHeartbeats_of_accepted_ne_nil hnone
    rw [heq]
    exact ⟨rfl, rfl, .inr rfl⟩

/-- What a step does to the incarnation of a member. -/
structure Moves (m m' : FtMember) (heard : List Heartbeat) : Prop where
  weight : m'.weight = m.weight
  next : m.nextIncarnation ≤ m'.nextIncarnation
  heard : ∀ hb ∈ heard, hb.incarnation < m'.nextIncarnation
  incarnation : m'.incarnation = m.incarnation ∨ m'.incarnation = m.nextIncarnation
  becomes : m.state ≠ .active → m'.state = .active → m'.incarnation = m.nextIncarnation

theorem moves_checkHeartbeats {hbs : List Heartbeat} (h : ∀ hb ∈ m.accepted hbs, hb.incarnation ≠ 4294967295) :
    Moves m (m.checkHeartbeats hbs) (m.accepted hbs) := by
  obtain ⟨hnext, hheard⟩ := checkHeartbeats_nextIncarnation h
  obtain ⟨hincarnation, hweight, hstate⟩ := checkHeartbeats_frame m hbs
  refine ⟨hweight, hnext, hheard, .inl hincarnation, fun hno hyes => ?_⟩
  rcases hstate with hsame | hstandby
  · exact absurd (hsame.symm.trans hyes) hno
  · cases hstandby.symm.trans hyes

theorem moves_self (m : FtMember) : Moves m m [] :=
  ⟨rfl, UInt32.le_refl _, nofun, .inl rfl,
    fun hno hyes => absurd hyes hno⟩

theorem moves_invokeStateChange_active (m : FtMember) : Moves m (m.invokeStateChange .active) [] := by
  by_cases hstate : m.state = .active
  · rw [invokeStateChange_same hstate]
    exact moves_self m
  · rw [invokeStateChange_active hstate]
    exact ⟨rfl, UInt32.le_refl _, nofun, .inr rfl, fun _ _ => rfl⟩

theorem moves_step (he : e.isRestart = false) (h : m.Counts e) : Moves m (m.step e) (m.heard e) := by
  cases e with
  | activate _ => cases he
  | deactivate => cases he
  | heartbeat _ => exact moves_checkHeartbeats h
  | heartbeatTimer =>
    have hsame := moves_self m
    rw [step]
    split
    · exact { hsame with }
    · exact hsame
  | timeout pending =>
    by_cases harmed : m.timeoutTimer
    · have hheard : m.heard (.timeout pending) = { m with foundheartbeat := 0 }.accepted (m.polled pending) := by
        rw [heard, heartbeats, if_pos harmed]
        rfl
      rw [Counts, hheard] at h
      rw [hheard, step, if_pos harmed]
      by_cases hnone : ∀ hb ∈ m.polled pending, ¬ m.Accepts hb
      · have hnil : { m with foundheartbeat := 0 }.accepted (m.polled pending) = [] := accepted_eq_nil_iff.mpr hnone
        rw [ftTimeoutTimerCb_of_none hnone, hnil]
        have hmoves := moves_invokeStateChange_active { m with foundheartbeat := 0 }
        exact { hmoves with }
      · rw [ftTimeoutTimerCb_of_some hnone]
        have hmoves := moves_checkHeartbeats h
        exact { hmoves with }
    · have hheard : m.heard (.timeout pending) = [] := by
        rw [heard, heartbeats, if_neg harmed]
        rfl
      rw [hheard, step, if_neg harmed]
      exact moves_self m

/-- The incarnation to come is beyond all that were accepted, and not before the one the member has. -/
structure Ahead (known : List UInt32) (m : FtMember) : Prop where
  known : ∀ i ∈ known, i < m.nextIncarnation
  incarnation : m.incarnation ≤ m.nextIncarnation

theorem Ahead.step (h : Ahead known m) (hmoves : Moves m (m.step e) (m.heard e)) :
    Ahead (known ++ ((m.heard e).filter (·.weight = m.weight)).map Heartbeat.incarnation) (m.step e) := by
  refine ⟨fun i hi => ?_, ?_⟩
  · rcases mem_append.mp hi with hold | hnew
    · exact UInt32.lt_of_lt_of_le (h.known i hold) hmoves.next
    · obtain ⟨hb, hmem, rfl⟩ := mem_map.mp hnew
      exact hmoves.heard hb (mem_filter.mp hmem).1
  · rcases hmoves.incarnation with hsame | hnext
    · rw [hsame]
      exact UInt32.le_trans h.incarnation hmoves.next
    · rw [hnext]
      exact hmoves.next

theorem Ahead.incarnation_le (h : Ahead known m) (hmoves : Moves m (m.step e) (m.heard e)) :
    m.incarnation ≤ (m.step e).incarnation := by
  rcases hmoves.incarnation with hsame | hnext
  · rw [hsame]
    exact UInt32.le_refl _
  · rw [hnext]
    exact h.incarnation

theorem not_accepts_of_incarnation_lt {hb : Heartbeat} (hweight : hb.weight = m.weight)
    (h : hb.incarnation < m.incarnation) : ¬ m.Accepts hb := by
  rintro ⟨-, -, hbetter⟩
  have hworse : hb.credentials < m.credentials := by
    rw [Heartbeat.credentials, credentials, Heartbeat.credentials, Prod.Lex.toLex_lt_toLex]
    refine .inr ⟨congrArg UInt32.toNat hweight, ?_⟩
    rw [Prod.Lex.toLex_lt_toLex]
    exact .inl (UInt32.lt_iff_toNat_lt.mp h)
  exact lt_asymm hbetter hworse

theorem shrugs_of_lt (h : i < m.incarnation) (e : FtEvent) : Shrugs i m e := by
  intro before hb _ _ hweight hle
  have hmeeting : (m.meeting e).incarnation = m.incarnation ∧ (m.meeting e).weight = m.weight := by
    cases e <;> exact ⟨rfl, rfl⟩
  obtain ⟨hincarnation, hsame, -⟩ := checkHeartbeats_frame (m.meeting e) before
  have hno : ¬ ((m.meeting e).checkHeartbeats before).Accepts hb := by
    refine not_accepts_of_incarnation_lt (hweight.trans ?_) ?_
    · rw [hsame, hmeeting.2]
    · rw [hincarnation, hmeeting.1]
      exact UInt32.lt_of_le_of_lt hle h
  rw [checkHeartbeats, foldl_append]
  exact congrArg FtMember.state (mamaCheckHeartbeat_of_not_accepts hno)

theorem along_shrugs {es : List FtEvent} (h : Ahead known m) (hi : i < m.incarnation)
    (hes : ∀ e ∈ es, e.isRestart = false) (hcounts : Along step Counts m es) : Along step (Shrugs i) m es := by
  induction es generalizing m known with
  | nil => trivial
  | cons e _ ih =>
    obtain ⟨hfirst, hrest⟩ := forall_mem_cons.mp hes
    have hmoves := moves_step hfirst hcounts.1
    exact ⟨shrugs_of_lt hi e, ih (h.step hmoves) (UInt32.lt_of_lt_of_le hi (h.incarnation_le hmoves)) hrest hcounts.2⟩

theorem Ahead.sticky {es : List FtEvent} (h : Ahead known m) (hes : ∀ e ∈ es, e.isRestart = false)
    (hcounts : Along FtMember.step Counts m es) :
    Sticky known m es := by
  induction es generalizing m known with
  | nil => trivial
  | cons e _ ih =>
    obtain ⟨hfirst, hrest⟩ := forall_mem_cons.mp hes
    have hmoves := moves_step hfirst hcounts.1
    have hahead := h.step hmoves
    refine ⟨h.incarnation_le hmoves, fun hno hyes i hi => ?_, ih hahead hrest hcounts.2⟩
    have hlt : i < (m.step e).incarnation := by
      rw [hmoves.becomes hno hyes]
      exact h.known i hi
    exact ⟨hlt, along_shrugs hahead hlt hrest hcounts.2⟩

/-- Failover is sticky from an activation to what ends it, for a member that did not take an incarnation
before it was activated, and as long as no accepted heartbeat carries the last incarnation there is. -/
theorem failover_sticky (m : FtMember) (ip : Int32) (hm : m.isActive ∨ m.incarnation ≤ 1) (es : List FtEvent)
    (hes : ∀ e ∈ es, e.isRestart = false) (hcounts : Along step Counts (m.activate ip) es) :
    Sticky [] (m.activate ip) es := by
  refine Ahead.sticky ⟨fun i hi => (nomatch hi), ?_⟩ hes hcounts
  rw [activate]
  split
  · exact show (0 : UInt32) ≤ 1 by decide
  next hactive => exact hm.resolve_left hactive

theorem not_sticky_last : ¬ Sticky [] ((setup .multicast "group" 1 100).activate 1)
    [.heartbeat ⟨1, 4294967295, 200, 1, "group"⟩, .timeout []] := by
  rintro ⟨-, -, -, hbecomes, -⟩
  have hlt := (hbecomes (by decide) (by decide) 4294967295 (by decide)).1
  cases hlt

theorem sticky_takeover : Sticky [] ((setup .multicast "group" 1 100).activate 1)
    [.heartbeat ⟨1, 3, 200, 1, "group"⟩, .timeout [], .heartbeat ⟨1, 3, 200, 1, "group"⟩] :=
  failover_sticky (setup .multicast "group" 1 100) 1 (.inr (by decide)) _ (by decide) (by decide)

end FtMember

end OpenMama.FaultTolerance
