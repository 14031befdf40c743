import OpenMama.FaultTolerance.Member

/-!
# The state and the timeout timer of a member

A member that was activated waits for heartbeats with its timeout timer unless it is in the state ACTIVE. Deactivating
a member stops its timer and takes its incarnation back, but leaves its state. `kept_iff` says that, a wrap of the
incarnation apart, nothing else goes wrong.
-/

namespace OpenMama.FaultTolerance

namespace FtMember

def Sound (m : FtMember) : Prop :=
  m.isActive → (m.state = .active ↔ m.timeoutTimer = false) ∧ (m.state = .active → 1 ≤ m.incarnation)

instance (m : FtMember) : Decidable m.Sound := inferInstanceAs (Decidable (_ → _))

def Reported (m m' : FtMember) : Prop :=
  m'.callbacks = m.callbacks ++ if m'.state = m.state then [] else [m'.state]

instance (m m' : FtMember) : Decidable (Reported m m') := inferInstanceAs (Decidable (_ = _))

/-- A restart does not find the state ACTIVE, and a timeout that nothing is heard at finds an incarnation
to take. -/
def Renews (m : FtMember) : FtEvent → Prop
  | .activate _ => m.state ≠ .active
  | .timeout pending => m.isActive → m.timeoutTimer → (∀ hb ∈ m.polled pending, ¬ m.Accepts hb) →
      m.nextIncarnation ≠ 0
  | .deactivate | .heartbeat _ | .heartbeatTimer => True

instance (m : FtMember) : (e : FtEvent) → Decidable (m.Renews e)
  | .activate _ => inferInstanceAs (Decidable (_ ≠ _))
  | .timeout _ => inferInstanceAs (Decidable (_ → _))
  | .deactivate | .heartbeat _ | .heartbeatTimer => isTrue trivial

theorem reported_of_eq {m m' : FtMember} (hstate : m'.state = m.state)
    (hcallbacks : m'.callbacks = m.callbacks) : Reported m m' := by
  rw [Reported, if_pos hstate, hcallbacks, List.append_nil]

theorem invokeStateChange_active_reported (m : FtMember) : Reported m (m.invokeStateChange .active) := by
  by_cases hsame : m.state = .active
  · rw [invokeStateChange_same hsame]
    exact reported_of_eq rfl rfl
  · rw [invokeStateChange_active hsame]
    exact congrArg (m.callbacks ++ ·) (if_neg (Ne.symm hsame)).symm

theorem checkHeartbeats_reported (m : FtMember) (hbs : List Heartbeat) : Reported m (m.checkHeartbeats hbs) := by
  by_cases hnone : m.accepted hbs = []
  · rw [checkHeartbeats_of_accepted_eq_nil hnone]
    exact reported_of_eq rfl rfl
  · obtain ⟨_, _, -, heq⟩ := checkHeartbeats_of_accepted_ne_nil hnone
    rw [heq]
    exact congrArg (m.callbacks ++ ·) (if_congr eq_comm rfl rfl)

theorem step_reported (m : FtMember) (e : FtEvent) : Reported m (m.step e) := by
  cases e with
  | activate _ =>
    rw [step, activate]
    split <;> exact reported_of_eq rfl rfl
  | deactivate => exact reported_of_eq rfl rfl
  | heartbeat hb => exact checkHeartbeats_reported m [hb]
  | heartbeatTimer =>
    rw [step]
    split <;> exact reported_of_eq rfl rfl
  | timeout pending =>
    rw [step]
    split
    · by_cases hnone : ∀ hb ∈ m.polled pending, ¬ m.Accepts hb
      · rw [ftTimeoutTimerCb_of_none hnone]
        exact invokeStateChange_active_reported { m with foundheartbeat := 0 }
      · rw [ftTimeoutTimerCb_of_some hnone]
        exact checkHeartbeats_reported { m with foundheartbeat := 0 } (m.polled pending)
    · exact reported_of_eq rfl rfl

theorem Sound.checkHeartbeats {m : FtMember} (h : m.Sound) (hbs : List Heartbeat) : (m.checkHeartbeats hbs).Sound := by
  by_cases hnone : m.accepted hbs = []
  · rw [checkHeartbeats_of_accepted_eq_nil hnone]
    exact h
  · obtain ⟨_, _, -, heq⟩ := checkHeartbeats_of_accepted_ne_nil hnone
    rw [heq]
    intro hactive
    have htimer : (m.timeoutTimer || decide (m.state ≠ .standby)) := by
      by_cases hstate : m.state = .standby
      · have hno : m.state ≠ .active := fun hyes => nomatch hstate.symm.trans hyes
        have harmed : m.timeoutTimer ≠ false := fun hoff => hno ((h hactive).1.mpr hoff)
        rw [Bool.eq_true_of_not_eq_false harmed, Bool.true_or]
      · rw [decide_eq_true hstate, Bool.or_true]
    exact ⟨iff_of_false (show FtState.standby ≠ .active by decide) fun hoff =>
      (nomatch htimer.symm.trans hoff), nofun⟩

theorem Sound.invokeStateChange_active_iff {m : FtMember} (h : m.Sound) (harmed : m.timeoutTimer) :
    (m.invokeStateChange .active).Sound ↔ (m.isActive → m.nextIncarnation ≠ 0) := by
  by_cases hactive : m.isActive
  · have hstate : m.state ≠ .active := fun hyes => nomatch harmed.symm.trans ((h hactive).1.mp hyes)
    have hone : 1 ≤ m.nextIncarnation ↔ m.nextIncarnation ≠ 0 := by
      rw [UInt32.le_iff_toNat_le, ne_eq, ← UInt32.toNat_inj, UInt32.toNat_one, UInt32.toNat_zero]
      omega
    rw [invokeStateChange_active hstate]
    exact ⟨fun hsound _ => hone.mp ((hsound hactive).2 rfl),
      fun hnext _ => ⟨iff_of_true rfl rfl, fun _ => hone.mpr (hnext hactive)⟩⟩
  · refine iff_of_true (fun hyes => absurd ?_ hactive) fun hyes => absurd hyes hactive
    by_cases hstate : m.state = .active
    · rwa [invokeStateChange_same hstate] at hyes
    · rwa [invokeStateChange_active hstate] at hyes

theorem step_sound_iff {m : FtMember} (h : m.Sound) (e : FtEvent) : (m.step e).Sound ↔ m.Renews e := by
  cases e with
  | activate ip =>
    have hstate : (m.activate ip).state = m.state ∧ (m.activate ip).timeoutTimer
        ∧ (m.activate ip).isActive := by
      rw [activate]
      split <;> exact ⟨rfl, rfl, rfl⟩
    rw [step, Sound, Renews, hstate.1, hstate.2.1, hstate.2.2]
    refine ⟨fun hsound hyes => ?_, fun hno _ => ⟨iff_of_false hno (by decide), fun hyes => absurd hyes hno⟩⟩
    cases (hsound rfl).1.mp hyes
  | deactivate => exact iff_of_true nofun trivial
  | heartbeat hb => exact iff_of_true (h.checkHeartbeats [hb]) trivial
  | heartbeatTimer =>
    refine iff_of_true ?_ trivial
    rw [step]
    split
    · exact h
    · exact h
  | timeout pending =>
    rw [step]
    split
    next harmed =>
      by_cases hnone : ∀ hb ∈ m.polled pending, ¬ m.Accepts hb
      · rw [ftTimeoutTimerCb_of_none hnone]
        have hsound : ({ m with foundheartbeat := 0 } : FtMember).Sound := h
        apply (hsound.invokeStateChange_active_iff harmed).trans
        exact ⟨fun hnext hactive _ _ => hnext hactive, fun hrenews hactive => hrenews hactive harmed hnone⟩
      · rw [ftTimeoutTimerCb_of_some hnone]
        have hsound : ({ m with foundheartbeat := 0 } : FtMember).Sound := h
        exact iff_of_true (hsound.checkHeartbeats _) fun _ _ hno => absurd hno hnone
    next harmed => exact iff_of_true h fun _ hyes => absurd hyes harmed

/-- After every event of a run the member is sound and its change of state was reported, exactly when
every restart and every timeout renews. -/
theorem kept_iff (fttype : FtType) (groupName : String) (weight : UInt32) (pid : Int32) (es : List FtEvent) :
    Along step (fun m e => (m.step e).Sound ∧ Reported m (m.step e)) (setup fttype groupName weight pid) es
      ↔ Along step Renews (setup fttype groupName weight pid) es := by
  refine Along.congr_on (I := Sound) nofun ?_ ?_
  · intro m hm e _
    rw [step_sound_iff hm]
    exact and_iff_left (step_reported m e)
  · intro m _ e _ hkept
    exact hkept.1

theorem not_kept_restart : ¬ Along step (fun m e => (m.step e).Sound ∧ Reported m (m.step e))
    (setup .multicast "group" 1 100) [.activate 1, .timeout [], .deactivate, .activate 1] := by
  decide

theorem kept_restart : Along step (fun m e => (m.step e).Sound ∧ Reported m (m.step e))
    (setup .multicast "group" 1 100)
    [.activate 1, .timeout [], .heartbeat ⟨2, 1, 200, 1, "group"⟩, .deactivate, .activate 1, .timeout []] :=
  (kept_iff .multicast "group" 1 100 _).mpr (by decide)

end FtMember

end OpenMama.FaultTolerance
