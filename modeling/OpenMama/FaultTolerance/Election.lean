import Mathlib.Data.Fintype.EquivFin
import Mathlib.Data.Fintype.Lattice
import OpenMama.FaultTolerance.Member

/-!
# The election

The members of a group and the heartbeats on their way. A heartbeat may be delivered to any member, at any time and
any number of times. When every member has heard every other one, `elected` says that the one of the best credentials
is the only one left in the state ACTIVE.
-/

namespace OpenMama.FaultTolerance

open FtMember List Function

/-- The members, and the heartbeats on their way. -/
structure System (ι : Type) where
  members : ι → FtMember
  network : List Heartbeat

variable {ι : Type}

def Exchange (s : System ι) (a : ι × FtEvent) : Prop :=
  match a.2 with
  | .heartbeat hb => hb ∈ s.network
  | .heartbeatTimer => True
  | .activate _ | .deactivate | .timeout _ => False

instance (s : System ι) : (a : ι × FtEvent) → Decidable (Exchange s a)
  | (_, .heartbeat hb) => inferInstanceAs (Decidable (hb ∈ s.network))
  | (_, .heartbeatTimer) => isTrue trivial
  | (_, .activate _) | (_, .deactivate) | (_, .timeout _) => isFalse id

variable {s : System ι} {a : ι × FtEvent} {m m' : FtMember} {s' : System ι} {group : String} {i : ι}
  {acts : List (ι × FtEvent)}

theorem Exchange.event (h : Exchange s a) : (∃ hb, a.2 = .heartbeat hb) ∨ a.2 = .heartbeatTimer := by
  obtain ⟨i, e⟩ := a
  cases e with
  | heartbeat hb => exact .inl ⟨hb, rfl⟩
  | heartbeatTimer => exact .inr rfl
  | activate | deactivate | timeout => exact h.elim

variable [DecidableEq ι]

def System.act (s : System ι) (a : ι × FtEvent) : System ι where
  members := update s.members a.1 ((s.members a.1).step a.2)
  network := s.network ++ ((s.members a.1).step a.2).sent.drop (s.members a.1).sent.length

structure Stands (m m' : FtMember) : Prop where
  heartbeat : m'.heartbeat = m.heartbeat
  state : m'.state = .active ∨ m'.state = .standby

/-- The members are as they were but for their states, and all heartbeats are theirs. -/
structure Standing (s s' : System ι) (group : String) : Prop where
  members : ∀ i, Stands (s.members i) (s'.members i)
  network : ∀ hb ∈ s'.network, hb.groupName = group → ∃ i, hb = (s.members i).heartbeat

theorem Stands.credentials (h : Stands m m') : m'.credentials = m.credentials :=
  congrArg Heartbeat.credentials h.heartbeat

theorem Stands.checkHeartbeat (h : Stands m m') (hb : Heartbeat) : Stands m (m'.mamaCheckHeartbeat hb) := by
  by_cases hacc : m'.Accepts hb
  · rw [mamaCheckHeartbeat_of_accepts hacc]
    exact ⟨h.heartbeat, .inr rfl⟩
  · rwa [mamaCheckHeartbeat_of_not_accepts hacc]

theorem mamaCheckHeartbeat_sent (m : FtMember) (hb : Heartbeat) : (m.mamaCheckHeartbeat hb).sent = m.sent := by
  by_cases hacc : m.Accepts hb
  · rw [mamaCheckHeartbeat_of_accepts hacc]
  · rw [mamaCheckHeartbeat_of_not_accepts hacc]

theorem Standing.act (h : Standing s s' group) (ha : Exchange s' a) : Standing s (s'.act a) group := by
  obtain ⟨i, e⟩ := a
  have hstands {m : FtMember} (hm : Stands (s.members i) m) (j : ι) :
      Stands (s.members j) (update s'.members i m j) := by
    by_cases hij : j = i
    · subst hij
      rwa [update_self]
    · rw [update_of_ne hij]
      exact h.members j
  cases e with
  | activate | deactivate | timeout => exact ha.elim
  | heartbeat hb =>
    refine ⟨hstands ((h.members i).checkHeartbeat hb), fun hb' hmem => ?_⟩
    have hsent : ((s'.members i).step (.heartbeat hb)).sent = (s'.members i).sent := mamaCheckHeartbeat_sent _ hb
    rw [System.act, hsent, drop_length, append_nil] at hmem
    exact h.network hb' hmem
  | heartbeatTimer =>
    by_cases htimer : (s'.members i).heartbeatTimer
    · have hstep : (s'.members i).step .heartbeatTimer = (s'.members i).ftHeartbeatTimerCb := if_pos htimer
      rw [System.act, hstep]
      refine ⟨hstands ⟨(h.members i).heartbeat, (h.members i).state⟩, fun hb hmem hgroup => ?_⟩
      have hsent : (s'.members i).ftHeartbeatTimerCb.sent.drop (s'.members i).sent.length
          = [(s'.members i).heartbeat] := drop_left
      rw [hsent] at hmem
      rcases mem_append.mp hmem with hold | hnew
      · exact h.network hb hold hgroup
      · exact ⟨i, (mem_singleton.mp hnew).trans (h.members i).heartbeat⟩
    · have hstep : (s'.members i).step .heartbeatTimer = s'.members i := if_neg htimer
      rw [System.act, hstep, drop_length, append_nil]
      exact ⟨hstands (h.members i), h.network⟩

/-! ### Stepping down -/

theorem act_members_of_ne (h : i ≠ a.1) : (s.act a).members i = s.members i := update_of_ne h _ _

theorem act_members_self (s : System ι) (i : ι) (e : FtEvent) :
    (s.act (i, e)).members i = (s.members i).step e := update_self _ _ _

theorem step_standby (h : m.state = .standby) {e : FtEvent} (he : (∃ hb, e = .heartbeat hb) ∨ e = .heartbeatTimer) :
    (m.step e).state = .standby := by
  rcases he with ⟨hb, rfl⟩ | rfl
  · by_cases hacc : m.Accepts hb
    · rw [step, mamaCheckHeartbeat_of_accepts hacc]
    · rw [step, mamaCheckHeartbeat_of_not_accepts hacc, h]
  · rw [step]
    split
    · exact h
    · exact h

theorem standby_run (hacts : Along System.act Exchange s acts) (h : (s.members i).state = .standby) :
    ((acts.foldl System.act s).members i).state = .standby := by
  refine hacts.invariant (I := fun s => (s.members i).state = .standby) h fun s a h hexchange => ?_
  by_cases hi : i = a.1
  · subst hi
    rw [act_members_self]
    exact step_standby h hexchange.event
  · rwa [act_members_of_ne hi]

theorem standby_of_delivered {j : ι} (hgroup : ∀ i, (s.members i).groupName = group)
    (hne : ¬ ((s.members j).pid = (s.members i).pid ∧ (s.members j).ip = (s.members i).ip))
    (hbetter : (s.members i).credentials < (s.members j).credentials) (hs : Standing s s' group)
    (hacts : Along System.act Exchange s' acts) (hmem : (i, FtEvent.heartbeat (s.members j).heartbeat) ∈ acts) :
    ((acts.foldl System.act s').members i).state = .standby := by
  induction acts generalizing s' with
  | nil => cases hmem
  | cons a _ ih =>
    rcases mem_cons.mp hmem with rfl | hmem
    · rw [foldl_cons]
      apply standby_run hacts.2
      have hstands := hs.members i
      have hsame : (s'.members i).pid = (s.members i).pid ∧ (s'.members i).ip = (s.members i).ip
          ∧ (s'.members i).groupName = (s.members i).groupName :=
        ⟨congrArg Heartbeat.pid hstands.heartbeat, congrArg Heartbeat.ipAddr hstands.heartbeat,
          congrArg Heartbeat.groupName hstands.heartbeat⟩
      have hacc : (s'.members i).Accepts (s.members j).heartbeat := by
        refine ⟨?_, ?_, ?_⟩
        · rw [hsame.2.2, hgroup i]
          exact hgroup j
        · rw [hsame.1, hsame.2.1]
          exact hne
        · rw [hstands.credentials]
          exact hbetter
      rw [act_members_self, step, mamaCheckHeartbeat_of_accepts hacc]
    · exact ih (hs.act hacts.1) hacts.2 hmem

omit [DecidableEq ι] in
theorem Standing.not_accepts {hb : Heartbeat} (hs : Standing s s' group) (hgroup : ∀ i, (s.members i).groupName = group)
    (hbest : ∀ j, (s.members j).credentials ≤ (s.members i).credentials) (hmem : hb ∈ s'.network) :
    ¬ (s'.members i).Accepts hb := by
  have hstands := hs.members i
  rintro ⟨hhb, -, hbetter⟩
  have hname : (s'.members i).groupName = group := (congrArg Heartbeat.groupName hstands.heartbeat).trans (hgroup i)
  obtain ⟨j, rfl⟩ := hs.network hb hmem (hhb.trans hname)
  rw [hstands.credentials] at hbetter
  exact absurd (hbest j) (not_le.mpr hbetter)

theorem best_run (hgroup : ∀ i, (s.members i).groupName = group)
    (hbest : ∀ j, (s.members j).credentials ≤ (s.members i).credentials) (hs : Standing s s' group)
    (hacts : Along System.act Exchange s' acts) :
    ((acts.foldl System.act s').members i).state = (s'.members i).state ∧
      ((acts.foldl System.act s').members i).timeoutTimer = (s'.members i).timeoutTimer := by
  induction acts generalizing s' with
  | nil => exact ⟨rfl, rfl⟩
  | cons a _ ih =>
    obtain ⟨hstate, htimer⟩ := ih (hs.act hacts.1) hacts.2
    have hone : ((s'.act a).members i).state = (s'.members i).state ∧
        ((s'.act a).members i).timeoutTimer = (s'.members i).timeoutTimer := by
      by_cases hi : i = a.1
      · subst hi
        rw [act_members_self]
        rcases hacts.1.event with ⟨hb, he⟩ | he
        · have hexchange := hacts.1
          rw [Exchange, he] at hexchange
          rw [he, step, mamaCheckHeartbeat_of_not_accepts (hs.not_accepts hgroup hbest hexchange)]
          exact ⟨rfl, rfl⟩
        · rw [he, step]
          split <;> exact ⟨rfl, rfl⟩
      · rw [act_members_of_ne hi]
        exact ⟨rfl, rfl⟩
    exact ⟨hstate.trans hone.1, htimer.trans hone.2⟩

theorem active_run (hgroup : ∀ i, (s.members i).groupName = group)
    (hbest : ∀ j, (s.members j).credentials ≤ (s.members i).credentials) (hs : Standing s s' group)
    (hacts : Along System.act Exchange s' acts) (hactive : (s'.members i).state = .active) :
    ((acts.foldl System.act s').members i).state = .active :=
  (best_run hgroup hbest hs hacts).1.trans hactive

theorem credentials_injective (h : m.credentials = m'.credentials) : m.pid = m'.pid ∧ m.ip = m'.ip := by
  have hlex := congrArg (fun c : Credentials => (ofLex (ofLex (ofLex c).2).2)) h
  exact ⟨Int32.toInt_inj.mp (congrArg Prod.snd hlex), Int32.toInt_inj.mp (congrArg Prod.fst hlex)⟩

/-- When each of finitely many ACTIVE members has heard each other one, the one of the best credentials alone is ACTIVE.
Heartbeats of other groups and the member's own change nothing. -/
theorem elected [Finite ι] [Nonempty ι] (s : System ι) (group : String) (hgroup : ∀ i, (s.members i).groupName = group)
    (hactive : ∀ i, (s.members i).isActive ∧ (s.members i).state = .active)
    (hdistinct : ∀ i j, (s.members i).ip = (s.members j).ip → (s.members i).pid = (s.members j).pid → i = j)
    (hnetwork : ∀ hb ∈ s.network, hb.groupName = group → ∃ i, hb = (s.members i).heartbeat)
    (acts : List (ι × FtEvent)) (hacts : Along System.act Exchange s acts)
    (hall : ∀ i j, i ≠ j → (i, FtEvent.heartbeat (s.members j).heartbeat) ∈ acts) :
    (∃! i, ((acts.foldl System.act s).members i).state = .active)
      ∧ (∀ i, ((acts.foldl System.act s).members i).state = .active
        ↔ ∀ j, (s.members j).credentials ≤ (s.members i).credentials)
      ∧ ∀ (m : FtMember) (hb : Heartbeat),
        hb.groupName ≠ m.groupName ∨ (hb.pid = m.pid ∧ hb.ipAddr = m.ip) → m.mamaCheckHeartbeat hb = m := by
  have hstart : Standing s s group := ⟨fun i => ⟨rfl, .inl (hactive i).2⟩, hnetwork⟩
  have hiff (i : ι) : ((acts.foldl System.act s).members i).state = .active
      ↔ ∀ j, (s.members j).credentials ≤ (s.members i).credentials := by
    refine ⟨fun hi j => ?_, fun hbest => active_run hgroup hbest hstart hacts (hactive i).2⟩
    by_contra hlt
    have hbetter := not_le.mp hlt
    have hne : i ≠ j := by
      rintro rfl
      exact lt_irrefl _ hbetter
    have hother : ¬ ((s.members j).pid = (s.members i).pid ∧ (s.members j).ip = (s.members i).ip) :=
      fun hsame => hne (hdistinct i j hsame.2.symm hsame.1.symm)
    have hstandby := standby_of_delivered hgroup hother hbetter hstart hacts (hall i j hne)
    cases hstandby.symm.trans hi
  refine ⟨?_, hiff, fun m hb hno => mamaCheckHeartbeat_of_not_accepts fun hacc => ?_⟩
  · obtain ⟨best, hbest⟩ := Finite.exists_max fun i => (s.members i).credentials
    refine ⟨best, (hiff best).mpr hbest, fun i hi => ?_⟩
    have hsame := le_antisymm (hbest i) ((hiff i).mp hi best)
    obtain ⟨hpid, hip⟩ := credentials_injective hsame
    exact hdistinct i best hip hpid
  · rcases hno with hname | hown
    · exact hname hacc.1
    · exact hacc.2.1 hown

def three : System (Fin 3) where
  members
    | 0 => { setup .bridge "group" 1 100 with ip := 5, incarnation := 2, isActive := true, state := .active }
    | 1 => { setup .bridge "group" 2 100 with ip := 7, incarnation := 1, isActive := true, state := .active }
    | 2 => { setup .bridge "group" 2 100 with ip := -7, incarnation := 1, isActive := true, state := .active }
  network := [⟨1, 2, 100, 5, "group"⟩, ⟨2, 1, 100, 7, "group"⟩, ⟨2, 1, 100, -7, "group"⟩]

def crossing : List (Fin 3 × FtEvent) :=
  [(0, .heartbeat ⟨2, 1, 100, -7, "group"⟩), (2, .heartbeat ⟨2, 1, 100, 7, "group"⟩),
   (1, .heartbeat ⟨2, 1, 100, -7, "group"⟩), (2, .heartbeat ⟨1, 2, 100, 5, "group"⟩),
   (0, .heartbeat ⟨2, 1, 100, 7, "group"⟩), (1, .heartbeat ⟨1, 2, 100, 5, "group"⟩)]

theorem elected_three : ∃! i, ((crossing.foldl System.act three).members i).state = .active :=
  (elected three "group" (by decide) (by decide) (by decide) (by decide) crossing (by decide) (by decide)).1

/-- Whichever members are ACTIVE and whichever stand by: when each has heard each other one, the next timeout of the
best one leaves it as the only one that is ACTIVE. -/
theorem converges (s : System ι) (group : String) (hgroup : ∀ i, (s.members i).groupName = group)
    (hstate : ∀ i, (s.members i).state = .active ∨ (s.members i).state = .standby ∧ (s.members i).timeoutTimer)
    (hdistinct : ∀ i j, (s.members i).ip = (s.members j).ip → (s.members i).pid = (s.members j).pid → i = j)
    (hnetwork : ∀ hb ∈ s.network, hb.groupName = group → ∃ i, hb = (s.members i).heartbeat)
    (acts : List (ι × FtEvent)) (hacts : Along System.act Exchange s acts)
    (hall : ∀ i j, i ≠ j → (i, FtEvent.heartbeat (s.members j).heartbeat) ∈ acts)
    (best : ι) (hbest : ∀ j, (s.members j).credentials ≤ (s.members best).credentials) (pending : List Heartbeat)
    (hpending : pending ⊆ (acts.foldl System.act s).network) (i : ι) :
    (((acts.foldl System.act s).act (best, .timeout pending)).members i).state = .active ↔ i = best := by
  have hstart : Standing s s group := ⟨fun i => ⟨rfl, (hstate i).imp_right And.left⟩, hnetwork⟩
  have hend : Standing s (acts.foldl System.act s) group :=
    hacts.invariant (I := (Standing s · group)) hstart fun _ _ h ha => h.act ha
  by_cases hi : i = best
  · subst hi
    refine iff_of_true ?_ rfl
    obtain ⟨hkept, htimer⟩ := best_run hgroup hbest hstart hacts
    have hno : ∀ hb ∈ ((acts.foldl System.act s).members i).polled pending,
        ¬ ((acts.foldl System.act s).members i).Accepts hb := fun hb hmem => by
      refine hend.not_accepts hgroup hbest (hpending ?_)
      unfold polled at hmem
      split at hmem
      · exact hmem
      · cases hmem
    rw [act_members_self, step]
    split
    · rw [ftTimeoutTimerCb_of_none hno, invokeStateChange]
      split
      next hactive => exact hactive
      · rfl
    next hoff => exact hkept.trans ((hstate i).resolve_right fun hstandby => hoff (htimer.trans hstandby.2))
  · rw [act_members_of_ne hi]
    have hother : ¬ ((s.members best).pid = (s.members i).pid ∧ (s.members best).ip = (s.members i).ip) :=
      fun hsame => hi (hdistinct i best hsame.2.symm hsame.1.symm)
    have hbetter : (s.members i).credentials < (s.members best).credentials :=
      lt_of_le_of_ne (hbest i) fun hsame => hother (credentials_injective hsame.symm)
    have hstandby := standby_of_delivered hgroup hother hbetter hstart hacts (hall i best hi)
    refine iff_of_false (fun hactive => ?_) hi
    cases hstandby.symm.trans hactive

def threeStandby : System (Fin 3) where
  members i := { three.members i with state := .standby, timeoutTimer := true }
  network := three.network

theorem converges_threeStandby :
    (((crossing.foldl System.act threeStandby).act (1, .timeout three.network)).members 1).state = .active :=
  (converges threeStandby "group" (by decide) (by decide) (by decide) (by decide) crossing (by decide) (by decide) 1
    (by decide) three.network (by decide) 1).mpr rfl

end OpenMama.FaultTolerance
