import OpenMama.Subscription.States

/-!
# The end of a subscription

A subscription is freed when its last reference is given up. The bridge holds a reference, and so does everybody who
has called `registerReference`, but the user who allocated the subscription holds none. So the user's call frees the
subscription that somebody else still holds, and a call from inside `onDestroy` frees it under the feet of the
bridge's callback.
-/

namespace OpenMama.Subscription

open List World Phase

def registers : List Op → Nat
  | [] => 0
  | .registerReference :: ops => registers ops + 1
  | _ :: ops => registers ops

namespace Phase

variable {a : Phase}

theorem registered_of_idle (hbridged : a.bridged = false) (hpending : a.state.isPending = false) :
    a.registered = a.referenceCount := by
  simp [registered, hbridged, hpending]

end Phase

theorem exists_phase {ops : List Op} (hops : ∀ op ∈ ops, op.IsUse)
    (hgood : Along step (fun w op => ¬ Breaks w op) {} ops) :
    ∃ a : Phase, a.Valid ∧ ops.foldl step {} = a.world ∧ a.registered = registers ops := by
  have hrun : ∀ (ops : List Op) (a : Phase), a.Valid → (∀ op ∈ ops, op.IsUse) →
      Along step (fun w op => ¬ Breaks w op) a.world ops →
      ∃ b : Phase, b.Valid ∧ ops.foldl step a.world = b.world ∧
        b.registered = a.registered + registers ops := by
    intro ops
    induction ops with
    | nil =>
      intro a ha _ _
      exact ⟨a, ha, rfl, (Int.add_zero _).symm⟩
    | cons op _ ih =>
      intro a ha hops hgood
      rw [forall_mem_cons] at hops
      have hstep := step_world ha hops.1 hgood.1
      obtain ⟨b, hb, hfold, hregistered⟩ := ih (a.next op) (moves_next ha op).valid hops.2 (hstep ▸ hgood.2)
      refine ⟨b, hb, by rw [foldl_cons, hstep, hfold], ?_⟩
      rw [hregistered, (moves_next ha op).registered]
      cases op with
      | registerReference =>
        simp only [registers, if_true]
        omega
      | _ => simp [registers]
  obtain ⟨a, ha, hfold, hregistered⟩ := hrun ops {} (valid_of_not_bridged rfl ⟨nofun, nofun⟩ nofun) hops hgood
  exact ⟨a, ha, hfold, by rw [hregistered]; exact Int.zero_add _⟩

/-! ### The last steps -/

def Op.IsLast : Op → Prop
  | .deallocate | .registerReference | .bridgeDestroyed _ _ => True
  | _ => False

def callbacks : List Op → Nat
  | [] => 0
  | .bridgeDestroyed _ _ :: ops => callbacks ops + 1
  | _ :: ops => callbacks ops

/-- The calls of `mamaSubscription_deallocate` that come from inside no callback. -/
def calls : List Op → Nat
  | [] => 0
  | .deallocate :: ops => calls ops + 1
  | _ :: ops => calls ops

/-- Those from inside an `onDestroy` that the bridge's callback invokes. -/
def insides : List Op → Nat
  | [] => 0
  | .bridgeDestroyed _ true :: ops => insides ops + 1
  | _ :: ops => insides ops

/-- Steps end well if the subscription is freed once, is not used afterwards, and its lock is released after
every step until then. -/
structure EndsWell (w : World) (ops : List Op) : Prop where
  freed : (ops.foldl step w).freed = true
  defined : (ops.foldl step w).fault = false
  released : Along step (fun w op => (w.step op).freed = false → (w.step op).createDestroyLock = 0) w ops

/-- A live subscription in a state, with a number of references and of callbacks to come. -/
structure At (state : State) (references outstanding : Nat) (w : World) : Prop where
  state : w.state = state
  referenceCount : w.referenceCount = references
  outstanding : w.outstanding = outstanding
  released : w.createDestroyLock = 0
  alive : w.freed = false
  defined : w.fault = false

section

variable {w : World} {s : State} {k o : Nat} {ops : List Op}

theorem endsWell_cons {op : Op} :
    EndsWell w (op :: ops) ↔
      ((w.step op).freed = false → (w.step op).createDestroyLock = 0) ∧ EndsWell (w.step op) ops :=
  ⟨fun h => ⟨h.released.1, h.freed, h.defined, h.released.2⟩,
    fun h => ⟨h.2.freed, h.2.defined, h.1, h.2.released⟩⟩

theorem foldl_step_of_fault (h : w.fault) : ops.foldl step w = w := by
  induction ops with
  | nil => rfl
  | cons op _ ih =>
    have hstep : w.step op = w := by
      unfold step
      rw [if_pos h]
    rw [foldl_cons, hstep, ih]

theorem not_endsWell_of_fault (h : w.fault) : ¬ EndsWell w ops := by
  intro hends
  have hdefined := hends.defined
  rw [foldl_step_of_fault h, h] at hdefined
  cases hdefined

theorem not_endsWell_of_locked {op : Op} (halive : (w.step op).freed = false)
    (hlocked : (w.step op).createDestroyLock ≠ 0) : ¬ EndsWell w (op :: ops) :=
  fun hends => hlocked ((endsWell_cons.mp hends).1 halive)

theorem endsWell_of_freed_iff (hfreed : w.freed) (hdefined : w.fault = false) (hlast : ∀ op ∈ ops, op.IsLast)
    (hcallbacks : callbacks ops = 0) : EndsWell w ops ↔ calls ops + registers ops = 0 := by
  cases ops with
  | nil => exact iff_of_true ⟨hfreed, hdefined, trivial⟩ rfl
  | cons op _ =>
    have huse (f : World → World) : (w.use f).fault := by rw [use, if_pos hfreed]
    rw [forall_mem_cons] at hlast
    refine iff_of_false (fun hends => not_endsWell_of_fault ?_ (endsWell_cons.mp hends).2) ?_ <;> cases op with
    | deallocate | registerReference => simp [step, hdefined, huse, calls, registers]
    | bridgeDestroyed => cases hcallbacks
    | _ => exact hlast.1.elim

theorem implDeallocate_of_le (h : w.referenceCount ≤ 1) :
    w.implDeallocate = { w with state := .deallocated, freed := true } :=
  if_neg fun hcond => by omega

theorem implDeallocate_of_lt (h : 1 < w.referenceCount) : w.implDeallocate = w.release := if_pos ⟨by omega, by omega⟩

namespace At

theorem exists_eq (h : At s k o w) :
    ∃ u : World, w = { u with
      state := s, referenceCount := k, outstanding := o, createDestroyLock := 0, freed := false, fault := false } := by
  obtain ⟨rfl, hk, rfl, hl, ha, hd⟩ := h
  refine ⟨w, ?_⟩
  obtain ⟨_, _, _, _, _, _, _, _, _, _,
    openObjects, onDestroy, destroys, fault⟩ := w
  cases hk
  cases hl
  cases ha
  cases hd
  rfl

theorem registerReference (h : At s k o w) : At s (k + 1) o (w.step .registerReference) := by
  obtain ⟨u, rfl⟩ := h.exists_eq
  exact ⟨rfl, rfl, rfl, rfl, rfl, rfl⟩

theorem deallocate_destroying (h : At .destroying k o w) : At .deallocating k o (w.step .deallocate) := by
  obtain ⟨u, rfl⟩ := h.exists_eq
  exact ⟨rfl, rfl, rfl, rfl, rfl, rfl⟩

theorem deallocate_deallocating (h : At .deallocating k o w) : At .deallocating k o (w.step .deallocate) := by
  obtain ⟨u, rfl⟩ := h.exists_eq
  exact ⟨rfl, rfl, rfl, rfl, rfl, rfl⟩

theorem deallocate_destroyed (h : At .destroyed k o w) : w.step .deallocate = w.lock.implDeallocate := by
  obtain ⟨u, rfl⟩ := h.exists_eq
  rfl

theorem deallocate_frees (h : At .destroyed k o w) (hk : k ≤ 1) :
    (w.step .deallocate).freed ∧ (w.step .deallocate).fault = false := by
  have hcount : w.lock.referenceCount ≤ 1 := by
    rw [World.lock, h.referenceCount]
    omega
  rw [h.deallocate_destroyed, implDeallocate_of_le hcount]
  exact ⟨rfl, h.defined⟩

theorem deallocate_locks (h : At .destroyed k o w) (hk : 1 < k) :
    (w.step .deallocate).freed = false ∧ (w.step .deallocate).createDestroyLock ≠ 0 := by
  have hcount : 1 < w.lock.referenceCount := by
    rw [World.lock, h.referenceCount]
    omega
  rw [h.deallocate_destroyed, implDeallocate_of_lt hcount]
  exact ⟨h.alive, Nat.succ_ne_zero _⟩

theorem callback_destroying (h : At .destroying (k + 1) 1 w) (t : Throttling) :
    At .destroyed k 0 (w.step (.bridgeDestroyed t false)) := by
  obtain ⟨u, rfl⟩ := h.exists_eq
  refine ⟨rfl, ?_, rfl, rfl, rfl, rfl⟩
  show ((k + 1 : Nat) : Int) - 1 = k
  omega

theorem callback_inside (h : At .destroying k 1 w) (t : Throttling) :
    ∃ u : World, u.referenceCount = k ∧ u.createDestroyLock = 2 ∧ u.freed = false ∧
      w.step (.bridgeDestroyed t true) = u.implDeallocate.use fun u => u.release.unlock := by
  obtain ⟨u, rfl⟩ := h.exists_eq
  exact ⟨_, rfl, rfl, rfl, rfl⟩

theorem not_endsWell_inside (h : At .destroying k 1 w) (t : Throttling) :
    ¬ EndsWell w (.bridgeDestroyed t true :: ops) := by
  obtain ⟨u, hcount, hlock, halive, hstep⟩ := h.callback_inside t
  by_cases hk : k ≤ 1
  · intro hends
    refine not_endsWell_of_fault ?_ (endsWell_cons.mp hends).2
    rw [hstep, implDeallocate_of_le (by omega)]
    rfl
  · have hkept : w.step (.bridgeDestroyed t true) = u.release.release.unlock := by
      rw [hstep, implDeallocate_of_lt (by omega)]
      exact if_neg (by rw [Bool.not_eq_true]; exact halive)
    refine not_endsWell_of_locked ?_ ?_
    · rw [hkept]
      exact halive
    · rw [hkept]
      simp only [unlock, World.release, hlock]
      decide

theorem callback_deallocating (h : At .deallocating k 1 w) (t : Throttling) (deallocates : Bool) :
    ∃ u : World, At .deallocating k 0 u ∧ w.step (.bridgeDestroyed t deallocates) = u.implDeallocate := by
  obtain ⟨u, rfl⟩ := h.exists_eq
  cases deallocates with
  | false | true => exact ⟨_, ⟨rfl, rfl, rfl, rfl, rfl, rfl⟩, rfl⟩

theorem release (h : At s (k + 1) o w) : At s k o w.release := by
  refine ⟨h.state, ?_, h.outstanding, h.released, h.alive, h.defined⟩
  show w.referenceCount - 1 = k
  rw [h.referenceCount]
  omega

end At

/-! ### Runs of last steps -/

theorem insides_le_callbacks (ops : List Op) : insides ops ≤ callbacks ops := by
  induction ops with
  | nil => exact Nat.le_refl 0
  | cons op _ ih =>
    cases op with
    | bridgeDestroyed t deallocates =>
      cases deallocates with
      | true => exact Nat.succ_le_succ ih
      | false => exact Nat.le_succ_of_le ih
    | _ => exact ih

theorem endsWell_destroyed_iff (h : At .destroyed k 0 w) (hlast : ∀ op ∈ ops, op.IsLast)
    (hcallbacks : callbacks ops = 0) (hcalls : calls ops = k + registers ops + 1) :
    EndsWell w ops ↔ k + registers ops = 0 := by
  induction ops generalizing w k with
  | nil => cases hcalls
  | cons op ops ih =>
    rw [forall_mem_cons] at hlast
    cases op with
    | deallocate =>
      have hcount : calls ops + 1 = k + registers ops + 1 := hcalls
      show _ ↔ k + registers ops = 0
      by_cases hk : k ≤ 1
      · obtain ⟨hfreed, hdefined⟩ := h.deallocate_frees hk
        have hfree : (w.step .deallocate).freed = false → (w.step .deallocate).createDestroyLock = 0 := by rw [hfreed]; nofun
        rw [endsWell_cons, and_iff_right hfree, endsWell_of_freed_iff hfreed hdefined hlast.2 hcallbacks]
        omega
      · obtain ⟨halive, hlocked⟩ := h.deallocate_locks (by omega)
        exact iff_of_false (not_endsWell_of_locked halive hlocked) (by omega)
    | registerReference =>
      have hcount : calls ops = k + (registers ops + 1) + 1 := hcalls
      rw [endsWell_cons, ih h.registerReference hlast.2 hcallbacks (by omega), registers]
      omega
    | bridgeDestroyed => cases hcallbacks
    | _ => exact hlast.1.elim

theorem not_endsWell_leaked (h : At .deallocating k 0 w) (hlast : ∀ op ∈ ops, op.IsLast)
    (hcallbacks : callbacks ops = 0) : ¬ EndsWell w ops := by
  induction ops generalizing w k with
  | nil => exact fun hends => nomatch h.alive.symm.trans hends.freed
  | cons op _ ih =>
    rw [forall_mem_cons] at hlast
    intro hends
    have hrest := (endsWell_cons.mp hends).2
    cases op with
    | deallocate => exact ih h.deallocate_deallocating hlast.2 hcallbacks hrest
    | registerReference => exact ih h.registerReference hlast.2 hcallbacks hrest
    | bridgeDestroyed => cases hcallbacks
    | _ => exact hlast.1.elim

theorem endsWell_deallocating_iff (h : At .deallocating (k + 1) 1 w) (hlast : ∀ op ∈ ops, op.IsLast)
    (hcallbacks : callbacks ops = 1) (hcalls : calls ops ≤ k + registers ops) :
    EndsWell w ops ↔ k + registers ops = 0 := by
  induction ops generalizing w k with
  | nil => cases hcallbacks
  | cons op ops ih =>
    rw [forall_mem_cons] at hlast
    cases op with
    | deallocate =>
      have hcount : calls ops + 1 ≤ k + registers ops := hcalls
      rw [endsWell_cons, and_iff_right fun _ => h.deallocate_deallocating.released]
      exact ih h.deallocate_deallocating hlast.2 hcallbacks (by omega)
    | registerReference =>
      have hcount : calls ops ≤ k + (registers ops + 1) := hcalls
      rw [endsWell_cons, ih h.registerReference hlast.2 hcallbacks (by omega), registers]
      omega
    | bridgeDestroyed t deallocates =>
      have hcount : calls ops ≤ k + registers ops := hcalls
      have hnone : callbacks ops = 0 := Nat.succ.inj hcallbacks
      obtain ⟨u, hu, hstep⟩ := h.callback_deallocating t deallocates
      rw [endsWell_cons, hstep]
      show _ ↔ k + registers ops = 0
      cases k with
      | zero =>
        rw [implDeallocate_of_le (by rw [hu.referenceCount]; decide), and_iff_right nofun]
        refine (endsWell_of_freed_iff rfl ?_ hlast.2 hnone).trans (by omega)
        exact hu.defined
      | succ k =>
        rw [implDeallocate_of_lt (by rw [hu.referenceCount]; omega)]
        exact iff_of_false (fun hends => not_endsWell_leaked hu.release hlast.2 hnone hends.2) (by omega)
    | _ => exact hlast.1.elim

theorem endsWell_destroying_iff (h : At .destroying (k + 1) 1 w) (hlast : ∀ op ∈ ops, op.IsLast)
    (hcallbacks : callbacks ops = 1) (hcalls : calls ops + insides ops = k + registers ops + 1) :
    EndsWell w ops ↔ k + registers ops = 0 ∧ insides ops = 0 := by
  induction ops generalizing w k with
  | nil => cases hcallbacks
  | cons op ops ih =>
    rw [forall_mem_cons] at hlast
    cases op with
    | deallocate =>
      have hcount : calls ops + 1 + insides ops = k + registers ops + 1 := hcalls
      have hat := h.deallocate_destroying
      rw [endsWell_cons, and_iff_right fun _ => hat.released,
        endsWell_deallocating_iff hat hlast.2 hcallbacks (by omega)]
      show _ ↔ k + registers ops = 0 ∧ insides ops = 0
      omega
    | registerReference =>
      have hcount : calls ops + insides ops = k + (registers ops + 1) + 1 := hcalls
      rw [endsWell_cons, ih h.registerReference hlast.2 hcallbacks (by omega)]
      show _ ↔ k + (registers ops + 1) = 0 ∧ insides ops = 0
      omega
    | bridgeDestroyed t deallocates =>
      have hnone : callbacks ops = 0 := Nat.succ.inj hcallbacks
      have hinsides := insides_le_callbacks ops
      cases deallocates with
      | true => exact iff_of_false (h.not_endsWell_inside t) fun hboth => nomatch hboth.2
      | false =>
        have hcount : calls ops + insides ops = k + registers ops + 1 := hcalls
        have hat := h.callback_destroying t
        rw [endsWell_cons, and_iff_right fun _ => hat.released, endsWell_destroyed_iff hat hlast.2 hnone (by omega)]
        exact (and_iff_left (show insides ops = 0 by omega)).symm
    | _ => exact hlast.1.elim

end

/-! ### Lives -/

theorem endsWell_append {w : World} {before after : List Op}
    (hreleased : Along step (fun w op => (w.step op).freed = false → (w.step op).createDestroyLock = 0) w before) :
    EndsWell w (before ++ after) ↔ EndsWell (before.foldl step w) after := by
  constructor
  · intro h
    exact ⟨by rw [← foldl_append]; exact h.freed, by rw [← foldl_append]; exact h.defined,
      (along_append.mp h.released).2⟩
  · intro h
    exact ⟨by rw [foldl_append]; exact h.freed, by rw [foldl_append]; exact h.defined,
      along_append.mpr ⟨hreleased, h.released⟩⟩

namespace Phase

variable {a : Phase} {k : Nat} {ops : List Op}

theorem released_world (ha : a.Valid) (hops : ∀ op ∈ ops, op.IsUse)
    (hgood : Along step (fun w op => ¬ Breaks w op) a.world ops) :
    Along step (fun w op => (w.step op).freed = false → (w.step op).createDestroyLock = 0) a.world ops := by
  induction ops generalizing a with
  | nil => trivial
  | cons op _ ih =>
    rw [forall_mem_cons] at hops
    have hstep := step_world ha hops.1 hgood.1
    refine ⟨fun _ => by rw [hstep]; rfl, ?_⟩
    rw [hstep]
    exact ih (moves_next ha op).valid hops.2 (hstep ▸ hgood.2)

theorem at_destroyed (hstate : a.state = .setup ∨ a.state = .deactivated) (hcount : a.referenceCount = k) :
    At .destroyed k 0 (a.world.step (.finishDestroy false)) := by
  obtain ⟨_, _, _, _, _, _⟩ := a
  cases hcount
  rcases hstate with hs | hs <;> cases hs <;> exact ⟨rfl, rfl, rfl, rfl, rfl, rfl⟩

theorem step_finishDestroy_inside (hstate : a.state = .setup ∨ a.state = .deactivated) :
    a.world.step (.finishDestroy true) = (a.world.step (.finishDestroy false)).step .deallocate := by
  obtain ⟨_, _, _, _, _, _⟩ := a
  rcases hstate with hs | hs <;> cases hs <;> rfl

theorem at_destroying (hstate : a.state = .deactivating) (hcount : a.referenceCount = k) :
    At .destroying k 1 (a.world.step (.finishDestroy false)) := by
  obtain ⟨_, _, _, _, _, _⟩ := a
  cases hcount
  cases hstate
  exact ⟨rfl, rfl, rfl, rfl, rfl, rfl⟩

variable {n : Nat}

theorem endsWell_idle_iff (ha : a.Valid) (hstate : a.state = .setup ∨ a.state = .deactivated)
    (hregistered : a.registered = k) (hlast : ∀ op ∈ ops, op.IsLast) (hcallbacks : callbacks ops = 0)
    (hregisters : k + registers ops = n) (deallocates : Bool)
    (hcalls : (if deallocates then 1 else 0) + (calls ops + insides ops) = n + 1) :
    EndsWell a.world (.finishDestroy deallocates :: ops) ↔ n = 0 := by
  have hcount : a.referenceCount = k := by
    rw [← hregistered, registered_of_idle]
    · exact ha.bridged_eq_false (by rcases hstate with hs | hs <;> rw [hs] <;> nofun)
    · rcases hstate with hs | hs <;> rw [hs] <;> rfl
  have hat := at_destroyed hstate hcount
  have hinsides := insides_le_callbacks ops
  cases deallocates with
  | false =>
    rw [if_neg Bool.false_ne_true] at hcalls
    rw [endsWell_cons, and_iff_right fun _ => hat.released]
    rw [endsWell_destroyed_iff hat hlast hcallbacks (by omega), hregisters]
  | true =>
    rw [if_pos rfl] at hcalls
    rw [endsWell_cons, step_finishDestroy_inside hstate, ← endsWell_cons]
    have hlast' : ∀ op ∈ .deallocate :: ops, op.IsLast := forall_mem_cons.mpr ⟨trivial, hlast⟩
    rw [endsWell_destroyed_iff hat hlast' hcallbacks (show calls ops + 1 = k + registers ops + 1 by omega)]
    exact hregisters ▸ Iff.rfl

theorem endsWell_pending_iff (ha : a.Valid) (hstate : a.state = .deactivating) (hregistered : a.registered = k)
    (hlast : ∀ op ∈ ops, op.IsLast) (hcallbacks : callbacks ops = 1) (hregisters : k + registers ops = n)
    (hcalls : calls ops + insides ops = n + 1) :
    EndsWell a.world (.finishDestroy false :: ops) ↔ n = 0 ∧ insides ops = 0 := by
  have hcount : a.referenceCount = (k + 1 : Nat) := by
    have hbridged := ha.bridged_eq_false (by rw [hstate]; nofun)
    simp only [registered, hbridged, hstate, State.isPending, if_true, Bool.false_eq_true, if_false] at hregistered
    omega
  have hat := at_destroying hstate hcount
  rw [endsWell_cons, and_iff_right fun _ => hat.released]
  rw [endsWell_destroying_iff hat hlast hcallbacks (by omega), hregisters]

end Phase

/-- A subscription is created and destroyed, and `n` references are registered and given up besides the user's. It ends
well exactly when there are none and the user does not deallocate it inside the `onDestroy` that the bridge's callback
invokes. -/
theorem lifetime_iff (before after : List Op) (deallocates : Bool) (n : Nat) (hbefore : ∀ op ∈ before, op.IsUse)
    (hgood : Along step (fun w op => ¬ Breaks w op) {} before)
    (hcreated : (before.foldl step {}).state = .setup ∨ (before.foldl step {}).state = .deactivated ∨
      (before.foldl step {}).state = .deactivating)
    (hinside : deallocates = true → (before.foldl step {}).state ≠ .deactivating)
    (hafter : ∀ op ∈ after, op.IsLast) (hcallbacks : callbacks after = (before.foldl step {}).outstanding)
    (hregisters : registers before + registers after = n)
    (hdeallocations : (if deallocates then 1 else 0) + (calls after + insides after) = n + 1) :
    EndsWell {} (before ++ .finishDestroy deallocates :: after) ↔ n = 0 ∧ insides after = 0 := by
  have hinit : ({} : Phase).Valid := valid_of_not_bridged rfl ⟨nofun, nofun⟩ nofun
  obtain ⟨a, ha, hfold, hregistered⟩ := exists_phase hbefore hgood
  apply (endsWell_append (released_world hinit hbefore hgood)).trans
  rw [show ({} : Phase).world = {} from rfl, hfold]
  rw [hfold] at hcreated hinside hcallbacks
  rcases or_assoc.mpr hcreated with hidle | hpending
  · have hnone : callbacks after = 0 := by
      rw [hcallbacks]
      rcases hidle with hs | hs <;> simp only [world] at hs ⊢ <;> rw [hs] <;> rfl
    have hinsides := insides_le_callbacks after
    rw [endsWell_idle_iff ha hidle hregistered hafter hnone hregisters deallocates hdeallocations]
    exact (and_iff_left (by omega)).symm
  · have hone : callbacks after = 1 := by
      rw [hcallbacks]
      simp only [world] at hpending ⊢
      rw [hpending]
      rfl
    cases deallocates with
    | true => exact absurd hpending (hinside rfl)
    | false =>
      rw [if_neg Bool.false_ne_true, Nat.zero_add] at hdeallocations
      exact endsWell_pending_iff ha hpending hregistered hafter hone hregisters hdeallocations

def created : List Op := [.setup false true, .activate .queues, .fire {}, .deactivate]

theorem deallocated_before_callback :
    EndsWell {} (created ++ [.finishDestroy false, .deallocate, .bridgeDestroyed .fails false]) :=
  (lifetime_iff created [.deallocate, .bridgeDestroyed .fails false] false 0 (by simp [created, Op.IsUse])
    (by decide) (by decide) nofun (by simp [Op.IsLast]) (by decide) rfl rfl).mpr ⟨rfl, rfl⟩

theorem deallocation_fails :
    ¬ EndsWell {} (created ++ [.finishDestroy false, .bridgeDestroyed .fails true]) ∧
    ¬ EndsWell {} (created ++ [.registerReference, .finishDestroy false, .bridgeDestroyed .fails false, .deallocate,
      .deallocate]) ∧
    ¬ EndsWell {} (created ++ [.registerReference, .registerReference, .finishDestroy false,
      .bridgeDestroyed .fails false, .deallocate, .deallocate, .deallocate]) := by
  refine ⟨fun h => ?_, fun h => ?_, fun h => ?_⟩
  · cases h.defined
  · cases h.defined
  · exact nomatch h.released

def Op.Recreates : Op → Prop
  | .setup _ _ | .createBasic _ => True
  | _ => False

def State.IsEnd (s : State) : Prop := s = .destroying ∨ s = .destroyed

theorem Phase.ending_step {a : Phase} (h : a.Valid) (hend : a.state.IsEnd) {op : Op} (hop : op.IsUse)
    (hno : ¬ op.Recreates) : a.world.step op = (a.next op).world ∧ (a.next op).Valid ∧ (a.next op).state.IsEnd := by
  have hgood : ¬ Breaks a.world op := by
    rcases hend with hs | hs <;> cases op <;> simp_all [Breaks, Op.Recreates, world]
  refine ⟨step_world h hop hgood, (moves_next h op).valid, ?_⟩
  obtain ⟨type, _, state, _, _, _⟩ := a
  rcases hend with rfl | rfl <;> cases op <;> cases type <;> simp_all [Phase.next, State.IsEnd, Op.Recreates]

/-- A subscription that is destroyed is on its way to DESTROYED whatever is called then, other than to create it
anew, and is there as soon as the bridge has called back. -/
theorem destroy_completes (before after : List Op) (t : Throttling) (hbefore : ∀ op ∈ before, op.IsUse)
    (hgood : Along step (fun w op => ¬ Breaks w op) {} before) (hcreated : (before.foldl step {}).state ≠ .allocated)
    (hlast : ¬ Breaks (before.foldl step {}) .deactivate) (hafter : ∀ op ∈ after, op.IsUse ∧ ¬ op.Recreates) :
    let w := after.foldl step (((before.foldl step {}).step .deactivate).step (.finishDestroy false))
    (w.state = .destroying ∧ w.outstanding = 1 ∧ (w.step (.bridgeDestroyed t false)).state = .destroyed ∨
      w.state = .destroyed ∧ w.outstanding = 0) ∧
      w.queued = 0 ∧ w.openObjects = w.outstanding ∧ w.destroys = w.onDestroy + w.outstanding := by
  obtain ⟨a, ha, hfold, -⟩ := exists_phase hbefore hgood
  rw [hfold] at hcreated hlast ⊢
  have hdeactivated := (moves_next ha .deactivate).valid
  rw [step_deactivate ha hlast, step_finishDestroy]
  have hstart : ((a.next .deactivate).next (.finishDestroy false)).state.IsEnd := by
    have hused := ha.used
    have hbasic := ha.basic
    obtain ⟨type, _, state, bridged, _, _⟩ := a
    cases state <;> cases type <;> cases bridged <;> simp_all [Phase.next, State.IsEnd, Phase.world]
  obtain ⟨b, hworld, -, hend⟩ : ∃ b : Phase, after.foldl step
      ((a.next .deactivate).next (.finishDestroy false)).world = b.world ∧ b.Valid ∧ b.state.IsEnd := by
    refine foldlRecOn (motive := fun w => ∃ b : Phase, w = b.world ∧ b.Valid ∧ b.state.IsEnd) after step
      ⟨_, rfl, (moves_next hdeactivated _).valid, hstart⟩ ?_
    rintro _ ⟨b, rfl, hb, hend⟩ op hop
    exact ⟨b.next op, ending_step hb hend (hafter op hop).1 (hafter op hop).2⟩
  rw [hworld]
  obtain ⟨_, _, state, _, _, _⟩ := b
  rcases hend with rfl | rfl
  · exact ⟨.inl ⟨rfl, rfl, rfl⟩, rfl, rfl, rfl⟩
  · exact ⟨.inr ⟨rfl, rfl⟩, rfl, rfl, rfl⟩

theorem destroy_completes_created :
    ([.activate .queues].foldl step (((created.foldl step {}).step .deactivate).step (.finishDestroy false))).queued
      = 0 :=
  (destroy_completes created [.activate .queues] .fails (by simp [created, Op.IsUse]) (by decide) (by decide)
    (by decide) (by simp [Op.IsUse, Op.Recreates])).2.1

end OpenMama.Subscription
