import OpenMama.Lib.Mutex
import OpenMama.Lib.Run

/-!
# The multi-reader single-writer lock

`MRSWLock.c`: a writer waits for the semaphore `m_noLocksEvent` and keeps the recursive mutex while it writes. A
reader holds the mutex only inside of its calls; the readers together hold the token of the semaphore. Each operation
on the semaphore or the mutex is a step of some thread.
-/

namespace OpenMama

open List Function Mutex

namespace MRSWLock

variable {τ : Type}

/-- `m_noLocksEvent`, `m_numberReaders`, `m_numberWriters` and `m_writeThreadId`. The lists have a thread once for
each read or write lock that it holds. -/
structure Lock (τ : Type) where
  noLocksEvent : Nat := 1
  numberReaders : Nat := 0
  numberWriters : Nat := 0
  writeThreadId : Option τ := none
  reading : List τ := []
  writing : List τ := []

inductive After where
  | done
  | read
  | write

/-- Where a thread is in its call. -/
inductive Place where
  | idle
  /-- In front of the lock and of the unlock in `getWriteThreadId`. -/
  | ask
  | asked
  /-- The nested write lock. -/
  | nest
  | nested
  /-- In front of the semaphore, of the mutex, and of its unlock if there are readers. -/
  | wait
  | waited
  | retry
  /-- The read lock. -/
  | enter
  | reset
  | entered
  /-- The releases: the mutex, its first unlock, the post of the semaphore, the last unlock. -/
  | leaveWrite (k : After)
  | dropWrite (k : After)
  | leaveRead (k : After)
  | signal (k : After)
  | left (k : After)

def After.place : After → Place
  | .done => .idle
  | .read => .enter
  | .write => .ask

def Place.depth : Place → Nat
  | .asked | .nested | .retry | .reset | .entered | .dropWrite _ | .signal _ | .left _ => 1
  | _ => 0

def Place.Owes : Place → Prop
  | .waited | .signal _ => True
  | _ => False

structure World (τ : Type) where
  mutex : Mutex τ := {}
  lock : Lock τ := {}
  place : τ → Place := fun _ => .idle

open World

variable [DecidableEq τ]

def World.go (w : World τ) (t : τ) (m : Mutex τ) (l : Lock τ) (p : Place) : World τ where
  mutex := m
  lock := l
  place := Function.update w.place t p

def World.locking (w : World τ) (t : τ) (l : Lock τ) (p : Place) : World τ :=
  match w.mutex.lock? t with
  | some m => w.go t m l p
  | none => w

def World.unlocking (w : World τ) (t : τ) (l : Lock τ) (p : Place) : World τ := w.go t (w.mutex.unlock t) l p

def Lock.read (l : Lock τ) (t : τ) : Lock τ :=
  { l with numberReaders := l.numberReaders + 1, reading := t :: l.reading }

def World.run (w : World τ) (t : τ) : World τ :=
  let l := w.lock
  match w.place t with
  | .idle => w
  | .ask => w.locking t l .asked
  | .asked => w.unlocking t l (if l.writeThreadId = some t then .nest else .wait)
  | .nest => w.locking t { l with numberWriters := l.numberWriters + 1, writing := t :: l.writing } .nested
  | .nested => w.unlocking t l .idle
  | .wait => if l.noLocksEvent = 0 then w else w.go t w.mutex { l with noLocksEvent := l.noLocksEvent - 1 } .waited
  | .waited =>
    if l.numberReaders = 0 then w.locking t { l with writeThreadId := some t, writing := t :: l.writing } .idle
    else w.locking t l .retry
  | .retry => w.unlocking t l .wait
  | .enter => if l.numberReaders = 0 then w.locking t l .reset else w.locking t (l.read t) .entered
  -- `wsem_timedwait` with 0 takes a token if there is one
  | .reset => w.go t w.mutex ({ l with noLocksEvent := l.noLocksEvent - 1 }.read t) .entered
  | .entered => w.unlocking t l .idle
  | .leaveWrite k =>
    if 0 < l.numberWriters then
      w.locking t { l with numberWriters := l.numberWriters - 1, writing := l.writing.erase t } (.left k)
    else w.locking t l (.dropWrite k)
  | .dropWrite k => w.unlocking t { l with writeThreadId := none, writing := l.writing.erase t } (.signal k)
  | .leaveRead k =>
    let l' := { l with numberReaders := l.numberReaders - 1, reading := l.reading.erase t }
    if l'.numberReaders = 0 then w.locking t l' (.signal k) else w.locking t l' (.left k)
  | .signal k => w.go t w.mutex { l with noLocksEvent := l.noLocksEvent + 1 } (.left k)
  | .left k => w.unlocking t l k.place

inductive Call where
  | acquireRead
  | acquireWrite
  | releaseRead
  | releaseWrite
  | upgrade
  | downgrade

def Call.place : Call → Place
  | .acquireRead => .enter
  | .acquireWrite => .ask
  | .releaseRead => .leaveRead .done
  | .releaseWrite => .leaveWrite .done
  | .upgrade => .leaveRead .write
  | .downgrade => .leaveWrite .read

def Matched (l : Lock τ) (t : τ) : Call → Prop
  | .releaseRead | .upgrade => t ∈ l.reading
  | .releaseWrite | .downgrade => t ∈ l.writing
  | _ => True

instance (l : Lock τ) (t : τ) : (c : Call) → Decidable (Matched l t c)
  | .releaseRead => inferInstanceAs (Decidable (t ∈ l.reading))
  | .upgrade => inferInstanceAs (Decidable (t ∈ l.reading))
  | .releaseWrite => inferInstanceAs (Decidable (t ∈ l.writing))
  | .downgrade => inferInstanceAs (Decidable (t ∈ l.writing))
  | .acquireRead | .acquireWrite => isTrue trivial

inductive Event (τ : Type) where
  | call (t : τ) (c : Call)
  | run (t : τ)

/-- A thread that is inside of a call makes no other, and a call that is not matched is not made. -/
def step (w : World τ) : Event τ → World τ
  | .call t c =>
    match w.place t with
    | .idle => if Matched w.lock t c then w.go t w.mutex w.lock c.place else w
    | _ => w
  | .run t => w.run t

/-- The counts are those of the threads that read and write. -/
structure Lock.Sound (l : Lock τ) : Prop where
  readers : l.numberReaders = l.reading.length
  free : l.writeThreadId = none → l.writing = [] ∧ l.numberWriters = 0
  taken : ∀ t, l.writeThreadId = some t → l.writing = List.replicate (l.numberWriters + 1) t ∧ ∀ u ∈ l.reading, u = t

def Fits (l : Lock τ) (t : τ) : Place → Prop
  | .nest | .nested | .leaveWrite _ => l.writeThreadId = some t
  | .dropWrite _ => l.writeThreadId = some t ∧ l.numberWriters = 0
  | .leaveRead _ => t ∈ l.reading
  | .reset => l.numberReaders = 0
  | .wait | .waited => l.writeThreadId ≠ some t
  | .retry => l.numberReaders ≠ 0 ∧ l.writeThreadId ≠ some t
  | _ => True

def Lock.base (l : Lock τ) (t : τ) : Nat := if l.writeThreadId = some t then 1 else 0

/-- What every schedule keeps. -/
structure Inv (w : World τ) : Prop where
  depth : ∀ u, w.mutex.depth u = w.lock.base u + (w.place u).depth
  sound : w.lock.Sound
  fits : ∀ u, Fits w.lock u (w.place u)
  wake : 1 ≤ w.lock.noLocksEvent ∨ w.lock.numberReaders ≠ 0 ∨ w.lock.writeThreadId ≠ none ∨ ∃ u, (w.place u).Owes

variable {w : World τ} {t : τ} {m : Mutex τ} {l : Lock τ} {p : Place}

omit [DecidableEq τ] in
theorem Fits.other {l' : Lock τ} {u : τ} (h : Fits l u p) (hp : p.depth = 0) (hwriter : l.writeThreadId ≠ some u)
    (hwriter' : l'.writeThreadId ≠ some u) (hreading : u ∈ l.reading → u ∈ l'.reading) : Fits l' u p := by
  cases p with
  | nest | leaveWrite => exact absurd h hwriter
  | leaveRead k => exact hreading h
  | wait | waited => exact hwriter'
  | nested | dropWrite k | reset | retry => cases hp
  | _ => trivial

omit [DecidableEq τ] in
theorem fits_post (s : Nat) : Fits { l with noLocksEvent := s } t p ↔ Fits l t p := by
  cases p <;> exact Iff.rfl

theorem Inv.outside (h : Inv w) (hfree : ∀ u ≠ t, w.mutex.depth u = 0) (u : τ) (hu : u ≠ t) :
    w.lock.writeThreadId ≠ some u ∧ (w.place u).depth = 0 := by
  have hzero := (h.depth u).symm.trans (hfree u hu)
  rw [Nat.add_eq_zero_iff, Lock.base] at hzero
  exact ⟨fun heq => absurd hzero.1 (by rw [if_pos heq]; exact Nat.one_ne_zero), hzero.2⟩

theorem Inv.change (h : Inv w) (hfree : ∀ u ≠ t, w.mutex.depth u = 0) (hothers : ∀ u ≠ t, m.depth u = 0)
    (hdepth : m.depth t = l.base t + p.depth) (hsound : l.Sound) (hwriter : ∀ u ≠ t, l.writeThreadId ≠ some u)
    (hreading : ∀ u ≠ t, u ∈ w.lock.reading → u ∈ l.reading) (hfits : Fits l t p)
    (hwake : 1 ≤ l.noLocksEvent ∨ l.numberReaders ≠ 0 ∨ l.writeThreadId ≠ none ∨ p.Owes) : Inv (w.go t m l p) := by
  refine ⟨fun u => ?_, hsound, fun u => ?_, ?_⟩
  · by_cases hu : u = t
    · subst hu
      simpa [go] using hdepth
    · simp [go, update_of_ne hu, hothers u hu, Lock.base, hwriter u hu, (h.outside hfree u hu).2]
  · by_cases hu : u = t
    · subst hu
      simpa [go] using hfits
    · obtain ⟨hold, hplace⟩ := h.outside hfree u hu
      simpa [go, update_of_ne hu] using (h.fits u).other hplace hold (hwriter u hu) (hreading u hu)
  · refine hwake.imp_right (Or.imp_right (Or.imp_right (fun howes => ⟨t, ?_⟩)))
    simpa [go] using howes

theorem Inv.move (h : Inv w) (s : Nat) (hothers : ∀ u ≠ t, m.depth u = w.mutex.depth u)
    (hdepth : m.depth t = w.lock.base t + p.depth) (hfits : Fits w.lock t p)
    (hwake : (w.place t).Owes ∨ s < w.lock.noLocksEvent → p.Owes ∨ 1 ≤ s) :
    Inv (w.go t m { w.lock with noLocksEvent := s } p) := by
  refine ⟨fun u => ?_, { h.sound with }, fun u => (fits_post s).mpr ?_, ?_⟩
  · change m.depth u = w.lock.base u + (Function.update w.place t p u).depth
    by_cases hu : u = t
    · subst hu
      rw [update_self, hdepth]
    · rw [update_of_ne hu, hothers u hu, h.depth u]
  · by_cases hu : u = t
    · subst hu
      simpa [go] using hfits
    · simpa [go, update_of_ne hu] using h.fits u
  · have hpaid : p.Owes ∨ 1 ≤ s → 1 ≤ s ∨ w.lock.numberReaders ≠ 0 ∨ w.lock.writeThreadId ≠ none ∨
        ∃ u, (Function.update w.place t p u).Owes := by
      rintro (howes | hs)
      · exact .inr (.inr (.inr ⟨t, by simpa using howes⟩))
      · exact .inl hs
    rcases h.wake with hsem | hreaders | hwriter | ⟨u, hu⟩
    · by_cases hs : s < w.lock.noLocksEvent
      · exact hpaid (hwake (.inr hs))
      · exact .inl (Nat.le_trans hsem (Nat.le_of_not_lt hs))
    · exact .inr (.inl hreaders)
    · exact .inr (.inr (.inl hwriter))
    · by_cases hut : u = t
      · exact hpaid (hwake (.inl (hut ▸ hu)))
      · exact .inr (.inr (.inr ⟨u, by simpa [go, update_of_ne hut] using hu⟩))

/-! ### The steps -/

theorem Inv.locking_move (h : Inv w) {q : Place} (hplace : w.place t = q) (hp : p.depth = q.depth + 1)
    (hfits : Fits w.lock t p) (hwake : q.Owes → p.Owes ∨ 1 ≤ w.lock.noLocksEvent) : Inv (w.locking t w.lock p) := by
  rw [locking]
  cases hlock : w.mutex.lock? t with
  | none => exact h
  | some m =>
    have hdepth := depth_lock? hlock
    refine h.move w.lock.noLocksEvent (fun u hu => ?_) ?_ hfits ?_
    · rw [hdepth u, if_neg hu, Nat.add_zero]
    · rw [hdepth t, if_pos rfl, h.depth t, hplace, hp, Nat.add_assoc]
    · exact fun howes => hwake (hplace ▸ howes.resolve_right (Nat.lt_irrefl _))

theorem Inv.unlocking_move (h : Inv w) {q : Place} (hplace : w.place t = q) (hp : q.depth = p.depth + 1)
    (hfits : Fits w.lock t p) (howes : ¬ q.Owes) : Inv (w.unlocking t w.lock p) := by
  have hdepth := depth_unlock w.mutex t
  refine h.move w.lock.noLocksEvent (fun u hu => ?_) ?_ hfits ?_
  · rw [hdepth u, if_neg hu, Nat.sub_zero]
  · rw [hdepth t, if_pos rfl, h.depth t, hplace, hp, ← Nat.add_assoc, Nat.add_sub_cancel]
  · exact fun hor => absurd hor (not_or.mpr ⟨hplace ▸ howes, Nat.lt_irrefl _⟩)

theorem Inv.locking_change (h : Inv w) {q : Place} (hplace : w.place t = q) (hp : q.depth = 0)
    (hdepth : l.base t + p.depth = w.lock.base t + 1)
    (hwriter : ∀ u ≠ t, l.writeThreadId = some u → w.lock.writeThreadId = some u)
    (hreading : ∀ u ≠ t, u ∈ w.lock.reading → u ∈ l.reading) (hfits : Fits l t p)
    (hsound : (∀ u ≠ t, w.lock.writeThreadId ≠ some u) → l.Sound)
    (hwake : 1 ≤ l.noLocksEvent ∨ l.numberReaders ≠ 0 ∨ l.writeThreadId ≠ none ∨ p.Owes) :
    Inv (w.locking t l p) := by
  rw [locking]
  cases hlock : w.mutex.lock? t with
  | none => exact h
  | some m =>
    have hfree := lock?_eq_some_iff.mp ⟨m, hlock⟩
    have hwriters : ∀ u ≠ t, w.lock.writeThreadId ≠ some u := fun u hu => (h.outside hfree u hu).1
    refine h.change hfree (fun u hu => ?_) ?_ (hsound hwriters) ?_ hreading hfits hwake
    · rw [depth_lock? hlock u, if_neg hu, hfree u hu]
    · rw [depth_lock? hlock t, if_pos rfl, h.depth t, hplace, hp, hdepth]
    · exact fun u hu heq => hwriters u hu (hwriter u hu heq)

omit [DecidableEq τ] in
theorem Lock.Sound.read (h : l.Sound) (hwriter : ∀ u ≠ t, l.writeThreadId ≠ some u) (s : Nat) :
    ({ l with noLocksEvent := s }.read t).Sound := by
  refine ⟨congrArg (· + 1) h.readers, h.free, fun u hu => ⟨(h.taken u hu).1, ?_⟩⟩
  have hut : u = t := by_contra (fun hne => hwriter u hne hu)
  subst hut
  exact forall_mem_cons.mpr ⟨rfl, (h.taken u hu).2⟩

omit [DecidableEq τ] in
theorem Lock.Sound.eq_none (h : l.Sound) (hwriter : ∀ u, l.writeThreadId ≠ some u) :
    l.writeThreadId = none ∧ l.writing = [] ∧ l.numberWriters = 0 := by
  have hnone : l.writeThreadId = none := Option.eq_none_iff_forall_ne_some.mpr hwriter
  exact ⟨hnone, h.free hnone⟩

section

variable (h : Inv w)
include h

theorem Inv.nest (hplace : w.place t = .nest) (hwriter : w.lock.writeThreadId = some t) :
    Inv (w.locking t { w.lock with numberWriters := w.lock.numberWriters + 1, writing := t :: w.lock.writing }
      .nested) := by
  refine h.locking_change hplace rfl rfl (fun _ _ heq => heq) (fun _ _ hu => hu) hwriter (fun _ => ?_)
    (.inr (.inr (.inl (by rw [hwriter]; nofun))))
  refine ⟨h.sound.readers, fun hnone => (nomatch hnone.symm.trans hwriter), fun u hu => ?_⟩
  obtain ⟨hwriting, hreading⟩ := h.sound.taken u hu
  have hut : u = t := Option.some.inj (hu.symm.trans hwriter)
  exact ⟨by rw [hwriting, hut, ← replicate_succ], hreading⟩

theorem Inv.waited (hplace : w.place t = .waited) (hwriter : w.lock.writeThreadId ≠ some t)
    (hreaders : w.lock.numberReaders = 0) :
    Inv (w.locking t { w.lock with writeThreadId := some t, writing := t :: w.lock.writing } .idle) := by
  have hbase : w.lock.base t = 0 := if_neg hwriter
  refine h.locking_change hplace rfl (by rw [hbase]; exact if_pos rfl)
    (fun u hu heq => absurd (Option.some.inj heq).symm hu) (fun _ _ hu => hu) trivial (fun hothers => ?_)
    (.inr (.inr (.inl nofun)))
  obtain ⟨_, hwriting, hwriters⟩ := h.sound.eq_none (fun u => by
    by_cases hu : u = t
    · exact hu ▸ hwriter
    · exact hothers u hu)
  have hreading : w.lock.reading = [] := length_eq_zero_iff.mp (h.sound.readers.symm.trans hreaders)
  refine ⟨h.sound.readers, by nofun, fun u hu => ?_⟩
  obtain rfl : t = u := Option.some.inj hu
  exact ⟨by rw [hwriting, hwriters]; rfl, by rw [hreading]; nofun⟩

theorem Inv.leaveWrite {k : After} (hplace : w.place t = .leaveWrite k) (hwriter : w.lock.writeThreadId = some t)
    (hwriters : 0 < w.lock.numberWriters) :
    Inv (w.locking t
      { w.lock with numberWriters := w.lock.numberWriters - 1, writing := w.lock.writing.erase t } (.left k)) := by
  refine h.locking_change hplace rfl rfl (fun _ _ heq => heq) (fun _ _ hu => hu) trivial (fun _ => ?_)
    (.inr (.inr (.inl (by rw [hwriter]; nofun))))
  refine ⟨h.sound.readers, fun hnone => (nomatch hnone.symm.trans hwriter), fun u hu => ?_⟩
  obtain ⟨hwriting, hreading⟩ := h.sound.taken u hu
  have hut : u = t := Option.some.inj (hu.symm.trans hwriter)
  subst hut
  refine ⟨?_, hreading⟩
  rw [hwriting, replicate_succ, erase_cons_head, Nat.sub_add_cancel hwriters]

theorem Inv.dropWrite {k : After} (hplace : w.place t = .dropWrite k) (hwriter : w.lock.writeThreadId = some t)
    (hwriters : w.lock.numberWriters = 0) :
    Inv (w.unlocking t { w.lock with writeThreadId := none, writing := w.lock.writing.erase t } (.signal k)) := by
  have hdepth : w.mutex.depth t = 2 := by
    rw [h.depth t, hplace, Lock.base, if_pos hwriter]
    rfl
  have hfree : ∀ u ≠ t, w.mutex.depth u = 0 := fun u hu => depth_eq_zero_of_ne (by omega) hu
  refine h.change hfree (fun u hu => ?_) ?_ ?_ (fun u _ => by nofun) (fun _ _ hu => hu) trivial
    (.inr (.inr (.inr trivial)))
  · rw [depth_unlock, hfree u hu, Nat.zero_sub]
  · rw [depth_unlock, hdepth, if_pos rfl]
    rfl
  · refine ⟨h.sound.readers, fun _ => ⟨?_, hwriters⟩, by nofun⟩
    rw [(h.sound.taken t hwriter).1, hwriters]
    exact erase_cons_head t []

theorem Inv.leaveRead {k : After} (hplace : w.place t = .leaveRead k) (ht : t ∈ w.lock.reading) (hp : p.depth = 1)
    (hfits : ∀ l, Fits l t p) (hwake : w.lock.numberReaders - 1 ≠ 0 ∨ p.Owes) :
    Inv (w.locking t
      { w.lock with numberReaders := w.lock.numberReaders - 1, reading := w.lock.reading.erase t } p) := by
  refine h.locking_change hplace rfl (by rw [hp]; rfl) (fun _ _ heq => heq)
    (fun u hu hmem => (mem_erase_of_ne hu).mpr hmem) (hfits _) (fun _ => ?_)
    (.inr (hwake.imp_right (.inr)))
  refine ⟨?_, h.sound.free, fun u hu => ?_⟩
  · rw [length_erase_of_mem ht, h.sound.readers]
  · obtain ⟨hwriting, hreading⟩ := h.sound.taken u hu
    exact ⟨hwriting, fun v hv => hreading v (mem_of_mem_erase hv)⟩

theorem Inv.reset (hplace : w.place t = .reset) :
    Inv (w.go t w.mutex ({ w.lock with noLocksEvent := w.lock.noLocksEvent - 1 }.read t) .entered) := by
  have hdepth := h.depth t
  rw [hplace] at hdepth
  have hfree : ∀ u ≠ t, w.mutex.depth u = 0 := fun u hu =>
    depth_eq_zero_of_ne (by rw [hdepth]; exact Nat.succ_pos _) hu
  have hwriter : ∀ u ≠ t, w.lock.writeThreadId ≠ some u := fun u hu => (h.outside hfree u hu).1
  exact h.change hfree hfree hdepth (h.sound.read hwriter _) hwriter (fun _ _ hu => mem_cons_of_mem t hu) trivial
    (.inr (.inl (Nat.succ_ne_zero _)))

theorem Inv.run (t : τ) : Inv (w.run t) := by
  have hfits := h.fits t
  rw [World.run]
  generalize hplace : w.place t = place at hfits ⊢
  cases place with
  | idle => exact h
  | ask => exact h.locking_move hplace rfl trivial nofun
  | asked =>
    dsimp only
    split
    next hwriter => exact h.unlocking_move hplace rfl hwriter nofun
    next hwriter => exact h.unlocking_move hplace rfl hwriter nofun
  | nest => exact h.nest hplace hfits
  | wait =>
    dsimp only
    split
    · exact h
    · exact h.move _ (fun _ _ => rfl) (by rw [h.depth t, hplace]; rfl) hfits (fun _ => .inl trivial)
  | waited =>
    dsimp only
    split
    next hreaders => exact h.waited hplace hfits hreaders
    next hreaders =>
      -- the token is gone, but the readers will post another
      exact h.locking_change hplace rfl rfl (fun _ _ heq => heq) (fun _ _ hu => hu) ⟨hreaders, hfits⟩
        (fun _ => h.sound) (.inr (.inl hreaders))
  | retry => exact h.unlocking_move hplace rfl hfits.2 nofun
  | enter =>
    dsimp only
    split
    next hreaders => exact h.locking_move hplace rfl hreaders nofun
    · exact h.locking_change hplace rfl rfl (fun _ _ heq => heq)
        (fun _ _ hu => mem_cons_of_mem t hu) trivial (fun hwriter => h.sound.read hwriter _)
        (.inr (.inl (Nat.succ_ne_zero _)))
  | reset => exact h.reset hplace
  | nested | entered => exact h.unlocking_move hplace rfl trivial nofun
  | leaveWrite k =>
    dsimp only
    split
    next hwriters => exact h.leaveWrite hplace hfits hwriters
    next hwriters =>
      exact h.locking_move hplace rfl ⟨hfits, Nat.eq_zero_of_not_pos hwriters⟩ nofun
  | dropWrite k => exact h.dropWrite hplace hfits.1 hfits.2
  | leaveRead k =>
    dsimp only
    split
    · exact h.leaveRead hplace hfits rfl (fun _ => trivial) (.inr trivial)
    next hlast => exact h.leaveRead hplace hfits rfl (fun _ => trivial) (.inl hlast)
  | signal k =>
    exact h.move _ (fun _ _ => rfl) (by rw [h.depth t, hplace]; rfl) trivial (fun _ => .inr (Nat.succ_pos _))
  | left k => cases k <;> exact h.unlocking_move hplace rfl trivial nofun

theorem Inv.call (t : τ) (c : Call) : Inv (step w (.call t c)) := by
  simp only [step]
  cases hplace : w.place t with
  | idle =>
    by_cases hmatched : Matched w.lock t c
    · rw [if_pos hmatched]
      have hwriter : t ∈ w.lock.writing → w.lock.writeThreadId = some t := by
        intro hmem
        cases hid : w.lock.writeThreadId with
        | none => rw [(h.sound.free hid).1] at hmem; cases hmem
        | some u => rw [(h.sound.taken u hid).1] at hmem; rw [eq_of_mem_replicate hmem]
      have hfits : Fits w.lock t c.place := by
        cases c with
        | acquireRead | acquireWrite => trivial
        | releaseRead | upgrade => exact hmatched
        | releaseWrite | downgrade => exact hwriter hmatched
      have hdepth : w.mutex.depth t = w.lock.base t + c.place.depth := by
        rw [h.depth t, hplace]
        cases c <;> rfl
      exact h.move w.lock.noLocksEvent (fun _ _ => rfl) hdepth hfits (by rw [hplace]; simp [Place.Owes])
    · rw [if_neg hmatched]
      exact h
  | _ => exact h

end

theorem inv_run (es : List (Event τ)) : Inv (es.foldl step {}) := by
  have hstart : Inv ({} : World τ) :=
    ⟨fun _ => rfl, ⟨rfl, fun _ => ⟨rfl, rfl⟩, by nofun⟩, fun _ => trivial, .inl (Nat.le_refl 1)⟩
  refine List.foldlRecOn es step hstart (fun w hw e _ => ?_)
  cases e with
  | call t c => exact hw.call t c
  | run t => exact hw.run t

/-- After every schedule of matched calls, a thread that holds a write lock is the only one that holds a lock, and
if no lock is held and no operation is in progress the semaphore lets a writer in. -/
theorem mrsw_lock (es : List (Event τ)) :
    let w := es.foldl step {}
    (∀ t ∈ w.lock.writing, ∀ u ∈ w.lock.reading ++ w.lock.writing, u = t) ∧
      (w.lock.reading = [] → w.lock.writing = [] → (∀ t, w.place t = .idle) → 1 ≤ w.lock.noLocksEvent) := by
  have h := inv_run es
  refine ⟨fun t ht u hu => ?_, fun hreading hwriting hidle => ?_⟩
  · cases hid : (es.foldl step {}).lock.writeThreadId with
    | none => rw [(h.sound.free hid).1] at ht; cases ht
    | some v =>
      obtain ⟨hwriting, hreading⟩ := h.sound.taken v hid
      rw [hwriting] at ht hu
      rw [eq_of_mem_replicate ht]
      rcases mem_append.mp hu with hu | hu
      · exact hreading u hu
      · exact eq_of_mem_replicate hu
  · rcases h.wake with hsem | hreaders | hwriter | ⟨t, ht⟩
    · exact hsem
    · exact absurd (h.sound.readers.trans (by rw [hreading]; rfl)) hreaders
    · obtain ⟨t, hid⟩ := Option.ne_none_iff_exists'.mp hwriter
      cases hwriting.symm.trans (h.sound.taken t hid).1
    · rw [hidle t] at ht
      cases ht

theorem World.locking_place (hfree : ∀ u ≠ t, w.mutex.depth u = 0) (l : Lock τ) (p : Place) :
    (w.locking t l p).place t = p := by
  obtain ⟨m, hlock⟩ := lock?_eq_some_iff.mpr hfree
  simp [locking, hlock, go]

/-- A thread that no other keeps from the mutex waits for the semaphore only. -/
theorem World.moves (hfree : ∀ u ≠ t, w.mutex.depth u = 0) (hidle : w.place t ≠ .idle)
    (hwait : w.place t = .wait → w.lock.noLocksEvent ≠ 0) : (w.run t).place t ≠ w.place t := by
  have hlocking := locking_place hfree
  unfold run
  cases hplace : w.place t with
  | idle => exact absurd hplace hidle
  | wait => simp [hwait hplace, go]
  | waited | enter | leaveWrite k | leaveRead k => dsimp only; split <;> simp [hlocking]
  | left k => cases k <;> simp [unlocking, go, After.place]
  | ask | nest => simp [hlocking]
  | asked => dsimp only; split <;> simp [unlocking, go]
  | _ => simp [unlocking, go]

/-- After every schedule of matched calls, all threads are outside of their calls, or one of them can go on, or the
lock is held: by a thread that is outside, or by a reader that waits to write, and so for itself. -/
theorem mrsw_progress (es : List (Event τ)) :
    let w := es.foldl step {}
    (∀ t, w.place t = .idle) ∨ (∃ t, (w.run t).place t ≠ w.place t) ∨
      (∃ t ∈ w.lock.reading ++ w.lock.writing, w.place t = .idle) ∨ ∃ t ∈ w.lock.reading, w.place t = .wait := by
  intro w
  have h : Inv w := inv_run es
  by_cases hall : ∀ t, w.place t = .idle
  · exact .inl hall
  refine .inr ?_
  obtain ⟨t, ht⟩ := not_forall.mp hall
  by_cases howner : ∃ u, 0 < w.mutex.depth u
  · obtain ⟨u, hu⟩ := howner
    have hfree : ∀ v ≠ u, w.mutex.depth v = 0 := fun v hv => depth_eq_zero_of_ne hu hv
    have hwriter : (w.place u).depth = 0 → w.lock.writeThreadId = some u := fun hzero => by
      rw [h.depth u, hzero, Lock.base] at hu
      by_contra hne
      simp [hne] at hu
    by_cases hidle : w.place u = .idle
    · have hwriting := (h.sound.taken u (hwriter (by rw [hidle]; rfl))).1
      exact .inr (.inl ⟨u, mem_append_right _ (by simp [hwriting]), hidle⟩)
    · refine .inl ⟨u, moves hfree hidle fun hwait => ?_⟩
      have hfits := h.fits u
      rw [hwait] at hfits
      exact absurd (hwriter (by rw [hwait]; rfl)) hfits
  · have hzero (u : τ) : w.mutex.depth u = 0 := Nat.eq_zero_of_not_pos fun hu => howner ⟨u, hu⟩
    by_cases hwait : w.place t = .wait → w.lock.noLocksEvent ≠ 0
    · exact .inl ⟨t, moves (fun u _ => hzero u) ht hwait⟩
    obtain ⟨-, hsem⟩ := Classical.not_imp.mp hwait
    rcases h.wake with hsome | hreaders | hwriter | ⟨u, hu⟩
    · exact absurd hsome (by omega)
    · have hreading : w.lock.reading ≠ [] := fun hnil => hreaders (h.sound.readers.trans (by rw [hnil]; rfl))
      obtain ⟨u, hu⟩ := exists_mem_of_ne_nil _ hreading
      by_cases hidle : w.place u = .idle
      · exact .inr (.inl ⟨u, mem_append_left _ hu, hidle⟩)
      by_cases hwaits : w.place u = .wait
      · exact .inr (.inr ⟨u, hu, hwaits⟩)
      · exact .inl ⟨u, moves (fun v _ => hzero v) hidle fun heq => absurd heq hwaits⟩
    · obtain ⟨u, hid⟩ := Option.ne_none_iff_exists'.mp hwriter
      have hdepth := h.depth u
      rw [hzero u, Lock.base, if_pos hid] at hdepth
      omega
    · refine .inl ⟨u, moves (fun v _ => hzero v) (fun hidle => ?_) fun heq => ?_⟩
      · rw [hidle] at hu
        cases hu
      · rw [heq] at hu
        cases hu

end MRSWLock

end OpenMama
