import OpenMama.Qpid.FieldList

/-!
# Date-times in a qpid payload

The calls that add or update date-times write what `mamaDateTime_getWithHints` leaves in their variables, and do not
look at its status. What is read goes through `mamaDateTime_setWithHints`, which gives every date-time after the first
day the hint that it has a date.
-/

namespace OpenMama.Qpid

open List FieldNode Value

namespace Payload

variable (p : Payload) (name : Option String) (fid : UInt16)

def addDateTime (t : DateTime) : Payload × Status := p.add name fid (.time t)

def updateDateTime (t : DateTime) : Payload × Status := p.update name fid (.time t)

def addVectorDateTime (ts : List DateTime) : Payload × Status := p.add name fid (.vectorTime ts)

def getDateTime (result : DateTime) : Except Status DateTime :=
  (p.get .time name fid).2.map fun atoms => (((timesOf atoms).getD []).head?.map (setWithHints result)).getD result

def getVectorDateTime : Except Status (List DateTime) :=
  (p.get .vectorTime name fid).2.map fun atoms => ((timesOf atoms).getD []).map (setWithHints {})

end Payload

/-- The call failed and the message still holds the fields, or `a` is read. -/
def Kept {α : Type} (fields : List FieldNode) (r : Payload × Status) (get : Payload → Except Status α) (a : α) : Prop :=
  r.2 ≠ .ok ∧ Holds r.1.body fields ∨ get r.1 = .ok a

section

variable {p : Payload} {fields : List FieldNode} {name : Option String} {fid : UInt16} {v : Value}

theorem get_first {before after : List FieldNode} {f : FieldNode} (h : Holds p.body (before ++ f :: after))
    (hwanted : name ≠ none ∨ fid ≠ 0) (hbefore : ∀ g ∈ before, g.isWanted name fid = false)
    (hf : f.isWanted name fid) {extra : List (Node Atom)} (hnodes : f.value :: f.rest = v.nodes false ++ extra) :
    (p.get v.getter name fid).2 = .ok v.atoms := by
  rw [Payload.get, guard_of_wanted hwanted, if_neg Bool.false_ne_true, findField_of_found h hwanted hbefore hf, hnodes]
  exact congrArg Except.ok (read_nodes v _ _ extra)

variable (h : Holds p.body fields) (hmode : p.insertMode = .mainList) (hwanted : name ≠ none ∨ fid ≠ 0)
include h hmode hwanted

theorem get_add (hnew : fields.any (·.isWanted name fid) = false) (hv : v.isRejected = false) :
    (p.add name fid v).2 = .ok ∧ ((p.add name fid v).1.get v.getter name fid).2 = .ok v.atoms := by
  have hlocation : p.moveDataToInsertLocation = content fields.reverse [] := by
    rw [Payload.moveDataToInsertLocation, hmode, moveDataToContentLocation_eq h, toEnd_content, append_nil]
  rw [Payload.add, hv, guard_of_wanted hwanted, hlocation]
  refine ⟨rfl, get_first (Holds.reset (holds_add name fid v fields)) hwanted (by simpa using hnew) ?_
    (append_nil (v.nodes false) ▸ children_new name fid v)⟩
  rcases hwanted with hname | hfid
  · obtain ⟨_, rfl⟩ := Option.ne_none_iff_exists'.mp hname
    simp [isWanted, FieldNode.new]
  · simp [isWanted, FieldNode.new, hfid]

theorem get_update (t : DateTime) : (p.update name fid (.time t)).2 = .ok
    ∧ ((p.update name fid (.time t)).1.get .time name fid).2 = .ok (getWithHints unread t).atoms := by
  cases hfind : fields.find? (·.isWanted name fid) with
  | none =>
    rw [Payload.update, h.findField_none hwanted hfind]
    exact get_add (p := { p with body := content fields.reverse [] }) (v := .time t) (holds_content_end fields) hmode
      hwanted (by simpa using hfind) rfl
  | some f =>
    obtain ⟨before, after, rfl, hbefore, hf, hfound⟩ := h.findField_some hwanted hfind
    rw [Payload.update, hfound]
    exact ⟨rfl, get_first (v := .time t) (Holds.reset (holds_write true (.time t) before after f)) hwanted hbefore hf
      (write_children true (.time t) f)⟩

end

/-- A date-time that is written to a field, and each of a vector, is read back exactly when it packs. For the calls
that add, the message has no such field. -/
theorem dateTimes_kept_iff (p : Payload) (fields : List FieldNode) (h : Holds p.body fields)
    (hmode : p.insertMode = .mainList) (name : Option String) (fid : UInt16) (hwanted : name ≠ none ∨ fid ≠ 0) :
    (∀ t result, InMicros t →
      (Kept fields (p.updateDateTime name fid t) (·.getDateTime name fid result) t ↔ Packs t)) ∧
    (fields.any (·.isWanted name fid) = false →
      (∀ t result, InMicros t →
        (Kept fields (p.addDateTime name fid t) (·.getDateTime name fid result) t ↔ Packs t)) ∧
      ∀ ts, (∀ t ∈ ts, InMicros t) →
        (Kept fields (p.addVectorDateTime name fid ts) (·.getVectorDateTime name fid) ts ↔ ∀ t ∈ ts, Packs t)) := by
  have hone {r : Payload × Status} {t : DateTime} (result : DateTime) (ht : InMicros t) (hstatus : r.2 = .ok)
      (hget : (r.1.get .time name fid).2 = .ok (getWithHints unread t).atoms) :
      Kept fields r (·.getDateTime name fid result) t ↔ Packs t := by
    have htimes (s : Time) : timesOf s.atoms = some [s] := by simpa using timesOf_atoms [s]
    simp only [Kept, hstatus, Payload.getDateTime, hget, Except.map, htimes, Except.ok.injEq]
    simpa using setWithHints_getWithHints micros_unread ht result
  refine ⟨fun t result ht => ?_, fun hnew => ⟨fun t result ht => ?_, fun ts hts => ?_⟩⟩
  · obtain ⟨hstatus, hget⟩ := get_update h hmode hwanted t
    exact hone result ht hstatus hget
  · obtain ⟨hstatus, hget⟩ := get_add (v := .time t) h hmode hwanted hnew rfl
    exact hone result ht hstatus hget
  · cases ts with
    | nil => exact iff_of_true (.inl ⟨(fun hok => by cases hok), h⟩) (by simp)
    | cons t ts =>
      have hpacks : (∀ s ∈ t :: ts, Packable s) ↔ ∀ s ∈ t :: ts, Packs s :=
        ⟨fun hall s hs => (hall s hs).2, fun hall s hs => ⟨hts s hs, hall s hs⟩⟩
      obtain ⟨hstatus, hget⟩ := get_add (v := .vectorTime (t :: ts)) h hmode hwanted hnew rfl
      rw [← hpacks, ← getAllWithHints_come_back micros_unread, Payload.addVectorDateTime, Kept, hstatus,
        Payload.getVectorDateTime]
      rw [show Getter.vectorTime = (vectorTime (t :: ts)).getter from rfl, hget, Except.map, atoms, timesOf_atoms]
      simp

theorem dateTimes_kept_2026 :
    let t : DateTime := { seconds := 1790000000, nanoseconds := 5000, precision := 6, hints := 3 }
    Kept [] (create.addDateTime none 7 t) (·.getDateTime none 7 {}) t ∧
      Kept [] (create.addVectorDateTime none 7 [t, t]) (·.getVectorDateTime none 7) [t, t] := by
  have hmicros : InMicros { seconds := 1790000000, nanoseconds := 5000, precision := 6, hints := 3 } :=
    ⟨by decide, by decide, by decide, by decide⟩
  obtain ⟨hone, hall⟩ := (dateTimes_kept_iff create [] rfl rfl none 7 (by decide)).2 rfl
  exact ⟨(hone _ {} hmicros).mpr ⟨by decide, by decide⟩, (hall _ (by simp [hmicros])).mpr (by simp [Packs])⟩

theorem not_kept_1969 :
    ¬ Kept [] (create.addDateTime none 7 { seconds := -1 }) (·.getDateTime none 7 {}) { seconds := -1 } ∧
      ¬ Kept [] (create.addDateTime none 7 { seconds := 90000 }) (·.getDateTime none 7 {}) { seconds := 90000 } := by
  constructor
  · rintro (⟨hstatus, -⟩ | hget)
    · exact hstatus rfl
    · cases hget
  · rintro (⟨hstatus, -⟩ | hget)
    · exact hstatus rfl
    · cases hget

end OpenMama.Qpid
