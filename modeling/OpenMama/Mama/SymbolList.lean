import OpenMama.Lib.Run

/-!
# Symbol lists

The members of a `mamaSymbolList` are nodes of a `wList`. `mamaSymbolList_findMember` does not compare the symbol that
it is given, and compares 64 characters of the source. `behaves_iff` says when that selects the right member.
-/

namespace OpenMama

open List

structure SymbolListMember where
  symbol : List Char
  source : List Char
  transport : Nat
  deriving DecidableEq

/-- `mamaSymbolListImpl`: its nodes, and those for which the remove callback was invoked. -/
structure SymbolList where
  members : List (Nat × SymbolListMember) := []
  removed : List Nat := []
  deriving DecidableEq

namespace SymbolList

inductive Op where
  | addMember (ref : Nat) (member : SymbolListMember)
  | findMember (key : SymbolListMember)
  | removeMember (key : SymbolListMember)
  | removeMemberByRef (ref : Nat)
  | clear (membersToo : Bool)

variable (s : SymbolList) (key : SymbolListMember)

def alike (node : Nat × SymbolListMember) : Bool :=
  key.source.take 64 = node.2.source.take 64 ∧ key.transport = node.2.transport

def findMember : Option (Nat × SymbolListMember) := s.members.find? (alike key)

def removeMemberByRef (ref : Nat) : SymbolList :=
  { members := s.members.eraseP (·.1 = ref), removed := s.removed ++ [ref] }

def removeMember : SymbolList × Option (Nat × SymbolListMember) :=
  match s.findMember key with
  | none => (s, none)
  | some node => (s.removeMemberByRef node.1, some node)

/-- `list_for_each` with `mamaSymbolListImpl_removeMember`: it reads the node behind before it removes one. -/
def forEach (s : SymbolList) : Nat → Option Nat → Option SymbolList
  | _, none => some s
  | 0, some _ => none
  | fuel + 1, some cur =>
    let next := (s.members.dropWhile (·.1 ≠ cur)).tail.head?
    forEach (s.removeMemberByRef cur) fuel (next.map Prod.fst)

def clear (membersToo : Bool) : Option SymbolList :=
  if membersToo then s.forEach s.members.length (s.members.head?.map Prod.fst) else some s

def step : Op → SymbolList
  | .addMember ref member => { s with members := s.members ++ [(ref, member)] }
  | .findMember _ => s
  | .removeMember key => (s.removeMember key).1
  | .removeMemberByRef ref => s.removeMemberByRef ref
  | .clear membersToo => (s.clear membersToo).getD s

def Admits : Op → Prop
  | .removeMemberByRef ref => ref ∈ s.members.map Prod.fst
  | _ => True

/-- One node with the reference is taken out of the list, and the callback is invoked for it. -/
def TakesOut (s s' : SymbolList) (ref : Nat) : Prop :=
  ∃ before member after, s.members = before ++ (ref, member) :: after
    ∧ s' = { members := before ++ after, removed := s.removed ++ [ref] }

/-- The list is a sequence of members: a search is for the first that is equal to the key. -/
def Behaves : Op → Prop
  | .addMember ref member =>
    (s.step (.addMember ref member)).members = s.members ++ [(ref, member)]
      ∧ (s.step (.addMember ref member)).removed = s.removed
  | .findMember key => s.findMember key = s.members.find? (·.2 = key)
  | .removeMember key =>
    match s.members.find? (·.2 = key) with
    | none => s.removeMember key = (s, none)
    | some node => ∃ s', s.removeMember key = (s', some node) ∧ s.TakesOut s' node.1
  | .removeMemberByRef ref => s.TakesOut (s.removeMemberByRef ref) ref
  | .clear membersToo => s.clear membersToo =
      some (if membersToo then { removed := s.removed ++ s.members.map Prod.fst } else s)

/-- The first member with this transport and these 64 characters of the source is the one that is asked for. -/
def Picks : Op → Prop
  | .findMember key | .removeMember key => ∀ node ∈ (s.members.filter (alike key)).head?, node.2 = key
  | _ => True

variable {s key}

theorem findMember_eq_iff :
    s.findMember key = s.members.find? (·.2 = key) ↔ ∀ node ∈ (s.members.filter (alike key)).head?, node.2 = key := by
  rw [findMember, head?_filter]
  induction s.members with
  | nil => simp
  | cons node _ ih =>
    by_cases hkey : node.2 = key
    · simp [show alike key node = true by simp [alike, hkey], hkey]
    · cases halike : alike key node with
      | true =>
        simp only [find?_cons, halike, hkey, decide_false]
        refine iff_of_false (fun heq => hkey ?_) (fun hall => hkey (hall node rfl))
        simpa using find?_some heq.symm
      | false => simpa [find?_cons, halike, hkey] using ih

theorem forEach_eq (s : SymbolList) : s.forEach s.members.length (s.members.head?.map Prod.fst) =
    some { removed := s.removed ++ s.members.map Prod.fst } := by
  obtain ⟨members, removed⟩ := s
  induction members generalizing removed with
  | nil => simp [forEach]
  | cons node _ ih => simpa [forEach, removeMemberByRef] using ih (removed ++ [node.1])

theorem takesOut_removeMemberByRef {ref : Nat} (h : ref ∈ s.members.map Prod.fst) :
    s.TakesOut (s.removeMemberByRef ref) ref := by
  obtain ⟨node, hnode, rfl⟩ := mem_map.mp h
  obtain ⟨⟨ref, member⟩, before, after, -, hp, hmembers, herase⟩ :=
    exists_of_eraseP (p := (·.1 = node.1)) hnode (by simp)
  obtain rfl : ref = node.1 := by simpa using hp
  exact ⟨before, member, after, hmembers, by rw [removeMemberByRef, herase]⟩

theorem removeMember_iff :
    s.Behaves (.removeMember key) ↔ s.findMember key = s.members.find? (·.2 = key) := by
  rw [Behaves, removeMember]
  cases hfirst : s.members.find? (·.2 = key) with
  | none => cases s.findMember key <;> simp
  | some node =>
    have htakes := takesOut_removeMemberByRef (mem_map_of_mem (mem_of_find?_eq_some hfirst))
    cases s.findMember key with
    | none => simp
    | some found =>
      constructor
      · rintro ⟨_, heq, -⟩
        exact (Prod.ext_iff.mp heq).2
      · intro hfound
        obtain rfl := Option.some.inj hfound
        exact ⟨_, rfl, htakes⟩

theorem behaves_iff_picks {op : Op} (hop : s.Admits op) : s.Behaves op ↔ s.Picks op := by
  cases op with
  | addMember _ _ => exact iff_of_true ⟨rfl, rfl⟩ trivial
  | findMember _ => exact findMember_eq_iff
  | removeMember _ => exact removeMember_iff.trans findMember_eq_iff
  | removeMemberByRef _ => exact iff_of_true (takesOut_removeMemberByRef hop) trivial
  | clear membersToo =>
    cases membersToo with
    | false => exact iff_of_true rfl trivial
    | true => exact iff_of_true s.forEach_eq trivial

/-- The list behaves as a sequence exactly when each search meets first the member that is asked for. -/
theorem behaves_iff (ops : List Op) (hops : Along step Admits {} ops) :
    Along step Behaves {} ops ↔ Along step Picks {} ops :=
  Along.congr_along (I := fun _ => True) trivial hops fun _ _ _ hop => ⟨behaves_iff_picks hop, fun _ => trivial⟩

def ibm : SymbolListMember := { symbol := ['I', 'B', 'M'], source := ['N', 'Y'], transport := 1 }

theorem behaves_removed : Along step Behaves {} [.addMember 1 ibm, .removeMember ibm, .findMember ibm] := by
  refine (behaves_iff _ ?_).mpr ⟨trivial, ?_, ?_, trivial⟩
  · exact ⟨trivial, trivial, trivial, trivial⟩
  · simp [Picks, step]
  · simp [Picks, step, removeMember, findMember, alike, removeMemberByRef]

theorem not_behaves_otherSymbol :
    ¬ Along step Behaves {} [.addMember 1 ibm, .findMember { ibm with symbol := ['F'] }] := by
  rintro ⟨-, hfind, -⟩
  rw [Behaves] at hfind
  exact absurd hfind (by decide)

end SymbolList

end OpenMama
