import OpenMama.Queue.Nodes

/-!
# The shape of the queue

`Holds` says which nodes are queued and which are free. The sections of the queue that add a node and that take
one out keep the shape, wherever in the list they do it.
-/

namespace OpenMama

open List Function Ref Queue

namespace Queue

variable {κ δ : Type} {q : Queue κ δ} {nodes free xs ys : List Nat} {n : Nat} {i : Item κ δ}

def ring (nodes : List Nat) : List Ref := .head :: nodes.map .node ++ [.tail]

/-- The nodes are linked in order, and the free ones are apart. -/
structure Holds (q : Queue κ δ) (nodes free : List Nat) : Prop where
  linked : Linked q.nextOf q.prevOf (ring nodes)
  headPrev : q.prevOf .head = .head
  tailNext : q.nextOf .tail = .tail
  stack : Stack q.nextOf .null q.firstFree (free.map .node)
  nodup : (nodes ++ free).Nodup
  allocated : ∀ n ∈ nodes ++ free, n < q.allocated
  count : nodes.length + free.length = q.allocated

def itemsOf (q : Queue κ δ) (nodes : List Nat) : List (Item κ δ) := nodes.map (fun n => q.itemOf (.node n))

theorem node_injective : Function.Injective node := fun _ _ h => node.inj h

theorem mem_ring {r : Ref} : r ∈ ring nodes ↔ r = .head ∨ r ∈ nodes.map .node ∨ r = .tail := by simp [ring]

theorem nodup_ring (h : nodes.Nodup) : (ring nodes).Nodup := by
  have hnodes := h.map node_injective
  rw [ring, cons_append, nodup_cons, nodup_append]
  refine ⟨by simp, hnodes, nodup_singleton _, ?_⟩
  intro a ha b hb
  obtain ⟨m, _, rfl⟩ := mem_map.mp ha
  rw [mem_singleton.mp hb]
  nofun

/-- Neighbours between which a node is put. -/
structure Gap (xs ys : List Nat) (us vs : List Ref) (a b : Ref) : Prop where
  left : Ref.head :: xs.map .node = us ++ [a]
  right : ys.map .node ++ [Ref.tail] = b :: vs

namespace Gap

variable {us vs : List Ref} {a b : Ref} (h : Gap xs ys us vs a b)
include h

theorem ring_eq : ring (xs ++ ys) = us ++ a :: b :: vs := by
  have hsplit : ring (xs ++ ys) = (Ref.head :: xs.map .node) ++ (ys.map .node ++ [Ref.tail]) := by simp [ring]
  rw [hsplit, h.left, h.right, append_assoc]
  rfl

theorem ring_cons_eq (n : Nat) : ring (xs ++ n :: ys) = us ++ a :: .node n :: b :: vs := by
  have hcons : Gap xs (n :: ys) us (b :: vs) a (.node n) := ⟨h.left, by rw [map_cons, cons_append, h.right]⟩
  exact hcons.ring_eq

theorem left_mem : a = .head ∨ ∃ m ∈ xs, a = .node m := by
  have hmem : a ∈ Ref.head :: xs.map .node := h.left ▸ mem_append_right _ (mem_singleton_self a)
  simpa [eq_comm] using hmem

theorem right_mem : b = .tail ∨ ∃ m ∈ ys, b = .node m := by
  have hmem : b ∈ ys.map .node ++ [Ref.tail] := h.right ▸ mem_cons_self
  simpa [eq_comm, or_comm] using hmem

end Gap

namespace Holds

theorem nodes_nodup (h : q.Holds nodes free) : nodes.Nodup := h.nodup.of_append_left

theorem firstFree_eq_null (h : q.Holds nodes free) : q.firstFree = .null ↔ free = [] := by
  rw [h.stack.eq_nil_iff, map_eq_nil_iff]

theorem nextOf_head_cons (h : q.Holds (n :: nodes) free) : q.nextOf .head = .node n := h.linked.first.1

theorem nextOf_head (h : q.Holds nodes free) : q.nextOf .head = .tail ↔ nodes = [] := by
  cases nodes with
  | nil => exact iff_of_true h.linked.first.1 rfl
  | cons n _ => exact iff_of_false (by rw [h.nextOf_head_cons]; nofun) nofun

end Holds

def lastRef (xs : List Nat) : Ref := xs.getLast?.elim .head .node

def firstRef (ys : List Nat) : Ref := ys.head?.elim .tail .node

theorem gap_refs (xs ys : List Nat) : ∃ us vs, Gap xs ys us vs (lastRef xs) (firstRef ys) := by
  obtain ⟨us, hleft⟩ : ∃ us, Ref.head :: xs.map .node = us ++ [lastRef xs] := by
    rcases eq_nil_or_concat' xs with rfl | ⟨xs, x, rfl⟩
    · exact ⟨[], rfl⟩
    · exact ⟨.head :: xs.map .node, by simp [lastRef]⟩
  obtain ⟨vs, hright⟩ : ∃ vs, ys.map .node ++ [Ref.tail] = firstRef ys :: vs := by
    cases ys with
    | nil => exact ⟨[], rfl⟩
    | cons y ys => exact ⟨ys.map .node ++ [.tail], rfl⟩
  exact ⟨us, vs, hleft, hright⟩

theorem Holds.adjacent (h : q.Holds (xs ++ ys) free) :
    q.nextOf (lastRef xs) = firstRef ys ∧ q.prevOf (firstRef ys) = lastRef xs := by
  obtain ⟨_, _, hgap⟩ := gap_refs xs ys
  exact (hgap.ring_eq ▸ h.linked).pair

theorem Holds.first (h : q.Holds nodes free) : q.nextOf .head = firstRef nodes := by
  have hsplit : q.Holds ([] ++ nodes) free := h
  exact hsplit.adjacent.1

theorem Holds.last (h : q.Holds nodes free) : q.prevOf .tail = lastRef nodes := by
  have hsplit : q.Holds (nodes ++ []) free := by rwa [append_nil]
  exact hsplit.adjacent.2

theorem lastRef_concat (xs : List Nat) (n : Nat) : lastRef (xs ++ [n]) = .node n := by
  rw [lastRef, getLast?_concat]
  rfl

theorem Holds.after (h : q.Holds (xs ++ n :: ys) free) : q.nextOf (.node n) = firstRef ys := by
  have hsplit : q.Holds ((xs ++ [n]) ++ ys) free := by rwa [append_assoc]
  exact lastRef_concat xs n ▸ hsplit.adjacent.1

theorem Holds.unique {nodes' free' : List Nat} (h : q.Holds nodes free) (h' : q.Holds nodes' free') :
    nodes = nodes' := by
  have hnodes := h.linked.unique h'.linked (by simp) (by simp)
  exact node_injective.list_map hnodes

/-! ### Adding a node -/

def between (q : Queue κ δ) (a item b : Ref) : Queue κ δ :=
  { q with
    nextOf := update (update q.nextOf item b) a item
    prevOf := update (update q.prevOf item a) b item }

theorem putBefore_eq {a item b : Ref} (h : q.prevOf b = a) : q.putBefore item b = q.between a item b := by
  simp [putBefore, between, h]

theorem putAfter_eq {a item b : Ref} (h : q.nextOf a = b) (ha : a ≠ item) : q.putAfter item a = q.between a item b := by
  simp [putAfter, between, h, update_of_ne ha]

theorem Holds.fill_between (h : q.Holds (xs ++ ys) (n :: free)) {us vs : List Ref} {a b : Ref}
    (hgap : Gap xs ys us vs a b) : ((q.fill i).between a (.node n) b).Holds (xs ++ n :: ys) free := by
  obtain ⟨hfirst, -, hstack⟩ := h.stack
  have hperm : (xs ++ n :: ys ++ free).Perm (xs ++ ys ++ n :: free) := by
    rw [append_assoc, append_assoc]
    exact (perm_append_left_iff xs).mpr perm_middle.symm
  have hnodup := hperm.nodup_iff.mpr h.nodup
  have hn : n ∉ xs ++ ys := fun hmem => disjoint_of_nodup_append h.nodup hmem mem_cons_self
  have hne : node n ∉ ring (xs ++ ys) := by
    rw [mem_ring]
    rintro (hhead | hmem | htail)
    · cases hhead
    · exact hn ((mem_map_of_injective node_injective).mp hmem)
    · cases htail
  have hring := nodup_ring h.nodes_nodup
  have hlinked := h.linked
  rw [hgap.ring_eq] at hlinked hne hring
  have hae : a ≠ .node n := fun heq => hne (heq ▸ by simp)
  have hbe : b ≠ .node n := fun heq => hne (heq ▸ by simp)
  refine ⟨?_, ?_, ?_, ?_, hnodup, fun m hm => h.allocated m (hperm.mem_iff.mp hm), ?_⟩
  · rw [hgap.ring_cons_eq]
    refine hlinked.insert ?_ ?_ hring hne ?_ ?_ ?_ ?_
    · intro x hxa hxe
      simp [between, fill, update_of_ne hxa, update_of_ne hxe]
    · intro x hxb hxe
      simp [between, fill, update_of_ne hxb, update_of_ne hxe]
    · simp [between, fill]
    · simp [between, fill, update_of_ne hae.symm]
    · simp [between, fill]
    · simp [between, fill, update_of_ne hbe.symm]
  · have hb : Ref.head ≠ b := by rcases hgap.right_mem with rfl | ⟨m, _, rfl⟩ <;> nofun
    simp [between, fill, update_of_ne hb, h.headPrev]
  · have ha : Ref.tail ≠ a := by rcases hgap.left_mem with rfl | ⟨m, _, rfl⟩ <;> nofun
    simp [between, fill, update_of_ne ha, h.tailNext]
  · have hstart : ((q.fill i).between a (.node n) b).firstFree = q.nextOf (.node n) := by simp [between, fill, hfirst]
    rw [hstart]
    refine hstack.congr (fun x hx => ?_)
    obtain ⟨m, hm, rfl⟩ := mem_map.mp hx
    -- a free node is neither the new one nor queued
    have hmn : m ≠ n := fun heq => (nodup_cons.mp h.nodup.of_append_right).1 (heq ▸ hm)
    have hma : node m ≠ a := by
      rcases hgap.left_mem with rfl | ⟨k, hk, rfl⟩
      · nofun
      · intro heq
        have hmem : m ∈ xs ++ ys := mem_append_left _ (node_injective heq ▸ hk)
        exact disjoint_of_nodup_append h.nodup hmem (mem_cons_of_mem _ hm)
    simp [between, fill, update_of_ne hma, hmn]
  · have hcount := h.count
    simp only [length_append, length_cons] at hcount ⊢
    change _ = q.allocated
    omega

theorem itemsOf_fill_between (hn : n ∉ xs ++ ys) (hfirst : q.firstFree = .node n) (a b : Ref) :
    ((q.fill i).between a (.node n) b).itemsOf (xs ++ n :: ys) = q.itemsOf xs ++ i :: q.itemsOf ys := by
  have hkeep : ∀ m ∈ xs ++ ys, update q.itemOf (.node n) i (.node m) = q.itemOf (.node m) := by
    intro m _
    refine update_of_ne (fun heq => hn ?_) _ _
    rwa [← node.inj heq]
  rw [forall_mem_append] at hkeep
  simp only [itemsOf, between, fill, hfirst, map_append, map_cons, update_self]
  rw [map_congr_left hkeep.1, map_congr_left hkeep.2]

theorem stack_range' {nextOf : Ref → Ref} {start count : Nat}
    (h : ∀ n, start ≤ n → n < start + count + 1 →
      nextOf (.node n) = if n < start + count then .node (n + 1) else .null) :
    Stack nextOf .null (.node start) ((List.range' start (count + 1)).map .node) := by
  induction count generalizing start with
  | zero => exact ⟨rfl, by nofun, by rw [h start (Nat.le_refl _) (by omega), if_neg (by omega)]; rfl⟩
  | succ count ih =>
    have hrest : Stack nextOf .null (.node (start + 1)) ((List.range' (start + 1) (count + 1)).map .node) := by
      refine ih (fun n hle hlt => ?_)
      rw [h n (by omega) (by omega)]
      simp only [Nat.add_right_comm start 1, ← Nat.add_assoc]
    refine ⟨rfl, by nofun, ?_⟩
    rw [h start (Nat.le_refl _) (by omega), if_pos (by omega)]
    exact hrest

theorem Holds.allocChunk (h : q.Holds nodes []) {items : UInt32} (hitems : items ≠ 0)
    (hroom : ¬ q.maxSize < UInt32.ofNat q.sem + items) :
    (q.allocChunk items).Holds nodes (List.range' q.allocated items.toNat) := by
  obtain ⟨count, hcount⟩ : ∃ count, items.toNat = count + 1 :=
    Nat.exists_eq_succ_of_ne_zero (fun hzero => hitems (UInt32.toNat_inj.mp hzero))
  have hold : ∀ r ∈ ring nodes, (q.allocChunk items).nextOf r = q.nextOf r ∧
      (q.allocChunk items).prevOf r = q.prevOf r := by
    intro r hr
    rw [Queue.allocChunk, if_neg hroom]
    rcases mem_ring.mp hr with rfl | hmem | rfl
    · exact ⟨rfl, rfl⟩
    · obtain ⟨n, hn, rfl⟩ := mem_map.mp hmem
      have hlt := h.allocated n (mem_append_left _ hn)
      constructor
      · exact if_neg (by omega)
      · exact if_neg (by omega)
    · exact ⟨rfl, rfl⟩
  have hnodup : nodes.Nodup := h.nodes_nodup
  have hlt : ∀ n ∈ nodes, n < q.allocated := fun n hn => h.allocated n (mem_append_left _ hn)
  have hallocated : (q.allocChunk items).allocated = q.allocated + items.toNat := by
    rw [Queue.allocChunk, if_neg hroom]
  constructor
  · exact h.linked.congr (fun r hr => (hold r (dropLast_subset _ hr)).1) (fun r hr => (hold r (mem_of_mem_tail hr)).2)
  · rw [(hold .head (mem_ring.mpr (.inl rfl))).2, h.headPrev]
  · rw [(hold .tail (mem_ring.mpr (.inr (.inr rfl)))).1, h.tailNext]
  · rw [hcount]
    rw [Queue.allocChunk, if_neg hroom]
    refine stack_range' (fun n hle hlt => ?_)
    simp only [hcount]
    rw [if_pos (by omega)]
    simp only [← Nat.add_assoc, Nat.add_sub_cancel]
  · rw [nodup_append]
    refine ⟨hnodup, nodup_range', fun a ha b hb heq => ?_⟩
    have := hlt a ha
    have := mem_range'_1.mp hb
    omega
  · intro n hn
    rcases mem_append.mp hn with hn | hn
    · have := hlt n hn
      omega
    · have := mem_range'_1.mp hn
      omega
  · have hlength := h.count
    rw [hallocated, length_range']
    rw [length_nil, Nat.add_zero] at hlength
    rw [hlength]

/-- No node is free and another chunk is beyond the maximum. -/
def Refuses (q : Queue κ δ) : Prop := q.firstFree = .null ∧ q.maxSize < UInt32.ofNat q.sem + q.chunkSize

instance (q : Queue κ δ) : Decidable q.Refuses := inferInstanceAs (Decidable (_ ∧ _))

structure Keeps (q q' : Queue κ δ) : Prop where
  sem : q'.sem = q.sem
  unblocking : q'.unblocking = q.unblocking
  maxSize : q'.maxSize = q.maxSize
  chunkSize : q'.chunkSize = q.chunkSize
  iterator : q'.iterator = q.iterator

theorem reserve_keeps (q : Queue κ δ) : q.Keeps q.reserve ∧ q.reserve.itemOf = q.itemOf := by
  unfold reserve allocChunk
  split
  · split
    · exact ⟨⟨rfl, rfl, rfl, rfl, rfl⟩, rfl⟩
    · exact ⟨⟨rfl, rfl, rfl, rfl, rfl⟩, rfl⟩
  · exact ⟨⟨rfl, rfl, rfl, rfl, rfl⟩, rfl⟩

theorem Holds.reserve (h : q.Holds nodes free) (hchunk : q.chunkSize ≠ 0) (hroom : ¬ q.Refuses) :
    ∃ n free', q.reserve.Holds nodes (n :: free') := by
  by_cases hnull : q.firstFree = .null
  · have hnil := h.firstFree_eq_null.mp hnull
    subst hnil
    have halloc := h.allocChunk hchunk (fun hlt => hroom ⟨hnull, hlt⟩)
    obtain ⟨count, hcount⟩ : ∃ count, q.chunkSize.toNat = count + 1 :=
      Nat.exists_eq_succ_of_ne_zero (fun hzero => hchunk (UInt32.toNat_inj.mp hzero))
    rw [reserve, if_pos hnull]
    rw [hcount] at halloc
    exact ⟨_, _, halloc⟩
  · rw [Queue.reserve, if_neg hnull]
    obtain ⟨n, free', rfl⟩ := exists_cons_of_ne_nil (fun hnil => hnull (h.firstFree_eq_null.mpr hnil))
    exact ⟨n, free', h⟩

theorem Refuses.add_eq (h : q.Refuses) (i : Item κ δ) (put : Queue κ δ → Ref → Queue κ δ) :
    q.add i put = (q, .full) := by
  rw [add, reserve, if_pos h.1, allocChunk, if_pos h.2, if_pos h.1]

theorem Holds.add (h : q.Holds (xs ++ ys) free) (hchunk : q.chunkSize ≠ 0) (hroom : ¬ q.Refuses)
    {us vs : List Ref} {a b : Ref} (hgap : Gap xs ys us vs a b) (put : Queue κ δ → Ref → Queue κ δ)
    (hput : ∀ (q' : Queue κ δ) (n : Nat), q'.iterator = q.iterator → q'.nextOf a = b → q'.prevOf b = a →
      a ≠ .node n → put q' (.node n) = q'.between a (.node n) b) :
    ∃ q' n free', q.add i put = (q', .ok) ∧ q'.Holds (xs ++ n :: ys) free' ∧ q.Keeps q' ∧ n ∉ xs ++ ys ∧
      q'.itemsOf (xs ++ n :: ys) = q.itemsOf xs ++ i :: q.itemsOf ys := by
  obtain ⟨n, free', hreserve⟩ := h.reserve hchunk hroom
  obtain ⟨hkeeps, hitem⟩ := reserve_keeps q
  have hfirst := hreserve.stack.1
  have hpair : q.reserve.nextOf a = b ∧ q.reserve.prevOf b = a := (hgap.ring_eq ▸ hreserve.linked).pair
  have hn : n ∉ xs ++ ys := fun hmem => disjoint_of_nodup_append hreserve.nodup hmem mem_cons_self
  have han : a ≠ .node n := by
    rcases hgap.left_mem with rfl | ⟨m, hm, rfl⟩
    · nofun
    · exact fun heq => hn (mem_append_left _ (node.inj heq ▸ hm))
  refine ⟨(q.reserve.fill i).between a (.node n) b, n, free', ?_, hreserve.fill_between hgap, { hkeeps with }, hn, ?_⟩
  · have hnull : q.reserve.firstFree ≠ .null := by
      rw [hfirst]
      nofun
    rw [Queue.add, hfirst]
    exact congrArg (fun q' => (q', Status.ok)) (hput (q.reserve.fill i) n hkeeps.iterator hpair.1 hpair.2 han)
  · rw [itemsOf_fill_between hn hfirst, itemsOf, itemsOf, hitem]
    rfl

theorem Holds.enqueueSection (h : q.Holds nodes free) (hchunk : q.chunkSize ≠ 0) (hroom : ¬ q.Refuses) (i : Item κ δ) :
    ∃ q' n free', q.enqueueSection i = (q', .ok) ∧ q'.Holds (nodes ++ [n]) free' ∧ q.Keeps q' ∧ n ∉ nodes ∧
      q'.itemsOf (nodes ++ [n]) = q.itemsOf nodes ++ [i] := by
  obtain ⟨_, _, hgap⟩ := gap_refs nodes []
  have hnodes : q.Holds (nodes ++ []) free := by rwa [append_nil]
  obtain ⟨q', n, free', hadd, hholds, hkeeps, hn, hitems⟩ :=
    hnodes.add (i := i) hchunk hroom hgap (fun q item => q.putBefore item .tail)
      (fun q' n _ _ hprev _ => putBefore_eq hprev)
  rw [append_nil] at hn
  exact ⟨q', n, free', hadd, hholds, hkeeps, hn, hitems⟩

theorem Holds.wqRemove (h : q.Holds (xs ++ n :: ys) free) : (q.wqRemove (.node n)).Holds (xs ++ ys) (n :: free) := by
  obtain ⟨_, _, hgap⟩ := gap_refs xs ys
  generalize lastRef xs = a at hgap
  generalize firstRef ys = b at hgap
  have hperm : (xs ++ ys ++ n :: free).Perm (xs ++ n :: ys ++ free) := by
    rw [append_assoc, append_assoc]
    exact (perm_append_left_iff xs).mpr perm_middle
  have hnodup := hperm.nodup_iff.mpr h.nodup
  have hring := nodup_ring h.nodes_nodup
  have hlinked := h.linked
  rw [hgap.ring_cons_eq] at hlinked hring
  obtain ⟨_, hprev, hnext, _⟩ := hlinked.neighbours
  have hae : a ≠ .node n := by grind
  have hremove : q.wqRemove (.node n) =
      { q with
        nextOf := update (update q.nextOf a b) (.node n) q.firstFree
        prevOf := update q.prevOf b a
        firstFree := .node n } := by
    simp [Queue.wqRemove, hprev, hnext, update_of_ne hae.symm]
  rw [hremove]
  refine ⟨?_, ?_, ?_, ?_, hnodup, fun m hm => h.allocated m (hperm.mem_iff.mp hm), ?_⟩
  · rw [hgap.ring_eq]
    refine hlinked.erase ?_ ?_ hring ?_ ?_
    · intro x hxa hxe
      simp [update_of_ne hxa, update_of_ne hxe]
    · intro x hxb _
      simp [update_of_ne hxb]
    · simp [update_of_ne hae]
    · simp
  · have hb : Ref.head ≠ b := by rcases hgap.right_mem with rfl | ⟨m, _, rfl⟩ <;> nofun
    simp [update_of_ne hb, h.headPrev]
  · have ha : Ref.tail ≠ a := by rcases hgap.left_mem with rfl | ⟨m, _, rfl⟩ <;> nofun
    simp [update_of_ne ha, h.tailNext]
  · refine ⟨rfl, by nofun, ?_⟩
    dsimp only
    rw [update_self]
    refine h.stack.congr (fun x hx => ?_)
    obtain ⟨m, hm, rfl⟩ := mem_map.mp hx
    have hfree : m ∉ xs ++ n :: ys := fun hmem => disjoint_of_nodup_append h.nodup hmem hm
    have hmn : m ≠ n := fun heq => hfree (by simp [heq])
    have hma : node m ≠ a := by
      rcases hgap.left_mem with rfl | ⟨k, hk, rfl⟩
      · nofun
      · exact fun heq => hfree (mem_append_left _ (node_injective heq ▸ hk))
    simp [update_of_ne hma, hmn]
  · have hcount := h.count
    simp only [length_append, length_cons] at hcount ⊢
    omega

def took (i : Item κ δ) : Reply κ δ :=
  { status := .ok
    out := some (i.data, i.closure)
    called := i.cb.map (fun cb => (cb, i.data, i.closure)) }

theorem Holds.takeFirst (h : q.Holds (n :: nodes) free) :
    q.takeFirst.1.Holds nodes (n :: free) ∧ q.takeFirst.2 = took (q.itemOf (.node n)) := by
  have hmiddle : q.Holds ([] ++ n :: nodes) free := h
  rw [Queue.takeFirst, h.nextOf_head_cons]
  exact ⟨hmiddle.wqRemove, rfl⟩

theorem Holds.not_holds_takeFirst (h : q.Holds [] free) (nodes' free' : List Nat) :
    ¬ q.takeFirst.1.Holds nodes' free' := by
  intro h'
  have htail : q.takeFirst.1.nextOf .tail = q.firstFree := by
    simp only [Queue.takeFirst, h.nextOf_head.mpr rfl, Queue.wqRemove, update_self]
  have hfirst : q.firstFree ≠ .tail := by
    cases free with
    | nil => exact fun heq => nomatch h.stack.symm.trans heq
    | cons n _ => exact fun heq => nomatch h.stack.1.symm.trans heq
  exact hfirst (htail.symm.trans h'.tailNext)

structure Fresh (q : Queue κ δ) : Prop where
  holds : ∃ free, q.Holds [] free
  sem : q.sem = 0
  unblocking : q.unblocking = false
  iterator : q.iterator = .head
  chunkSize : q.chunkSize ≠ 0
  allocated : q.allocated ≤ q.maxSize.toNat

theorem holds_allocate : (allocate : Queue κ δ).Holds [] [] := by
  refine ⟨?_, rfl, rfl, rfl, nodup_nil, by simp, rfl⟩
  exact isChain_pair.mpr ⟨rfl, rfl⟩

theorem fresh_allocChunk (h : q.Holds [] []) (hsem : q.sem = 0) (hunblocking : q.unblocking = false)
    (hiterator : q.iterator = .head) (hchunk : q.chunkSize ≠ 0) {items : UInt32} (hitems : items ≠ 0)
    (hfirst : (q.allocChunk items).firstFree ≠ .null) : (q.allocChunk items).Fresh := by
  have hroom : ¬ q.maxSize < UInt32.ofNat q.sem + items := by
    intro hlt
    rw [allocChunk, if_pos hlt] at hfirst
    exact hfirst (h.firstFree_eq_null.mpr rfl)
  have hholds := h.allocChunk hitems hroom
  have hle : items ≤ q.maxSize := by
    rw [hsem] at hroom
    simpa using hroom
  have hzero : q.allocated = 0 := h.count.symm
  rw [allocChunk, if_neg hroom] at hholds ⊢
  refine ⟨⟨_, hholds⟩, hsem, hunblocking, hiterator, hchunk, ?_⟩
  rw [hzero, Nat.zero_add]
  exact UInt32.le_iff_toNat_le.mp hle

theorem fresh_create {maxSize initialSize growBySize : UInt32}
    (h : create maxSize initialSize growBySize = (q, .ok)) : q.Fresh := by
  have hchunk : (configure maxSize growBySize : Queue κ δ).chunkSize ≠ 0 := by
    unfold configure
    dsimp only
    split
    · assumption
    · decide
  have hitems : (if initialSize = 0 then chunkSizeDefault else initialSize) ≠ 0 := by
    split
    · decide
    · assumption
  rw [create] at h
  generalize (if initialSize = 0 then chunkSizeDefault else initialSize) = items at h hitems
  split at h
  · cases h
  next hfirst =>
    have hholds : (configure maxSize growBySize : Queue κ δ).Holds [] [] := { holds_allocate (κ := κ) (δ := δ) with }
    rw [← (Prod.mk.inj h).1]
    exact fresh_allocChunk hholds rfl rfl rfl hchunk hitems hfirst

def small : Queue Nat Nat := (create 4 2 2).1

theorem create_small : create 4 2 2 = (small, .ok) := rfl

def first : Item Nat Nat := ⟨some 1, some 10, none⟩

def second : Item Nat Nat := ⟨some 2, some 20, none⟩

end Queue

end OpenMama
