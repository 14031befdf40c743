import Mathlib.Algebra.Group.Nat.Defs
import Mathlib.Data.List.Flatten
import Mathlib.Data.List.Induction
import Mathlib.Data.Nat.Log
import OpenMama.Lib.Keyed

/-!
# Endpoints and deliveries of the qpid bridge

`endpointpool.c` on top of `wtable.c`: the endpoints of a topic are in a hash table under their identifiers, and the
tables of the topics in another one. The hash function is any function, and endpoints are not NULL.

`transport.c` of the bridge queues a message for each subscription of its subject. Only the last one gets the message
itself. The others get a node of the message pool, into which the body and the properties are copied but not the
subject, by which the callback of the queue looks the subscription up once more.
-/

namespace OpenMama.Endpoints

open List Function

/-- `_wtable_t`: a chain of keys and data for each hash value of `size` bits. -/
structure WTable (whash : String → Nat) (δ : Type) where
  size : Nat
  buckets : Nat → List (String × δ)
  placed : ∀ h, ∀ b ∈ buckets h, whash b.1 % 2 ^ size = h
  nodup : ∀ h, ((buckets h).map Prod.fst).Nodup

variable {whash : String → Nat} {δ α β : Type}

namespace WTable

variable (t : WTable whash δ) (key : String)

def create (size : Nat) : WTable whash δ where
  size := max 1 (Nat.clog 2 (size * 10))
  buckets _ := []
  placed := by simp
  nodup := by simp

def hash : Nat := whash key % 2 ^ t.size

def bucket : List (String × δ) := t.buckets (t.hash key)

def lookup : Option δ := (Keyed.lookup Prod.fst key (t.bucket key)).map Prod.snd

def put (chain : List (String × δ)) (hkey : ∀ b ∈ chain, b.1 = key ∨ b ∈ t.bucket key)
    (hnodup : (chain.map Prod.fst).Nodup) : WTable whash δ where
  size := t.size
  buckets := update t.buckets (t.hash key) chain
  placed h b hb := by
    by_cases hh : h = t.hash key
    · subst hh
      rw [update_self] at hb
      rcases hkey b hb with rfl | hold
      · rfl
      · exact t.placed _ b hold
    · rw [update_of_ne hh] at hb
      exact t.placed h b hb
  nodup h := by
    by_cases hh : h = t.hash key
    · rwa [hh, update_self]
    · rw [update_of_ne hh]
      exact t.nodup h

/-- `wtable_insert`: the data of a key that is there is replaced, and a new key comes to the front of its chain. -/
def insert (data : δ) : WTable whash δ :=
  if h : key ∈ (t.bucket key).map Prod.fst then
    t.put key (Keyed.alter Prod.fst key (fun _ => (key, data)) (t.bucket key))
      (fun _ hb => (Keyed.mem_alter hb).imp_left (congrArg Prod.fst)) (Keyed.nodup_alter rfl (t.nodup _))
  else t.put key ((key, data) :: t.bucket key) (by simp +contextual [or_imp]) (nodup_cons.mpr ⟨h, t.nodup _⟩)

def remove : WTable whash δ :=
  t.put key ((t.bucket key).eraseP (·.1 = key)) (fun _ hb => .inr (mem_of_mem_eraseP hb))
    ((t.nodup _).sublist (eraseP_sublist.map _))

def forEach : List (String × δ) := (range (2 ^ t.size)).flatMap t.buckets

variable {t key}

theorem lookup_put {chain : List (String × δ)} {hkey : ∀ b ∈ chain, b.1 = key ∨ b ∈ t.bucket key}
    {hnodup : (chain.map Prod.fst).Nodup} {b : Option (String × δ)}
    (hchain : ∀ k, Keyed.lookup Prod.fst k chain = if key = k then b else Keyed.lookup Prod.fst k (t.bucket key))
    (k : String) : (t.put key chain hkey hnodup).lookup k = if key = k then b.map Prod.snd else t.lookup k := by
  by_cases hh : t.hash k = t.hash key
  · have hbucket : (t.put key chain hkey hnodup).bucket k = chain := (congrArg _ hh).trans (update_self ..)
    rw [lookup, hbucket, hchain, lookup, bucket, bucket, hh]
    split <;> rfl
  · have hbucket : (t.put key chain hkey hnodup).bucket k = t.bucket k := update_of_ne hh ..
    have hne : key ≠ k := fun heq => hh (by rw [heq])
    rw [lookup, hbucket, if_neg hne, lookup]

theorem lookup_create (size : Nat) (k : String) : (create size : WTable whash δ).lookup k = none := rfl

theorem lookup_insert (data : δ) (k : String) :
    (t.insert key data).lookup k = if key = k then some data else t.lookup k := by
  rw [insert]
  split
  · exact lookup_put (fun k => Keyed.lookup_alter rfl k) k
  · exact lookup_put (fun k => Keyed.lookup_cons k (key, data) _) k

theorem lookup_remove (k : String) : (t.remove key).lookup k = if key = k then none else t.lookup k :=
  lookup_put (b := none) (Keyed.lookup_eraseP (t.nodup _)) k

theorem mem_forEach {k : String} {data : δ} : (k, data) ∈ t.forEach ↔ t.lookup k = some data := by
  simp only [forEach, mem_flatMap, mem_range, lookup, Option.map_eq_some_iff]
  constructor
  · rintro ⟨h, -, hb⟩
    obtain rfl : t.hash k = h := t.placed h _ hb
    exact ⟨(k, data), Keyed.lookup_of_mem (t.nodup _) hb, rfl⟩
  · rintro ⟨b, hfound, rfl⟩
    obtain rfl := Keyed.key_of_lookup hfound
    exact ⟨t.hash b.1, Nat.mod_lt _ (Nat.two_pow_pos _), Keyed.mem_of_lookup hfound⟩

theorem nodup_forEach (t : WTable whash δ) : (t.forEach.map Prod.fst).Nodup := by
  rw [forEach, map_flatMap, nodup_flatMap]
  refine ⟨fun h _ => t.nodup h, nodup_range.imp fun hne k hk hk' => ?_⟩
  obtain ⟨b, hb, rfl⟩ := mem_map.mp hk
  obtain ⟨b', hb', heq⟩ := mem_map.mp hk'
  have hhash := t.placed _ b' hb'
  rw [heq] at hhash
  exact hne ((t.placed _ b hb).symm.trans hhash)

end WTable

/-- `endpointPoolImpl`: the tables of the topics. -/
abbrev Pool (whash : String → Nat) (α : Type) := WTable whash (WTable whash α)

namespace Pool

variable (pool : Pool whash α) (topic identifier : String)

def registerWithIdentifier (endpoint : α) : Pool whash α :=
  match pool.lookup topic with
  | none => pool.insert topic ((WTable.create 1).insert identifier endpoint)
  | some registered =>
    match registered.lookup identifier with
    | none => pool.insert topic (registered.insert identifier endpoint)
    | some _ => pool

def unregister : Pool whash α :=
  match pool.lookup topic with
  | none => pool
  | some registered => pool.insert topic (registered.remove identifier)

def entries : List (String × α) := (pool.lookup topic).elim [] WTable.forEach

def getRegistered : List α := (pool.entries topic).map Prod.snd

def isRegistedByContent [DecidableEq α] (content : α) : Bool := content ∈ pool.getRegistered topic

def getEndpointByIdentifiers : Option α := (pool.lookup topic).bind (·.lookup identifier)

variable {pool topic identifier}

theorem find_registerWithIdentifier (endpoint : α) (topic' identifier' : String) :
    (pool.registerWithIdentifier topic identifier endpoint).getEndpointByIdentifiers topic' identifier' =
      if topic = topic' ∧ identifier = identifier' then
        (pool.getEndpointByIdentifiers topic identifier).or (some endpoint)
      else pool.getEndpointByIdentifiers topic' identifier' := by
  unfold registerWithIdentifier getEndpointByIdentifiers
  cases htable : pool.lookup topic with
  | none => grind [WTable.lookup_insert, WTable.lookup_create]
  | some table => cases hfound : table.lookup identifier <;> grind [WTable.lookup_insert]

theorem find_unregister (topic' identifier' : String) :
    (pool.unregister topic identifier).getEndpointByIdentifiers topic' identifier' =
      if topic = topic' ∧ identifier = identifier' then none
      else pool.getEndpointByIdentifiers topic' identifier' := by
  unfold unregister getEndpointByIdentifiers
  cases htable : pool.lookup topic with
  | none => grind
  | some table => grind [WTable.lookup_insert, WTable.lookup_remove]

theorem mem_entries {endpoint : α} :
    (identifier, endpoint) ∈ pool.entries topic ↔ pool.getEndpointByIdentifiers topic identifier = some endpoint := by
  rw [entries, getEndpointByIdentifiers]
  cases pool.lookup topic with
  | none => simp
  | some table => exact WTable.mem_forEach

theorem nodup_entries (pool : Pool whash α) (topic : String) : ((pool.entries topic).map Prod.fst).Nodup := by
  rw [entries]
  cases pool.lookup topic with
  | none => exact nodup_nil
  | some table => exact table.nodup_forEach

end Pool

/-! ### Subscriptions and messages -/

/-- `qpidMsgNode`, with the subject of its proton message. -/
structure Node (α β : Type) where
  subject : Option String
  subscription : α
  body : β

/-- The endpoints of a `qpidTransportBridge`, and the subscriptions that are not muted. -/
structure Transport (whash : String → Nat) (α : Type) where
  subEndpoints : Pool whash α := .create 10
  isNotMuted : α → Bool := fun _ => true

inductive Call (α : Type) where
  | create (subscription : α)
  | mute (subscription : α)
  | destroy (subscription : α)

namespace Transport

variable [DecidableEq α] (subject identifier : α → String) (t : Transport whash α)

def call : Call α → Transport whash α
  | .create c =>
    { subEndpoints := t.subEndpoints.registerWithIdentifier (subject c) (identifier c) c
      isNotMuted := update t.isNotMuted c true }
  | .mute c => { t with isNotMuted := update t.isNotMuted c false }
  | .destroy c => { t with subEndpoints := t.subEndpoints.unregister (subject c) (identifier c) }

/-- The node for the `i`-th of `n` subscriptions: a copy comes with the subject that its node had before. -/
def node (topic : String) (body : β) (recycled : Nat → Option String) (n : Nat) : α × Nat → Node α β
  | (c, i) => ⟨if i + 1 = n then some topic else recycled i, c, body⟩

/-- What `dispatchThread` queues for a message. -/
def dispatch (topic : String) (body : β) (recycled : Nat → Option String) : List (Node α β) :=
  let subs := t.subEndpoints.getRegistered topic
  (subs.zipIdx.filter (t.isNotMuted ·.1)).map (node topic body recycled subs.length)

/-- Whether `queueCallback` gives the message to its subscription. -/
def queueCallback (node : Node α β) : Bool :=
  node.subject.any (t.subEndpoints.isRegistedByContent · node.subscription) && t.isNotMuted node.subscription

end Transport

open Transport

def Call.subscribed [DecidableEq α] (c : α) (now : Bool) : Call α → Bool
  | .create c' => now || c' = c
  | .destroy c' => now && c' ≠ c
  | .mute _ => now

section

variable [DecidableEq α] {subject identifier : α → String} (hid : Injective identifier) (calls : List (Call α))
include hid

theorem find_calls (topic i : String) (c : α) :
    (calls.foldl (call subject identifier) ({} : Transport whash α)).subEndpoints.getEndpointByIdentifiers
        topic i = some c ↔
      i = identifier c ∧ subject c = topic ∧ calls.foldl (Call.subscribed c) false = true := by
  induction calls using List.reverseRecOn generalizing topic i c with
  | nil => simp [Pool.getEndpointByIdentifiers, WTable.lookup_create]
  | append_singleton calls call ih =>
    rw [foldl_append, foldl_append, foldl_cons, foldl_cons, foldl_nil, foldl_nil]
    have hsame (c' : α) : identifier c' = identifier c → c' = c := fun heq => hid heq
    cases call with
    | mute c' => exact ih topic i c
    | create c' =>
      rw [call, Pool.find_registerWithIdentifier]
      have hown (e : Option α) (he : ∀ d, e = some d → identifier c' = identifier d) :
          e.or (some c') = some c' := by
        cases e with
        | none => rfl
        | some d => rw [hid (he d rfl), Option.some_or]
      rw [hown _ fun d hd => ((ih _ _ d).mp hd).1]
      grind [Call.subscribed]
    | destroy c' =>
      rw [call, Pool.find_unregister]
      grind [Call.subscribed]

/-- Whatever subscriptions were created, muted and destroyed: the endpoints of a topic are its subscriptions, each once,
and none is given a message twice. Of those neither muted nor destroyed by the time of the callback, the last one gets
it, and of the others exactly those whose copy was made in a node that had the subject before. -/
theorem message_given_iff (later : List (Call α)) (topic : String) (body : β) (recycled : Nat → Option String) :
    let t : Transport whash α := calls.foldl (call subject identifier) {}
    let t' : Transport whash α := later.foldl (call subject identifier) t
    let subs := t.subEndpoints.getRegistered topic
    let given := ((t.dispatch topic body recycled).filter t'.queueCallback).map Node.subscription
    subs.Nodup ∧ (∀ c, c ∈ subs ↔ subject c = topic ∧ calls.foldl (Call.subscribed c) false = true) ∧
      given.Sublist subs ∧ ∀ c, c ∈ given ↔ ∃ i, subs[i]? = some c ∧ t.isNotMuted c ∧ t'.isNotMuted c ∧
        (calls ++ later).foldl (Call.subscribed c) false = true ∧ (i + 1 < subs.length → recycled i = some topic) := by
  intro t t' subs given
  have hmem (calls : List (Call α)) (c : α) (topic : String) :
      c ∈ (calls.foldl (call subject identifier) ({} : Transport whash α)).subEndpoints.getRegistered topic ↔
        subject c = topic ∧ calls.foldl (Call.subscribed c) false = true := by
    simp only [Pool.getRegistered, mem_map, Prod.exists, exists_eq_right, Pool.mem_entries, find_calls hid,
      exists_eq_left]
  refine ⟨?_, fun c => hmem calls c topic, ?_, fun c => ?_⟩
  · have hsame : (t.subEndpoints.entries topic).map Prod.fst = subs.map identifier := by
      rw [show subs = (t.subEndpoints.entries topic).map Prod.snd from rfl, map_map]
      apply map_congr_left
      intro b hb
      exact ((find_calls hid calls topic b.1 b.2).mp (Pool.mem_entries.mp hb)).1
    have hkeys := t.subEndpoints.nodup_entries topic
    rw [hsame] at hkeys
    exact hkeys.of_map
  · have hlist : subs.zipIdx.map Prod.fst = subs := zipIdx_map_fst 0 subs
    rw [← hlist]
    simp only [given, dispatch, filter_map, map_map]
    exact (filter_sublist.trans filter_sublist).map _
  · have ht' : t' = (calls ++ later).foldl (call subject identifier) {} := foldl_append.symm
    have hnode (c : α) (i : Nat) (hi : subs[i]? = some c) :
        t'.queueCallback (node topic body recycled subs.length (c, i)) = true ↔ t'.isNotMuted c ∧
          (calls ++ later).foldl (Call.subscribed c) false = true ∧
            (i + 1 < subs.length → recycled i = some topic) := by
      have hlt : i < subs.length := by grind
      obtain ⟨htopic, -⟩ := (hmem calls c topic).mp (mem_of_getElem? hi)
      simp only [queueCallback, node, Pool.isRegistedByContent, ht', hmem, htopic]
      split <;> cases recycled i <;> grind
    simp only [given, dispatch, mem_map, mem_filter, Prod.exists, mem_zipIdx_iff_getElem?]
    constructor
    · rintro ⟨_, ⟨⟨c, i, ⟨hi, hmute⟩, rfl⟩, hnext⟩, rfl⟩
      exact ⟨i, hi, hmute, (hnode c i hi).mp hnext⟩
    · rintro ⟨i, hi, hmute, hc⟩
      exact ⟨_, ⟨⟨c, i, ⟨hi, hmute⟩, rfl⟩, (hnode c i hi).mpr hc⟩, rfl⟩

end

def twoCalls : List (Call Bool) := [.create true, .create false]

theorem message_given_iff_twoCalls :
    true ∈ (twoCalls.foldl (call (fun _ => "MSFT") toString)
      ({} : Transport String.length Bool)).subEndpoints.getRegistered "MSFT" :=
  ((message_given_iff (by unfold Injective; decide) twoCalls [] "MSFT" () fun _ => none).2.1 true).mpr ⟨rfl, rfl⟩

end OpenMama.Endpoints
