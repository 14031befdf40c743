import OpenMama.Lib.Keyed

/-!
# The routing of a resource pool

`resourcepool.c`: the pool finds its transports and its sources by their names. A transport belongs to a bridge and a
source to a transport, which are not parts of the names.

Strings are lists of characters. Whether the library creates a transport or a source and sets a subscription up is
given with each call, and allocation succeeds.
-/

namespace OpenMama.ResourcePool

open List Keyed Option

abbrev Name := List Char

structure Transport where
  name : Name
  bridge : Name

structure Source where
  transport : Transport
  symbolNamespace : Name

/-- The tables of the pool, which nothing is taken from. -/
structure Pool where
  bridges : List Name
  /-- `mamaResourcePoolImpl_findBridgeNameByTransportName`. -/
  properties : Name → Option Name
  transports : List Transport := []
  sources : List Source := []

/-- A subscription, with the bridge of its queue. -/
structure Subscription where
  transport : Transport
  source : Option Name
  topic : Name
  queue : Name

structure Library where
  createsTransport : Bool := true
  createsSource : Bool := true
  setsUp : Bool := true

/-- A source that a URI can spell. -/
abbrev Segment := { source : Name // source ≠ [] ∧ '/' ∉ source }

inductive Call where
  | fromUri (bridge transport : Name) (source : Segment) (topic : Name) (lib : Library := {})
  | fromComponents (transport : Name) (source : Option Name) (topic : Name) (lib : Library := {})

def splitPath (path : Name) : Option Name × Option Name :=
  let token := path.dropWhile (· = '/')
  let source := token.takeWhile (¬· = '/')
  if source = [] then (none, none)
  else (some source, if source.length < token.length then some (token.drop (source.length + 1)) else none)

namespace Pool

variable (p : Pool)

abbrev transport? (name : Name) : Option Transport := lookup Transport.name name p.transports

abbrev source? (name : Name) : Option Source := lookup Source.symbolNamespace name p.sources

variable (lib : Library)

def findOrCreateTransport (name : Name) (bridge : Option Name) : Pool × Option Transport :=
  match p.transport? name with
  | some existing => (p, some existing)
  | none =>
    match bridge.or ((p.properties name).filter (· ∈ p.bridges)) with
    | none => (p, none)
    | some bridge =>
      if lib.createsTransport then
        ({ p with transports := ⟨name, bridge⟩ :: p.transports }, some ⟨name, bridge⟩)
      else (p, none)

def findOrCreateSource (name : Name) (transport : Transport) : Pool × Option Source :=
  match p.source? name with
  | some source => (p, some source)
  | none =>
    if lib.createsSource then ({ p with sources := ⟨transport, name⟩ :: p.sources }, some ⟨transport, name⟩)
    else (p, none)

/-- `mamaResourcePoolImpl_createSubscriptionFromComponents`. Without a source the topic is copied to 128 characters;
without a topic it is refused. -/
def createSubscription (transport : Transport) :
    Option Name → Option Name → Pool × Option Subscription
  | some source, some topic =>
    match p.findOrCreateSource lib source transport with
    | (p, none) => (p, none)
    | (p, some source) =>
      (p, if lib.setsUp then some ⟨source.transport, some source.symbolNamespace, topic, transport.bridge⟩ else none)
  | none, some topic =>
    (p, if topic.length < 128 ∧ lib.setsUp then some ⟨transport, none, topic, transport.bridge⟩ else none)
  | _, none => (p, none)

def createOn (name : Name) (bridge source topic : Option Name) : Pool × Option Subscription :=
  match p.findOrCreateTransport lib name bridge with
  | (p, none) => (p, none)
  | (p, some transport) => p.createSubscription lib transport source topic

/-- The pool after a call, and the subscription that is returned with `MAMA_STATUS_OK`. -/
def create : Call → Pool × Option Subscription
  | .fromUri bridge transport source topic lib =>
    let path := splitPath ('/' :: (source ++ '/' :: topic))
    if bridge ∈ p.bridges then p.createOn lib transport bridge path.1 path.2 else (p, none)
  | .fromComponents transport source topic lib => p.createOn lib transport none source (some topic)

end Pool

/-! ### What is asked for -/

structure Request where
  bridge : Option Name := none
  transport : Name
  source : Option Name
  topic : Name

def Call.request : Call → Request
  | fromUri bridge transport source topic _ => ⟨bridge, transport, some source, topic⟩
  | fromComponents transport source topic _ => ⟨none, transport, source, topic⟩

/-- The subscription is the one that was asked for. -/
structure Routed (r : Request) (sub : Subscription) : Prop where
  transport : sub.transport.name = r.transport
  bridge : ∀ b, r.bridge = some b → sub.transport.bridge = b
  source : sub.source = r.source
  topic : sub.topic = r.topic
  queue : sub.queue = sub.transport.bridge

/-- The transport of that name is one of the URI's bridge and the source of that name one of the transport, where there
are such already. -/
structure Fits (p : Pool) (r : Request) : Prop where
  bridge : ∀ b, r.bridge = some b → ∀ t, p.transport? r.transport = some t → t.bridge = b
  source : ∀ s, r.source = some s → ∀ src, p.source? s = some src →
    src.transport.name = r.transport

structure Inv (p : Pool) : Prop where
  distinct : (p.transports.map Transport.name).Nodup
  sources : ∀ src ∈ p.sources, src.transport ∈ p.transports

variable {p : Pool} {t : Transport} {sub : Subscription} {r : Request} (lib : Library)

theorem splitPath_eq (source : Segment) (topic : Name) :
    splitPath ('/' :: (source ++ '/' :: topic)) = (some source.1, some topic) := by
  obtain ⟨source, hsource, hslash⟩ := source
  have hall : ∀ c ∈ source, decide (¬c = '/') := fun c hc => decide_eq_true fun heq => hslash (heq ▸ hc)
  have htoken : ('/' :: (source ++ '/' :: topic)).dropWhile (· = '/') = source ++ '/' :: topic := by
    cases source with
    | nil => exact absurd rfl hsource
    | cons c _ => simp [of_decide_eq_true (hall c mem_cons_self)]
  have hfirst : (source ++ '/' :: topic).takeWhile (¬· = '/') = source := by
    rw [takeWhile_append_of_pos hall]
    simp
  simp only [splitPath, htoken, hfirst]
  simp [hsource]

theorem findOrCreateTransport_spec (h : Inv p) {name : Name} {bridge : Option Name} {p' : Pool}
    {found : Option Transport} (heq : p.findOrCreateTransport lib name bridge = (p', found)) :
    Inv p' ∧ p'.source? = p.source? ∧ ∀ t ∈ found, t ∈ p'.transports ∧ t.name = name ∧
      (p.transport? name = some t ∨
        p.transport? name = none ∧ ∀ b ∈ bridge, t.bridge = b) := by
  unfold Pool.findOrCreateTransport at heq
  split at heq
  next hname =>
    cases heq
    refine ⟨h, rfl, fun t ht => ?_⟩
    cases ht
    exact ⟨mem_of_lookup hname, key_of_lookup hname, .inl hname⟩
  next hname =>
    split at heq
    · cases heq
      exact ⟨h, rfl, nofun⟩
    next b hbridge =>
      split at heq
      · cases heq
        refine ⟨⟨nodup_cons.mpr ⟨lookup_eq_none_iff.mp hname, h.distinct⟩, fun src hsrc =>
          mem_cons_of_mem _ (h.sources src hsrc)⟩, rfl, fun t ht => ?_⟩
        cases ht
        refine ⟨mem_cons_self, rfl, .inr ⟨hname, fun b' hb' => ?_⟩⟩
        rw [mem_def.mp hb'] at hbridge
        exact (some.inj hbridge).symm
      · cases heq
        exact ⟨h, rfl, nofun⟩

/-- The transport of a subscription is that of the source if there is one of that name. -/
def serving (p : Pool) (t : Transport) (source : Option Name) : Transport :=
  ((source.bind p.source?).map Source.transport).getD t

theorem createSubscription_spec (h : Inv p) (ht : t ∈ p.transports) (source : Option Name) (topic : Name) :
    let created := p.createSubscription lib t source (some topic)
    Inv created.1 ∧ ∀ sub ∈ created.2, sub = ⟨serving p t source, source, topic, t.bridge⟩ := by
  cases source with
  | none => exact ⟨h, fun sub hsub => (some.inj (ite_none_right_eq_some.mp hsub).2).symm⟩
  | some name =>
    simp only [Pool.createSubscription, Pool.findOrCreateSource, serving, bind_some]
    cases hname : p.source? name with
    | some _ =>
      refine ⟨h, fun sub hsub => ?_⟩
      cases (ite_none_right_eq_some.mp hsub).2
      simp [key_of_lookup hname]
    | none =>
      cases lib.createsSource with
      | false => exact ⟨h, nofun⟩
      | true =>
        exact ⟨⟨h.distinct, forall_mem_cons.mpr ⟨ht, h.sources⟩⟩, fun sub hsub =>
          (some.inj (ite_none_right_eq_some.mp hsub).2).symm⟩

theorem serving_eq_iff (h : Inv p) (ht : t ∈ p.transports) (source : Option Name) :
    (serving p t source).name = t.name ↔ serving p t source = t := by
  refine ⟨inj_on_of_nodup_map h.distinct ?_ ht, congrArg _⟩
  unfold serving
  cases hsrc : source.bind p.source? with
  | none => exact ht
  | some src =>
    obtain ⟨s, -, hs⟩ := bind_eq_some_iff.mp hsrc
    exact h.sources src (mem_of_lookup hs)

theorem createOn_spec (h : Inv p) (r : Request) :
    let created := p.createOn lib r.transport r.bridge r.source (some r.topic)
    Inv created.1 ∧ ∀ sub ∈ created.2, (Routed r sub ↔ Fits p r) := by
  unfold Pool.createOn
  split
  next heq => exact ⟨(findOrCreateTransport_spec lib h heq).1, nofun⟩
  next p' t heq =>
    obtain ⟨hinv, hsources, hspec⟩ := findOrCreateTransport_spec lib h heq
    obtain ⟨hmem, hname, hbridge⟩ := hspec t rfl
    obtain ⟨hinv', hcreated⟩ := createSubscription_spec lib hinv hmem r.source r.topic
    refine ⟨hinv', fun sub hsub => ?_⟩
    obtain rfl := hcreated sub hsub
    have hsame := serving_eq_iff hinv hmem r.source
    rw [hname] at hsame
    have hfound (s : Name) (src : Source) (hs : r.source = some s) (hsrc : p.source? s = some src) :
        serving p' t r.source = src.transport := by
      rw [serving, hsources, hs, bind_some, hsrc]
      rfl
    constructor
    · intro hrouted
      refine ⟨fun b hb t' ht' => ?_, fun s hs src hsrc => ?_⟩
      · rcases hbridge with hold | ⟨hnone, -⟩
        · cases hold.symm.trans ht'
          exact hsame.mp hrouted.transport ▸ hrouted.bridge b hb
        · cases hnone.symm.trans ht'
      · exact hfound s src hs hsrc ▸ hrouted.transport
    · intro hfits
      have hserving : serving p' t r.source = t := by
        cases hsrc : r.source.bind p.source? with
        | none => rw [serving, hsources, hsrc]; rfl
        | some src =>
          obtain ⟨s, hs, hlookup⟩ := bind_eq_some_iff.mp hsrc
          exact hsame.mp (hfound s src hs hlookup ▸ hfits.source s hs src hlookup)
      rw [hserving]
      exact ⟨hname, fun b hb => hbridge.elim (hfits.bridge b hb t) fun hnew => hnew.2 b hb, rfl, rfl, rfl⟩

theorem create_spec (h : Inv p) (call : Call) :
    Inv (p.create call).1 ∧ ∀ sub ∈ (p.create call).2, (Routed call.request sub ↔ Fits p call.request) := by
  cases call with
  | fromUri bridge transport source topic lib =>
    rw [Pool.create, splitPath_eq]
    split
    · exact createOn_spec lib h ⟨bridge, transport, some source, topic⟩
    · exact ⟨h, nofun⟩
  | fromComponents transport source topic lib => exact createOn_spec lib h ⟨none, transport, source, topic⟩

def Pool.after (p : Pool) (calls : List Call) : Pool := calls.foldl (fun p call => (p.create call).1) p

/-- Whatever was created before, at most one transport is created for a name, and a subscription that is returned is the one that
was asked for exactly if the tables hold no other transport or source under its names. -/
theorem routes_iff_fits (bridges : List Name) (properties : Name → Option Name) (calls : List Call) (call : Call) :
    let p := Pool.after ⟨bridges, properties, [], []⟩ calls
    (p.transports.map Transport.name).Nodup ∧ ∀ sub ∈ (p.create call).2, (Routed call.request sub ↔ Fits p call.request) := by
  have hrun : ∀ p, Inv p → Inv (Pool.after p calls) := by
    induction calls with
    | nil => exact fun _ => id
    | cons call _ ih => exact fun p hp => ih _ (create_spec hp call).1
  have hinv := hrun ⟨bridges, properties, [], []⟩ ⟨nodup_nil, nofun⟩
  exact ⟨hinv.distinct, (create_spec hinv call).2⟩

def samplePool : Pool := ⟨[['q'], ['z']], fun _ => some ['q'], [], []⟩

theorem routed_secondTopic :
    ∃ sub, ((samplePool.after [.fromComponents ['t'] (some ['S']) ['A']]).create
      (.fromComponents ['t'] (some ['S']) ['B'])).2 = some sub ∧ Routed ⟨none, ['t'], some ['S'], ['B']⟩ sub := by
  refine ⟨_, rfl, ((routes_iff_fits samplePool.bridges samplePool.properties [.fromComponents ['t'] (some ['S']) ['A']]
    (.fromComponents ['t'] (some ['S']) ['B'])).2 _ rfl).mpr ⟨nofun, fun s hs src hsrc => ?_⟩⟩
  cases hs
  cases hsrc
  rfl

theorem not_routed :
    (∃ sub, ((samplePool.after [.fromComponents ['t'] (some ['S']) ['A']]).create
      (.fromComponents ['u'] (some ['S']) ['A'])).2 = some sub ∧ ¬Routed ⟨none, ['u'], some ['S'], ['A']⟩ sub) ∧
    ∃ sub, ((samplePool.after [.fromComponents ['t'] none ['A']]).create
      (.fromUri ['z'] ['t'] ⟨['S'], by decide⟩ ['A'])).2 = some sub ∧
      ¬Routed ⟨some ['z'], ['t'], some ['S'], ['A']⟩ sub :=
  ⟨⟨_, rfl, fun h => nomatch h.transport⟩, ⟨_, rfl, fun h => nomatch h.bridge _ rfl⟩⟩

end OpenMama.ResourcePool
