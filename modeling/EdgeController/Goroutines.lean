import EdgeController.IndexInvariants
import Mathlib.Data.List.Perm.Basic

/-! The eight goroutines `Start` launches, over one cache. The cache takes one lock per index
(spec §4.1), so `DeleteNode` and `AddOrUpdatePod` run one critical section per index they write,
in an order the cache chooses; `EdgeClusters.Range` visits one key at a time and skips a key
deleted before its turn (spec §9). A step is one critical section or one local action of one
goroutine, and a schedule is any interleaving. -/
namespace EdgeController.Goroutines

variable (b : Builders)

inductive Loop where
  | pod
  | configMap
  | secret
  | node
  | rule
  | ruleEndpoint
  | mission
  | edgeCluster
  deriving DecidableEq, Repr

/-- The indices of the cache, each behind its own lock. -/
inductive Section where
  | edgeNodes
  | configMapNode
  | secretNode
  | pods
  deriving DecidableEq, Repr

/-- The order in which the cache, which lives outside this repository, takes its locks. -/
structure LockOrder where
  deleteNode : List Section
  deleteNode_perm : deleteNode.Perm [.edgeNodes, .configMapNode, .secretNode]
  addOrUpdatePod : List Section
  addOrUpdatePod_perm : addOrUpdatePod.Perm [.pods, .configMapNode, .secretNode]

variable (o : LockOrder)

def deleteNodeSection (name : String) (lc : LocationCache) : Section → LocationCache
  | .edgeNodes => { lc with edgeNodes := Function.update lc.edgeNodes name none }
  | .configMapNode => { lc with configMapNode := fun ns c => (lc.configMapNode ns c).filter (· ≠ name) }
  | .secretNode => { lc with secretNode := fun ns c => (lc.secretNode ns c).filter (· ≠ name) }
  | .pods => lc

/-- The section of `AddOrUpdatePod` on one index; the pod loop reads `record` and `old` when it takes the pod. -/
def addPodSection (pod : Pod) (record : List PodEntry) (old : Option PodEntry) (lc : LocationCache) :
    Section → LocationCache
  | .pods => { lc with pods := upsert lc.pods (.ofPod pod), podKeys := upsert_keys lc.podKeys _ }
  | .configMapNode =>
    { lc with configMapNode := reindex lc.configMapNode record PodEntry.configMaps old (.ofPod pod) }
  | .secretNode => { lc with secretNode := reindex lc.secretNode record PodEntry.secrets old (.ofPod pod) }
  | .edgeNodes => lc

/-- The sections touch distinct indices, so in any order they make up `DeleteNode`. -/
theorem foldl_deleteNodeSection (name : String) (lc : LocationCache) :
    o.deleteNode.foldl (deleteNodeSection name) lc = lc.deleteNode name := by
  rw [o.deleteNode_perm.foldl_eq' fun x _ y _ _ => by cases x <;> cases y <;> rfl]
  rfl

theorem foldl_addPodSection (pod : Pod) (lc : LocationCache) :
    o.addOrUpdatePod.foldl (addPodSection pod (upsert lc.pods (.ofPod pod))
      (lc.pods.find? (·.key == (PodEntry.ofPod pod).key))) lc = lc.addOrUpdatePod pod := by
  rw [o.addOrUpdatePod_perm.foldl_eq' fun x _ y _ _ => by cases x <;> cases y <;> rfl]
  rfl

inductive PodPc where
  | idle
  | adding (pod : Pod) (record : List PodEntry) (old : Option PodEntry) (sections : List Section)
      (msg : Message)
  deriving DecidableEq

inductive NodePc where
  | idle
  | updating (name : String) (conditions : List NodeCondition)
  | deleting (name : String) (sections : List Section) (msgs : List Message)
  deriving DecidableEq

inductive MountPc where
  | idle
  | purging (ns name : String) (msgs : List Message)
  deriving DecidableEq

/-- The mission loop is idle, or inside `EdgeClusters.Range` with the keys left to visit. -/
inductive MissionPc where
  | idle
  | ranging (mission : Mission) (operation : String) (keys : List String)
  deriving DecidableEq

structure System where
  lc : LocationCache
  operation : String
  podQueue : List Event
  configMapQueue : List Event
  secretQueue : List Event
  nodeQueue : List Event
  ruleQueue : List Event
  ruleEndpointQueue : List Event
  missionQueue : List Event
  edgeClusterQueue : List (Event × Except String (List Mission))
  podPc : PodPc
  nodePc : NodePc
  configMapPc : MountPc
  secretPc : MountPc
  missionPc : MissionPc
  sent : List Message

/-- Up to `AddOrUpdatePod`, one iteration of `syncPod`. -/
def podCheck (s : System) (e : Event) : System :=
  match e.object with
  | .pod pod =>
    if s.lc.isEdgeNode pod.spec.nodeName then
      let built := b.buildResource pod.spec.nodeName pod.«namespace» resourceTypePod pod.name
      match built.err with
      | some _ => s
      | none =>
        let msg := fun operation => routed pod.resourceVersion built.resource operation (.pod pod)
        let adding := PodPc.adding pod (upsert s.lc.pods (.ofPod pod))
          (s.lc.pods.find? (·.key == (PodEntry.ofPod pod).key)) o.addOrUpdatePod
        match e.type with
        | .added => { s with podPc := adding (msg insertOperation) }
        | .deleted => { s with sent := s.sent ++ [msg deleteOperation] }
        | .modified => { s with podPc := adding (msg updateOperation) }
        | _ => s
    else s
  | _ => s

def nodeFetch (s : System) (e : Event) : System :=
  match e.object with
  | .node node =>
    match e.type with
    | .added | .modified => { s with nodePc := .updating node.name node.conditions }
    | .deleted =>
      let built := b.buildResource node.name "namespace" resourceNode node.name
      { s with
        nodePc := .deleting node.name o.deleteNode (match built.err with
          | none => [routed "" built.resource deleteOperation .none]
          | some _ => []) }
    | _ => s
  | _ => s

/-- Up to its purge, one iteration of `syncConfigMap` or `syncSecret`; a `Deleted` event holds its messages back. -/
def mountFetch (sync : LocationCache → Event → LocationCache × List Message)
    (key : Object → Option (String × String)) (lc : LocationCache) (e : Event) :
    MountPc × List Message :=
  match e.type, key e.object with
  | .deleted, some (ns, name) => (.purging ns name (sync lc e).2, [])
  | _, _ => (.idle, (sync lc e).2)

def configMapKey : Object → Option (String × String)
  | .configMap cm => some (cm.«namespace», cm.name)
  | _ => none

def secretKey : Object → Option (String × String)
  | .secret secret => some (secret.«namespace», secret.name)
  | _ => none

def mountStep (fetch : LocationCache → Event → MountPc × List Message)
    (purge : LocationCache → String → String → LocationCache) (lc : LocationCache) :
    MountPc → List Event → LocationCache × MountPc × List Event × List Message
  | .purging ns name msgs, queue => (purge lc ns name, .idle, queue, msgs)
  | .idle, e :: rest => ((lc, (fetch lc e).1, rest, (fetch lc e).2))
  | .idle, [] => (lc, .idle, [], [])

/-- Up to `Range`, one iteration of `syncMissions`. -/
def missionFetch (s : System) (e : Event) : System :=
  match e.object with
  | .mission mission =>
    match eventOperation e.type with
    | none => s
    | some assigned =>
      { s with operation := assigned, missionPc := .ranging mission assigned s.lc.edgeClusters }
  | _ => s

/-- What the `Range` callback sends for the key `c`, if `c` is still in `EdgeClusters`. -/
def visit (lc : LocationCache) (mission : Mission) (operation c : String) : List Message :=
  if c ∈ lc.edgeClusters then
    fanOut b [c] "default" resourceTypeMission mission.name mission.resourceVersion operation
      (.mission mission)
  else []

/-- One step of one goroutine: one critical section or one local action. -/
def advance : Loop → System → System
  | .pod, s =>
    match s.podPc, s.podQueue with
    | .adding pod record old (sec :: rest) msg, _ =>
      { s with lc := addPodSection pod record old s.lc sec, podPc := .adding pod record old rest msg }
    | .adding _ _ _ [] msg, _ => { s with podPc := .idle, sent := s.sent ++ [msg] }
    | .idle, e :: rest => podCheck b o { s with podQueue := rest } e
    | .idle, [] => s
  | .node, s =>
    match s.nodePc, s.nodeQueue with
    | .updating name (nsc :: rest), _ =>
      { s with lc := readyCondition name s.lc nsc, nodePc := .updating name rest }
    | .updating _ [], _ => { s with nodePc := .idle }
    | .deleting name (sec :: rest) msgs, _ =>
      { s with lc := deleteNodeSection name s.lc sec, nodePc := .deleting name rest msgs }
    | .deleting _ [] msgs, _ => { s with nodePc := .idle, sent := s.sent ++ msgs }
    | .idle, e :: rest => nodeFetch b o { s with nodeQueue := rest } e
    | .idle, [] => s
  | .configMap, s =>
    let r := mountStep (mountFetch (syncConfigMap b) configMapKey) LocationCache.deleteConfigMap
      s.lc s.configMapPc s.configMapQueue
    { s with lc := r.1, configMapPc := r.2.1, configMapQueue := r.2.2.1, sent := s.sent ++ r.2.2.2 }
  | .secret, s =>
    let r := mountStep (mountFetch (syncSecret b) secretKey) LocationCache.deleteSecret
      s.lc s.secretPc s.secretQueue
    { s with lc := r.1, secretPc := r.2.1, secretQueue := r.2.2.1, sent := s.sent ++ r.2.2.2 }
  | .rule, s =>
    match s.ruleQueue with
    | e :: rest => { s with ruleQueue := rest, sent := s.sent ++ syncRule b e }
    | [] => s
  | .ruleEndpoint, s =>
    match s.ruleEndpointQueue with
    | e :: rest => { s with ruleEndpointQueue := rest, sent := s.sent ++ syncRuleEndpoint b e }
    | [] => s
  | .mission, s =>
    match s.missionPc, s.missionQueue with
    | .ranging mission operation (c :: keys), _ =>
      { s with
        missionPc := .ranging mission operation keys
        sent := s.sent ++ visit b s.lc mission operation c }
    | .ranging _ _ [], _ => { s with missionPc := .idle }
    | .idle, e :: rest => missionFetch { s with missionQueue := rest } e
    | .idle, [] => s
  | .edgeCluster, s =>
    match s.edgeClusterQueue with
    | (e, missionList) :: rest =>
      let r := syncEdgeClusters b s.lc missionList e
      { s with edgeClusterQueue := rest, lc := r.1, sent := s.sent ++ r.2 }
    | [] => s

def execute : List Loop → System → System
  | [], s => s
  | loop :: schedule, s => execute schedule (advance b o loop s)

def loopOf : Input → Loop
  | .pod _ => .pod
  | .configMap _ => .configMap
  | .secret _ => .secret
  | .node _ => .node
  | .rule _ => .rule
  | .ruleEndpoint _ => .ruleEndpoint
  | .mission _ => .mission
  | .edgeCluster _ _ => .edgeCluster

def eventOf : Input → Event
  | .pod e | .configMap e | .secret e | .node e | .rule e | .ruleEndpoint e | .mission e
  | .edgeCluster e _ => e

def queueOf (loop : Loop) (inputs : List Input) : List Event :=
  (inputs.filter (loopOf · == loop)).map eventOf

@[simp] theorem queueOf_cons (loop : Loop) (i : Input) (inputs : List Input) :
    queueOf loop (i :: inputs) =
      if loopOf i = loop then eventOf i :: queueOf loop inputs else queueOf loop inputs := by
  by_cases own : loopOf i = loop <;> simp [queueOf, List.filter_cons, own]

def edgeClusterEntries (inputs : List Input) : List (Event × Except String (List Mission)) :=
  inputs.filterMap fun
    | .edgeCluster e missionList => some (e, missionList)
    | _ => none

/-- The system as `Start` leaves it: each goroutine idle with `inputs` on its queues. -/
def load (c : Controller) (sent : List Message) (inputs : List Input) : System where
  lc := c.lc
  operation := c.operation
  podQueue := queueOf .pod inputs
  configMapQueue := queueOf .configMap inputs
  secretQueue := queueOf .secret inputs
  nodeQueue := queueOf .node inputs
  ruleQueue := queueOf .rule inputs
  ruleEndpointQueue := queueOf .ruleEndpoint inputs
  missionQueue := queueOf .mission inputs
  edgeClusterQueue := edgeClusterEntries inputs
  podPc := .idle
  nodePc := .idle
  configMapPc := .idle
  secretPc := .idle
  missionPc := .idle
  sent := sent

/-! ### What one step does -/

inductive PodStep (s : System) : System → Prop where
  | addSection {pod record old sec rest msg} (adding : s.podPc = .adding pod record old (sec :: rest) msg) :
      PodStep s { s with lc := addPodSection pod record old s.lc sec, podPc := .adding pod record old rest msg }
  | send {pod record old msg} (adding : s.podPc = .adding pod record old [] msg) :
      PodStep s { s with podPc := .idle, sent := s.sent ++ [msg] }
  | take {e rest} (idle : s.podPc = .idle) (next : s.podQueue = e :: rest) :
      PodStep s (podCheck b o { s with podQueue := rest } e)
  | stutter (idle : s.podPc = .idle) (empty : s.podQueue = []) : PodStep s s

theorem podStep_advance (s : System) : PodStep b o s (advance b o .pod s) := by
  dsimp only [advance]
  split
  · exact .addSection ‹_›
  · exact .send ‹_›
  · exact .take ‹_› ‹_›
  · exact .stutter ‹_› ‹_›

inductive NodeStep (s : System) : System → Prop where
  | condition {name nsc rest} (updating : s.nodePc = .updating name (nsc :: rest)) :
      NodeStep s { s with lc := readyCondition name s.lc nsc, nodePc := .updating name rest }
  | updated {name} (updating : s.nodePc = .updating name []) : NodeStep s { s with nodePc := .idle }
  | deleteSection {name sec rest msgs} (deleting : s.nodePc = .deleting name (sec :: rest) msgs) :
      NodeStep s { s with lc := deleteNodeSection name s.lc sec, nodePc := .deleting name rest msgs }
  | send {name msgs} (deleting : s.nodePc = .deleting name [] msgs) :
      NodeStep s { s with nodePc := .idle, sent := s.sent ++ msgs }
  | take {e rest} (idle : s.nodePc = .idle) (next : s.nodeQueue = e :: rest) :
      NodeStep s (nodeFetch b o { s with nodeQueue := rest } e)
  | stutter (idle : s.nodePc = .idle) (empty : s.nodeQueue = []) : NodeStep s s

theorem nodeStep_advance (s : System) : NodeStep b o s (advance b o .node s) := by
  dsimp only [advance]
  split
  · exact .condition ‹_›
  · exact .updated ‹_›
  · exact .deleteSection ‹_›
  · exact .send ‹_›
  · exact .take ‹_› ‹_›
  · exact .stutter ‹_› ‹_›

inductive MissionStep (s : System) : System → Prop where
  | visit {mission operation c keys} (ranging : s.missionPc = .ranging mission operation (c :: keys)) :
      MissionStep s { s with
        missionPc := .ranging mission operation keys
        sent := s.sent ++ visit b s.lc mission operation c }
  | done {mission operation} (ranging : s.missionPc = .ranging mission operation []) :
      MissionStep s { s with missionPc := .idle }
  | take {e rest} (idle : s.missionPc = .idle) (next : s.missionQueue = e :: rest) :
      MissionStep s (missionFetch { s with missionQueue := rest } e)
  | stutter (idle : s.missionPc = .idle) (empty : s.missionQueue = []) : MissionStep s s

theorem missionStep_advance (s : System) : MissionStep b s (advance b o .mission s) := by
  dsimp only [advance]
  split
  · exact .visit ‹_›
  · exact .done ‹_›
  · exact .take ‹_› ‹_›
  · exact .stutter ‹_› ‹_›

theorem podCheck_cases (s : System) (e : Event) :
    (∃ msgs, podCheck b o s e = { s with sent := s.sent ++ msgs }) ∨
      ∃ pod msg, e.object = .pod pod ∧ s.lc.isEdgeNode pod.spec.nodeName ∧
        podCheck b o s e = { s with
          podPc := .adding pod (upsert s.lc.pods (.ofPod pod))
            (s.lc.pods.find? (·.key == (PodEntry.ofPod pod).key)) o.addOrUpdatePod msg } := by
  rcases e with ⟨type, object⟩
  cases object
  case pod pod =>
    unfold podCheck
    dsimp only
    split
    · rename_i edge
      cases (b.buildResource pod.spec.nodeName pod.«namespace» resourceTypePod pod.name).err
      · cases type
        case added | modified => exact .inr ⟨pod, _, rfl, edge, rfl⟩
        case deleted => exact .inl ⟨_, rfl⟩
        all_goals exact .inl ⟨[], by simp⟩
      · exact .inl ⟨[], by simp⟩
    · exact .inl ⟨[], by simp⟩
  all_goals exact .inl ⟨[], by simp [podCheck]⟩

theorem nodeFetch_cases (s : System) (e : Event) :
    nodeFetch b o s e = s ∨ (∃ name conditions, nodeFetch b o s e = { s with nodePc := .updating name conditions }) ∨
      ∃ node msgs, e = ⟨.deleted, .node node⟩ ∧
        nodeFetch b o s e = { s with nodePc := .deleting node.name o.deleteNode msgs } := by
  rcases e with ⟨type, object⟩
  cases object
  case node node =>
    cases type
    case added | modified => exact .inr (.inl ⟨_, _, rfl⟩)
    case deleted => exact .inr (.inr ⟨node, _, rfl, rfl⟩)
    all_goals exact .inl rfl
  all_goals exact .inl rfl

theorem missionFetch_cases (s : System) (e : Event) :
    missionFetch s e = s ∨ ∃ mission operation, eventOperation e.type = some operation ∧
      e.object = .mission mission ∧
      missionFetch s e = { s with
        operation := operation, missionPc := .ranging mission operation s.lc.edgeClusters } := by
  rcases e with ⟨type, object⟩
  cases object
  case mission mission =>
    unfold missionFetch
    dsimp only
    split
    · exact .inl rfl
    · exact .inr ⟨mission, _, ‹_›, rfl, rfl⟩
  all_goals exact .inl rfl

/-! ### What one step writes to the cache -/

/-- Every write one step can make, with what the step has read to make it. -/
inductive Writes (s : System) : Loop → LocationCache → Prop where
  | keep (loop : Loop) : Writes s loop s.lc
  | addPodSection {pod record old sec rest msg}
      (adding : s.podPc = .adding pod record old (sec :: rest) msg) :
      Writes s .pod (addPodSection pod record old s.lc sec)
  | deleteConfigMap (ns name : String) : Writes s .configMap (s.lc.deleteConfigMap ns name)
  | deleteSecret (ns name : String) : Writes s .secret (s.lc.deleteSecret ns name)
  | updateEdgeNode (name status : String) : Writes s .node (s.lc.updateEdgeNode name status)
  | deleteNodeSection {name sec rest msgs} (deleting : s.nodePc = .deleting name (sec :: rest) msgs) :
      Writes s .node (deleteNodeSection name s.lc sec)
  | deleteEdgeCluster (name : String) : Writes s .edgeCluster (s.lc.deleteEdgeCluster name)

theorem writes_mountStep {s : System} {loop : Loop}
    {fetch : LocationCache → Event → MountPc × List Message}
    {purge : LocationCache → String → String → LocationCache}
    (purged : ∀ ns name, Writes s loop (purge s.lc ns name)) (pc : MountPc) (queue : List Event) :
    Writes s loop (mountStep fetch purge s.lc pc queue).1 := by
  cases pc
  · cases queue <;> exact .keep _
  · exact purged _ _

theorem writes_advance (loop : Loop) (s : System) : Writes s loop (advance b o loop s).lc := by
  cases loop
  case pod =>
    have step := podStep_advance b o s
    generalize advance b o .pod s = s' at step ⊢
    cases step with
    | addSection adding => exact .addPodSection adding
    | @take e rest =>
      rcases podCheck_cases b o { s with podQueue := rest } e with ⟨_, same⟩ | ⟨_, _, _, _, same⟩ <;>
        rw [same] <;> exact .keep _
    | _ => exact .keep _
  case node =>
    have step := nodeStep_advance b o s
    generalize advance b o .node s = s' at step ⊢
    cases step with
    | condition =>
      unfold readyCondition
      split
      · exact .updateEdgeNode _ _
      · exact .keep _
    | deleteSection deleting => exact .deleteNodeSection deleting
    | @take e rest =>
      rcases nodeFetch_cases b o { s with nodeQueue := rest } e with same | ⟨_, _, same⟩ | ⟨_, _, _, same⟩ <;>
        rw [same] <;> exact .keep _
    | _ => exact .keep _
  case configMap => exact writes_mountStep (fun _ _ => .deleteConfigMap _ _) _ _
  case secret => exact writes_mountStep (fun _ _ => .deleteSecret _ _) _ _
  case mission =>
    have step := missionStep_advance b o s
    generalize advance b o .mission s = s' at step ⊢
    cases step with
    | @take e rest =>
      rcases missionFetch_cases { s with missionQueue := rest } e with same | ⟨_, _, _, _, same⟩ <;>
        rw [same] <;> exact .keep _
    | _ => exact .keep _
  case edgeCluster =>
    dsimp only [advance]
    split
    · rename_i e missionList _ _
      have effect := syncEdgeClusters_effect b s.lc missionList e
      generalize (syncEdgeClusters b s.lc missionList e).1 = lc' at effect ⊢
      cases effect with
      | keep => exact .keep _
      | deleteEdgeCluster => exact .deleteEdgeCluster _
    · exact .keep _
  all_goals dsimp only [advance]; split <;> exact .keep _

/-- What every write of every step keeps holds after any schedule. -/
theorem execute_preserves (P : LocationCache → Prop)
    (step : ∀ s loop lc', Writes s loop lc' → P s.lc → P lc') (schedule : List Loop) {s : System}
    (holds : P s.lc) : P (execute b o schedule s).lc := by
  induction schedule generalizing s with
  | nil => exact holds
  | cons loop rest ih => exact ih (step s loop _ (writes_advance b o loop s) holds)

theorem advance_podPc {loop : Loop} (other : loop ≠ .pod) (s : System) :
    (advance b o loop s).podPc = s.podPc := by
  cases loop
  case pod => exact absurd rfl other
  case node =>
    have step := nodeStep_advance b o s
    generalize advance b o .node s = s' at step ⊢
    cases step with
    | @take e rest =>
      rcases nodeFetch_cases b o { s with nodeQueue := rest } e with same | ⟨_, _, same⟩ | ⟨_, _, _, same⟩ <;>
        rw [same]
    | _ => rfl
  case mission =>
    have step := missionStep_advance b o s
    generalize advance b o .mission s = s' at step ⊢
    cases step with
    | @take e rest =>
      rcases missionFetch_cases { s with missionQueue := rest } e with same | ⟨_, _, _, _, same⟩ <;>
        rw [same]
    | _ => rfl
  case configMap | secret => rfl
  all_goals dsimp only [advance]; split <;> rfl

theorem advance_nodePc {loop : Loop} (other : loop ≠ .node) (s : System) :
    (advance b o loop s).nodePc = s.nodePc := by
  cases loop
  case node => exact absurd rfl other
  case pod =>
    have step := podStep_advance b o s
    generalize advance b o .pod s = s' at step ⊢
    cases step with
    | @take e rest =>
      rcases podCheck_cases b o { s with podQueue := rest } e with ⟨_, same⟩ | ⟨_, _, _, _, same⟩ <;>
        rw [same]
    | _ => rfl
  case mission =>
    have step := missionStep_advance b o s
    generalize advance b o .mission s = s' at step ⊢
    cases step with
    | @take e rest =>
      rcases missionFetch_cases { s with missionQueue := rest } e with same | ⟨_, _, _, _, same⟩ <;>
        rw [same]
    | _ => rfl
  case configMap | secret => rfl
  all_goals dsimp only [advance]; split <;> rfl

/-! ### Spec invariant 1 over every schedule without the race -/

def nodeSets (lc : LocationCache) : Section → String → String → List String
  | .configMapNode => lc.configMapNode
  | .secretNode => lc.secretNode
  | _ => fun _ _ => []

/-- The pod loop adds a pod on the node the node loop deletes, or the other way round. -/
def races (s : System) : Loop → Bool
  | .node =>
    match s.nodePc, s.nodeQueue, s.podPc with
    | .idle, ⟨.deleted, .node node⟩ :: _, .adding pod .. => pod.spec.nodeName == node.name
    | _, _, _ => false
  | .pod =>
    match s.podPc, s.podQueue, s.nodePc with
    | .idle, ⟨_, .pod pod⟩ :: _, .deleting name .. => pod.spec.nodeName == name
    | _, _, _ => false
  | _ => false

def raceFree : List Loop → System → Bool
  | [], _ => true
  | loop :: schedule, s => !races s loop && raceFree schedule (advance b o loop s)

/-- Spec invariant 1 with `DeleteNode` in flight: an indexed node is an edge node, or one the node
loop has yet to purge from that index. -/
structure Guarded (s : System) : Prop where
  indexed : ∀ sec ns name n, n ∈ nodeSets s.lc sec ns name →
    s.lc.isEdgeNode n ∨ ∃ secs msgs, s.nodePc = .deleting n secs msgs ∧ sec ∈ secs
  purged : ∀ n secs msgs, s.nodePc = .deleting n secs msgs →
    secs.Nodup ∧ ∀ sec, sec ∉ secs → ∀ ns name, n ∉ nodeSets s.lc sec ns name
  adding : ∀ pod record old secs msg, s.podPc = .adding pod record old secs msg →
    s.lc.isEdgeNode pod.spec.nodeName ∧ ∀ secs' msgs, s.nodePc ≠ .deleting pod.spec.nodeName secs' msgs

theorem Guarded.shrink {s s' : System} (guarded : Guarded s) (pod : s'.podPc = s.podPc)
    (node : s'.nodePc = s.nodePc) (edge : s'.lc.edgeNodes = s.lc.edgeNodes)
    (shrink : ∀ sec ns name n, n ∈ nodeSets s'.lc sec ns name → n ∈ nodeSets s.lc sec ns name) :
    Guarded s' where
  indexed sec ns name n member := by
    simpa only [LocationCache.isEdgeNode, edge, node] using guarded.indexed sec ns name n (shrink _ _ _ _ member)
  purged n secs msgs deleting := by
    obtain ⟨distinct, clean⟩ := guarded.purged n secs msgs (node ▸ deleting)
    exact ⟨distinct, fun sec out ns name member => clean sec out ns name (shrink _ _ _ _ member)⟩
  adding p record old secs msg adding := by
    simpa only [LocationCache.isEdgeNode, edge, node] using guarded.adding p record old secs msg (pod ▸ adding)

theorem nodeSets_deleteConfigMap {lc : LocationCache} {ns name : String} {sec : Section}
    {ns' name' n : String} (member : n ∈ nodeSets (lc.deleteConfigMap ns name) sec ns' name') :
    n ∈ nodeSets lc sec ns' name' := by
  cases sec
  case configMapNode => exact mem_of_mem_purge member
  all_goals exact member

theorem nodeSets_deleteSecret {lc : LocationCache} {ns name : String} {sec : Section}
    {ns' name' n : String} (member : n ∈ nodeSets (lc.deleteSecret ns name) sec ns' name') :
    n ∈ nodeSets lc sec ns' name' := by
  cases sec
  case secretNode => exact mem_of_mem_purge member
  all_goals exact member

theorem writes_shrink {s : System} {loop : Loop} {lc' : LocationCache} (writes : Writes s loop lc')
    (notPod : loop ≠ .pod) (notNode : loop ≠ .node) :
    lc'.edgeNodes = s.lc.edgeNodes ∧
      ∀ sec ns name n, n ∈ nodeSets lc' sec ns name → n ∈ nodeSets s.lc sec ns name := by
  cases writes with
  | addPodSection => exact absurd rfl notPod
  | updateEdgeNode | deleteNodeSection => exact absurd rfl notNode
  | deleteConfigMap => exact ⟨rfl, fun _ _ _ _ => nodeSets_deleteConfigMap⟩
  | deleteSecret => exact ⟨rfl, fun _ _ _ _ => nodeSets_deleteSecret⟩
  | keep | deleteEdgeCluster => exact ⟨rfl, fun _ _ _ _ => id⟩

theorem guarded_other {s : System} (guarded : Guarded s) {loop : Loop} (notPod : loop ≠ .pod)
    (notNode : loop ≠ .node) : Guarded (advance b o loop s) :=
  have ⟨edge, shrink⟩ := writes_shrink (writes_advance b o loop s) notPod notNode
  guarded.shrink (advance_podPc b o notPod s) (advance_nodePc b o notNode s) edge shrink

theorem addPodSection_edgeNodes (pod : Pod) (record : List PodEntry) (old : Option PodEntry)
    (lc : LocationCache) (sec : Section) : (addPodSection pod record old lc sec).edgeNodes = lc.edgeNodes := by
  cases sec <;> rfl

theorem nodeSets_addPodSection {pod : Pod} {record : List PodEntry} {old : Option PodEntry}
    {lc : LocationCache} {sec sec' : Section} {ns name n : String}
    (member : n ∈ nodeSets (addPodSection pod record old lc sec) sec' ns name) :
    n ∈ nodeSets lc sec' ns name ∨ n = pod.spec.nodeName := by
  cases sec <;> cases sec' <;> first
    | exact .inl member
    | exact (mem_reindex.mp member).imp And.left fun added => added.2.2

theorem mem_nodeSets_deleteNodeSection {name : String} {lc : LocationCache} {sec sec' : Section}
    {ns nm n : String} :
    n ∈ nodeSets (deleteNodeSection name lc sec) sec' ns nm ↔
      n ∈ nodeSets lc sec' ns nm ∧ (sec' = sec → n ≠ name) := by
  cases sec <;> cases sec' <;> simp [nodeSets, deleteNodeSection]

theorem isEdgeNode_deleteNodeSection {name : String} {lc : LocationCache} {sec : Section} {n : String} :
    (deleteNodeSection name lc sec).isEdgeNode n ↔ lc.isEdgeNode n ∧ (sec = .edgeNodes → n ≠ name) := by
  cases sec
  case edgeNodes =>
    by_cases same : n = name
    · simp [deleteNodeSection, LocationCache.isEdgeNode, same]
    · simp [deleteNodeSection, LocationCache.isEdgeNode, same, Function.update_noteq]
  all_goals simp [deleteNodeSection, LocationCache.isEdgeNode]

theorem isEdgeNode_readyCondition {name n : String} {lc : LocationCache} {nsc : NodeCondition}
    (edge : lc.isEdgeNode n) : (readyCondition name lc nsc).isEdgeNode n := by
  unfold readyCondition
  split
  · exact update_isSome name nsc.status n edge
  · exact edge

theorem nodeSets_readyCondition (name : String) (lc : LocationCache) (nsc : NodeCondition) :
    nodeSets (readyCondition name lc nsc) = nodeSets lc := by
  unfold readyCondition
  split <;> rfl

theorem guarded_pod {s : System} (guarded : Guarded s) (safe : races s .pod = false) :
    Guarded (advance b o .pod s) := by
  have step := podStep_advance b o s
  generalize advance b o .pod s = s' at step ⊢
  cases step with
  | @addSection pod record old sec rest msg adding =>
    have ⟨edge, alive⟩ := guarded.adding pod record old _ msg adding
    have same := addPodSection_edgeNodes pod record old s.lc sec
    refine ⟨fun sec' ns name n member => ?_, fun n secs msgs deleting => ?_, ?_⟩
    · simp only [LocationCache.isEdgeNode, same]
      rcases nodeSets_addPodSection member with member | rfl
      · exact guarded.indexed sec' ns name n member
      · exact .inl edge
    · obtain ⟨distinct, clean⟩ := guarded.purged n secs msgs deleting
      refine ⟨distinct, fun sec' out ns name member => ?_⟩
      rcases nodeSets_addPodSection member with member | rfl
      · exact clean sec' out ns name member
      · exact alive secs msgs deleting
    · rintro _ _ _ _ _ ⟨⟩
      simpa only [LocationCache.isEdgeNode, same] using And.intro edge alive
  | send => exact ⟨guarded.indexed, guarded.purged, fun _ _ _ _ _ adding => nomatch adding⟩
  | @take e rest idle next =>
    rcases podCheck_cases b o { s with podQueue := rest } e with ⟨_, same⟩ | ⟨pod, msg, object, edge, same⟩ <;>
      rw [same]
    · exact ⟨guarded.indexed, guarded.purged, fun _ _ _ _ _ adding => by simp_all⟩
    · refine ⟨guarded.indexed, guarded.purged, ?_⟩
      rintro _ _ _ _ _ ⟨⟩
      refine ⟨edge, fun secs msgs deleting => ?_⟩
      have deleting : s.nodePc = .deleting pod.spec.nodeName secs msgs := deleting
      rcases e with ⟨type, _⟩
      subst object
      simp [races, idle, next, deleting] at safe
  | stutter => exact guarded

/-- Outside `DeleteNode`, every indexed node is an edge node. -/
theorem Guarded.edge {s : System} (guarded : Guarded s) {sec : Section} {ns name n : String}
    (member : n ∈ nodeSets s.lc sec ns name) (outside : ∀ secs msgs, s.nodePc ≠ .deleting n secs msgs) :
    s.lc.isEdgeNode n :=
  (guarded.indexed sec ns name n member).resolve_right fun ⟨secs, msgs, deleting, _⟩ =>
    outside secs msgs deleting

/-- A step that ends outside `DeleteNode`, from outside it, keeps the invariant if it keeps the pod
loop, the indices and every edge node. -/
theorem Guarded.settled {s s' : System} (guarded : Guarded s)
    (outside : ∀ n secs msgs, s.nodePc ≠ .deleting n secs msgs)
    (settled : ∀ n secs msgs, s'.nodePc ≠ .deleting n secs msgs) (pod : s'.podPc = s.podPc)
    (sets : nodeSets s'.lc = nodeSets s.lc) (edge : ∀ n, s.lc.isEdgeNode n → s'.lc.isEdgeNode n) :
    Guarded s' :=
  ⟨fun _ _ _ n member => .inl (edge n (guarded.edge (sets ▸ member) (outside n))),
    fun n secs msgs deleting => absurd deleting (settled n secs msgs),
    fun p record old secs msg adding =>
      ⟨edge _ (guarded.adding p record old secs msg (pod ▸ adding)).1, settled _⟩⟩

theorem guarded_node {s : System} (guarded : Guarded s) (safe : races s .node = false) :
    Guarded (advance b o .node s) := by
  have step := nodeStep_advance b o s
  generalize advance b o .node s = s' at step ⊢
  cases step with
  | @condition name nsc rest updating =>
    exact guarded.settled (by simp [updating]) nofun rfl (nodeSets_readyCondition name s.lc nsc)
      fun _ => isEdgeNode_readyCondition
  | @updated name updating => exact guarded.settled (by simp [updating]) nofun rfl rfl fun _ => id
  | @deleteSection name sec rest msgs deleting =>
    obtain ⟨distinct, clean⟩ := guarded.purged name _ msgs deleting
    have fresh : sec ∉ rest := (List.nodup_cons.mp distinct).1
    refine ⟨fun sec' ns nm n member => ?_, fun n secs msgs' deleting' => ?_, ?_⟩
    · obtain ⟨before, kept⟩ := mem_nodeSets_deleteNodeSection.mp member
      rcases guarded.indexed sec' ns nm n before with edge | ⟨secs, msgs', deleting', pending⟩
      · by_cases same : n = name
        · subst same
          refine .inr ⟨rest, msgs, rfl, ?_⟩
          have listed : sec' ∈ sec :: rest := by_contra fun out => clean sec' out ns nm before
          exact (List.mem_cons.mp listed).resolve_left fun equal => kept equal rfl
        · exact .inl (isEdgeNode_deleteNodeSection.mpr ⟨edge, fun _ => same⟩)
      · rw [deleting] at deleting'
        cases deleting'
        exact .inr ⟨rest, msgs, rfl, (List.mem_cons.mp pending).resolve_left fun equal => kept equal rfl⟩
    · cases deleting'
      refine ⟨(List.nodup_cons.mp distinct).2, fun sec' out ns nm member => ?_⟩
      obtain ⟨before, kept⟩ := mem_nodeSets_deleteNodeSection.mp member
      by_cases same : sec' = sec
      · exact kept same rfl
      · exact clean sec' (by simp [same, out]) ns nm before
    · rintro pod record old secs msg adding
      obtain ⟨edge, alive⟩ := guarded.adding pod record old secs msg adding
      have other : pod.spec.nodeName ≠ name := fun same => alive _ msgs (same ▸ deleting)
      refine ⟨isEdgeNode_deleteNodeSection.mpr ⟨edge, fun _ => other⟩, fun secs' msgs' deleting' => ?_⟩
      cases deleting'
      exact other rfl
  | @send name msgs deleting =>
    refine ⟨fun sec ns nm n member => .inl ?_, fun _ _ _ deleting' => (nomatch deleting'),
      fun pod record old secs msg adding => ⟨(guarded.adding pod record old secs msg adding).1, nofun⟩⟩
    rcases guarded.indexed sec ns nm n member with edge | ⟨secs, msgs', deleting', pending⟩
    · exact edge
    · rw [deleting] at deleting'
      cases deleting'
      cases pending
  | @take e rest idle next =>
    have outside : ∀ n secs msgs, s.nodePc ≠ .deleting n secs msgs := by simp [idle]
    rcases nodeFetch_cases b o { s with nodeQueue := rest } e with same | ⟨_, _, same⟩ | ⟨node, msgs, rfl, same⟩ <;>
      rw [same]
    · exact ⟨guarded.indexed, guarded.purged, guarded.adding⟩
    · exact guarded.settled outside nofun rfl rfl fun _ => id
    · refine ⟨fun _ _ _ n member => .inl (guarded.edge member (outside n)), ?_, ?_⟩
      · rintro _ _ _ ⟨⟩
        refine ⟨o.deleteNode_perm.nodup_iff.mpr (by decide), fun sec out ns nm member => ?_⟩
        cases sec
        case pods | edgeNodes => simp [nodeSets] at member
        all_goals exact out (o.deleteNode_perm.mem_iff.mpr (by decide))
      · rintro pod record old secs msg adding
        refine ⟨(guarded.adding pod record old secs msg adding).1, fun secs' msgs' deleting => ?_⟩
        injection deleting with same
        have adding : s.podPc = .adding pod record old secs msg := adding
        simp [races, idle, next, adding, same] at safe
  | stutter => exact guarded

theorem guarded_advance {s : System} (guarded : Guarded s) {loop : Loop} (safe : races s loop = false) :
    Guarded (advance b o loop s) := by
  by_cases pod : loop = .pod
  · subst pod
    exact guarded_pod b o guarded safe
  by_cases node : loop = .node
  · subst node
    exact guarded_node b o guarded safe
  exact guarded_other b o guarded pod node

theorem guarded_execute (schedule : List Loop) {s : System} (guarded : Guarded s)
    (free : raceFree b o schedule s = true) : Guarded (execute b o schedule s) := by
  induction schedule generalizing s with
  | nil => exact guarded
  | cons loop rest ih =>
    simp only [raceFree, Bool.and_eq_true, Bool.not_eq_true'] at free
    exact ih (guarded_advance b o guarded free.1) free.2

/-- Spec invariant 1 over every interleaving of the eight goroutines, for every order in which
the cache takes its locks, as long as the pod loop's window from `IsEdgeNode` to the end of
`AddOrUpdatePod` never overlaps the node loop's `DeleteNode` of the same node: every node of a
configmap or secret entry is an edge node, or the node loop is inside `DeleteNode` of it and has
yet to purge that index; so the invariant holds whenever no `DeleteNode` is in flight. -/
theorem edge_indexed_without_race {s : System} (indexed : EdgeIndexed s.lc) (podIdle : s.podPc = .idle)
    (nodeIdle : s.nodePc = .idle) (schedule : List Loop) (free : raceFree b o schedule s = true) :
    let t := execute b o schedule s
    (∀ ns name n, n ∈ t.lc.configMapNodes ns name →
      t.lc.isEdgeNode n ∨ ∃ secs msgs, t.nodePc = .deleting n secs msgs ∧ .configMapNode ∈ secs) ∧
    (∀ ns name n, n ∈ t.lc.secretNodes ns name →
      t.lc.isEdgeNode n ∨ ∃ secs msgs, t.nodePc = .deleting n secs msgs ∧ .secretNode ∈ secs) ∧
    ((∀ n secs msgs, t.nodePc ≠ .deleting n secs msgs) → EdgeIndexed t.lc) := by
  have guarded : Guarded s := by
    refine ⟨fun sec ns name n member => .inl ?_, fun _ _ _ deleting => by simp [nodeIdle] at deleting,
      fun _ _ _ _ _ adding => by simp [podIdle] at adding⟩
    cases sec
    case configMapNode => exact indexed.1 ns name n member
    case secretNode => exact indexed.2 ns name n member
    all_goals simp [nodeSets] at member
  have after := guarded_execute b o schedule guarded free
  exact ⟨after.indexed .configMapNode, after.indexed .secretNode, fun outside =>
    ⟨fun ns name n member => after.edge (show n ∈ nodeSets _ .configMapNode ns name from member) (outside n),
      fun ns name n member => after.edge (show n ∈ nodeSets _ .secretNode ns name from member) (outside n)⟩⟩

theorem edge_indexed_without_race_purge_first :
    let order : LockOrder := ⟨[.configMapNode, .secretNode, .edgeNodes], by decide,
      [.configMapNode, .secretNode, .pods], by decide⟩
    let s := load ⟨primeNodes LocationCache.empty "" [⟨"n1", []⟩, ⟨"n2", []⟩], ""⟩ []
      [.pod ⟨.added, .pod ⟨"p", "app", "1", ⟨"n1", [.configMap "c1"], []⟩⟩⟩,
        .node ⟨.deleted, .node ⟨"n2", []⟩⟩]
    let schedule : List Loop := [.pod, .node, .pod, .node, .pod, .node, .pod, .node, .pod, .node]
    EdgeIndexed s.lc ∧ s.podPc = .idle ∧ s.nodePc = .idle ∧ raceFree pathBuilders order schedule s = true ∧
      EdgeIndexed (execute pathBuilders order schedule s).lc := by
  intro order s schedule
  have empty : EdgeIndexed LocationCache.empty := ⟨fun _ _ _ h => (nomatch h), fun _ _ _ h => (nomatch h)⟩
  have indexed := edgeIndexed_primeNodes empty "" [⟨"n1", []⟩, ⟨"n2", []⟩]
  have free : raceFree pathBuilders order schedule s = true := by decide
  have idle : (execute pathBuilders order schedule s).nodePc = .idle := by decide
  exact ⟨indexed, rfl, rfl, free,
    (edge_indexed_without_race pathBuilders order indexed rfl rfl schedule free).2.2 (by simp [idle])⟩

end EdgeController.Goroutines
