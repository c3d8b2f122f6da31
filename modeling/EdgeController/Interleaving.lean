import EdgeController.IndexInvariants

/-! The pod loop and the node loop as two goroutines over one cache. Each cache operation is
atomic, a loop iteration is not: the pod loop can stop between its `IsEdgeNode` check and its
`AddOrUpdatePod`. `advance` runs one atomic step of one loop; a schedule is any interleaving.
This grain already shows the race below; `Goroutines` splits each cache operation further. -/
namespace EdgeController.Interleaving

variable (b : Builders)

inductive Loop where
  | pod
  | node
  deriving DecidableEq, Repr

inductive PodPc where
  | idle
  | checked (pod : Pod) (msg : Message)

inductive NodePc where
  | idle
  | updating (name : String) (conditions : List NodeCondition)

structure State where
  lc : LocationCache
  podQueue : List Event
  nodeQueue : List Event
  podPc : PodPc
  nodePc : NodePc
  sent : List Message

def podCheck (s : State) (e : Event) : State :=
  match e.object with
  | .pod pod =>
    if s.lc.isEdgeNode pod.spec.nodeName then
      let built := b.buildResource pod.spec.nodeName pod.«namespace» resourceTypePod pod.name
      match built.err with
      | some _ => s
      | none =>
        let msg := fun operation => routed pod.resourceVersion built.resource operation (.pod pod)
        match e.type with
        | .added => { s with podPc := .checked pod (msg insertOperation) }
        | .deleted => { s with sent := s.sent ++ [msg deleteOperation] }
        | .modified => { s with podPc := .checked pod (msg updateOperation) }
        | _ => s
    else s
  | _ => s

/-- Up to its first condition, one iteration of `syncEdgeNodes`; `DeleteNode` is one step. -/
def nodeFetch (s : State) (e : Event) : State :=
  match e.object with
  | .node node =>
    match e.type with
    | .added | .modified => { s with nodePc := .updating node.name node.conditions }
    | .deleted =>
      let built := b.buildResource node.name "namespace" resourceNode node.name
      { s with
        lc := s.lc.deleteNode node.name
        sent := s.sent ++ match built.err with
          | none => [routed "" built.resource deleteOperation .none]
          | some _ => [] }
    | _ => s
  | _ => s

def advance : Loop → State → State
  | .pod, s =>
    match s.podPc, s.podQueue with
    | .checked pod msg, _ =>
      { s with lc := s.lc.addOrUpdatePod pod, podPc := .idle, sent := s.sent ++ [msg] }
    | .idle, e :: rest => podCheck b { s with podQueue := rest } e
    | .idle, [] => s
  | .node, s =>
    match s.nodePc, s.nodeQueue with
    | .updating name (nsc :: rest), _ =>
      { s with lc := readyCondition name s.lc nsc, nodePc := .updating name rest }
    | .updating _ [], _ => { s with nodePc := .idle }
    | .idle, e :: rest => nodeFetch b { s with nodeQueue := rest } e
    | .idle, [] => s

def execute : List Loop → State → State
  | [], s => s
  | loop :: schedule, s => execute schedule (advance b loop s)

/-- The race: the pod loop has checked a pod on node `n` when the node loop deletes `n`. The
pod loop's `AddOrUpdatePod` then puts `n` back into the indices, though `n` is no edge node. -/
theorem pod_loop_readds_deleted_node :
    let pod : Pod := ⟨"p", "app", "1", ⟨"n1", [.configMap "c1"], []⟩⟩
    let start : State := ⟨LocationCache.empty.updateEdgeNode "n1" "True",
      [⟨.added, .pod pod⟩], [⟨.deleted, .node ⟨"n1", [⟨"Ready", "True"⟩]⟩⟩], .idle, .idle, []⟩
    let final := execute pathBuilders [.pod, .node, .pod] start
    EdgeIndexed start.lc ∧ "n1" ∈ final.lc.configMapNodes "app" "c1" ∧
      final.lc.isEdgeNode "n1" = false :=
  ⟨⟨fun _ _ _ h => (nomatch h), fun _ _ _ h => (nomatch h)⟩, by decide, by decide⟩

end EdgeController.Interleaving
