import EdgeController.LocationCache

/-! The sync loops of `downstream.go`, one iteration each, and `initLocating`. An iteration
returns the cache it leaves and the messages it hands to `SendMessage`; the message layer
swallows transport errors, so nothing flows back into a loop. -/
namespace EdgeController

variable (b : Builders)

/-- One message per destination whose resource builds; a failed build skips that destination. -/
def fanOut (destinations : List String) (ns kind name resourceVersion operation : String)
    (content : Content) : List Message :=
  destinations.filterMap fun d =>
    let built := b.buildResource d ns kind name
    match built.err with
    | none => some (routed resourceVersion built.resource operation content)
    | some _ => none

theorem fanOut_eq (destinations : List String) (ns kind name resourceVersion operation : String)
    (content : Content) :
    fanOut b destinations ns kind name resourceVersion operation content =
      (destinations.filter fun d => (b.buildResource d ns kind name).err.isNone).map
        fun d => routed resourceVersion (b.buildResource d ns kind name).resource operation content := by
  induction destinations with
  | nil => rfl
  | cons d rest ih =>
    unfold fanOut at ih ⊢
    cases built : (b.buildResource d ns kind name).err <;> simp [List.filterMap_cons, built, ih]

theorem fanOut_cons (d : String) (rest : List String) (ns kind name resourceVersion operation : String)
    (content : Content) :
    fanOut b (d :: rest) ns kind name resourceVersion operation content =
      fanOut b [d] ns kind name resourceVersion operation content ++
        fanOut b rest ns kind name resourceVersion operation content :=
  List.filterMap_append [d] rest _

theorem mem_fanOut {destinations : List String} {ns kind name resourceVersion operation : String}
    {content : Content} {msg : Message}
    (sent : msg ∈ fanOut b destinations ns kind name resourceVersion operation content) :
    ∃ d ∈ destinations, (b.buildResource d ns kind name).err = none ∧
      msg = routed resourceVersion (b.buildResource d ns kind name).resource operation content := by
  rw [fanOut_eq] at sent
  obtain ⟨d, member, rfl⟩ := List.mem_map.mp sent
  obtain ⟨member, built⟩ := List.mem_filter.mp member
  exact ⟨d, member, by simpa using built, rfl⟩

def syncPod (lc : LocationCache) (e : Event) : LocationCache × List Message :=
  match e.object with
  | .pod pod =>
    if lc.isEdgeNode pod.spec.nodeName then
      let built := b.buildResource pod.spec.nodeName pod.«namespace» resourceTypePod pod.name
      match built.err with
      | some _ => (lc, [])
      | none =>
        let msg := fun operation => routed pod.resourceVersion built.resource operation (.pod pod)
        match e.type with
        | .added => (lc.addOrUpdatePod pod, [msg insertOperation])
        | .deleted => (lc, [msg deleteOperation])
        | .modified => (lc.addOrUpdatePod pod, [msg updateOperation])
        | _ => (lc, [])
    else (lc, [])
  | _ => (lc, [])

def eventOperation : EventType → Option String
  | .added => some insertOperation
  | .modified => some updateOperation
  | .deleted => some deleteOperation
  | _ => none

/-- `syncSecret` falls through from `Added` to update, for edges older than 2.1.6. -/
def secretOperation : EventType → Option String
  | .added => some updateOperation
  | .modified => some updateOperation
  | .deleted => some deleteOperation
  | _ => none

/-- The body `syncConfigMap` and `syncSecret` share: snapshot the nodes, purge on a delete, fan out. -/
def syncMountable (operationOf : EventType → Option String)
    (nodesOf : LocationCache → String → String → List String)
    (purge : LocationCache → String → String → LocationCache) (kind : String)
    (lc : LocationCache) (type : EventType) (ns name resourceVersion : String) (content : Content) :
    LocationCache × List Message :=
  match operationOf type with
  | none => (lc, [])
  | some operation =>
    let nodes := nodesOf lc ns name
    (if type = .deleted then purge lc ns name else lc,
      fanOut b nodes ns kind name resourceVersion operation content)

def syncConfigMap (lc : LocationCache) (e : Event) : LocationCache × List Message :=
  match e.object with
  | .configMap cm =>
    syncMountable b eventOperation LocationCache.configMapNodes LocationCache.deleteConfigMap
      resourceTypeConfigmap lc e.type cm.«namespace» cm.name cm.resourceVersion (.configMap cm)
  | _ => (lc, [])

def syncSecret (lc : LocationCache) (e : Event) : LocationCache × List Message :=
  match e.object with
  | .secret secret =>
    syncMountable b secretOperation LocationCache.secretNodes LocationCache.deleteSecret
      resourceTypeSecret lc e.type secret.«namespace» secret.name secret.resourceVersion (.secret secret)
  | _ => (lc, [])

/-- One pass of the condition loop of `syncEdgeNodes`; the `GetNodeStatus` check only decides a `continue`. -/
def readyCondition (name : String) (lc : LocationCache) (nsc : NodeCondition) : LocationCache :=
  if nsc.type = nodeReady then lc.updateEdgeNode name nsc.status else lc

def syncEdgeNodes (lc : LocationCache) (e : Event) : LocationCache × List Message :=
  match e.object with
  | .node node =>
    match e.type with
    | .added | .modified => (node.conditions.foldl (readyCondition node.name) lc, [])
    | .deleted =>
      let built := b.buildResource node.name "namespace" resourceNode node.name
      (lc.deleteNode node.name, match built.err with
        | none => [routed "" built.resource deleteOperation .none]
        | some _ => [])
    | _ => (lc, [])
  | _ => (lc, [])

theorem foldl_readyCondition (name : String) (conditions : List NodeCondition) (lc : LocationCache) :
    conditions.foldl (readyCondition name) lc =
      { lc with edgeNodes := (conditions.foldl (readyCondition name) lc).edgeNodes } := by
  induction conditions generalizing lc with
  | nil => rfl
  | cons nsc rest ih =>
    rw [List.foldl_cons, ih]
    unfold readyCondition
    split <;> rfl

/-- The body `syncRule` and `syncRuleEndpoint` share: router-scoped, `Modified` unsupported. -/
def syncRouted (kind name resourceVersion : String) (content : Content) (type : EventType) :
    List Message :=
  let built := b.buildResourceForRouter kind name
  match built.err, type with
  | none, .added => [routed resourceVersion built.resource insertOperation content]
  | none, .deleted => [routed resourceVersion built.resource deleteOperation content]
  | _, _ => []

def syncRule (e : Event) : List Message :=
  match e.object with
  | .rule rule => syncRouted b resourceTypeRule rule.name rule.resourceVersion (.rule rule) e.type
  | _ => []

def syncRuleEndpoint (e : Event) : List Message :=
  match e.object with
  | .ruleEndpoint re =>
    syncRouted b resourceTypeRuleEndpoint re.name re.resourceVersion (.ruleEndpoint re) e.type
  | _ => []

/-- One iteration of `syncMissions`; `operation` is carried from one iteration to the next. -/
def syncMissions (lc : LocationCache) (operation : String) (e : Event) : String × List Message :=
  match e.object with
  | .mission mission =>
    match eventOperation e.type with
    | none => (operation, [])
    | some assigned =>
      (assigned, fanOut b lc.edgeClusters "default" resourceTypeMission mission.name
        mission.resourceVersion assigned (.mission mission))
  | _ => (operation, [])

/-- `m[k] = v` on a Go `map[string]bool`, entries kept in insertion order. -/
def mapSet (m : List (String × Bool)) (k : String) (v : Bool) : List (String × Bool) :=
  if m.any (·.1 == k) then m.map (fun p => if p.1 = k then (k, v) else p) else m ++ [(k, v)]

def nameSet (names : List String) : List (String × Bool) :=
  names.foldl (fun m k => mapSet m k true) []

/-- `reflect.DeepEqual` on two non-nil maps. -/
def deepEqual (m₁ m₂ : List (String × Bool)) : Bool :=
  m₁.length == m₂.length && m₁.all (fun p => m₂.lookup p.1 == some p.2)

/-- One iteration of `syncEdgeClusters`; the error of the mission-list build is not checked. -/
def syncEdgeClusters (lc : LocationCache) (missionList : Except String (List Mission)) (e : Event) :
    LocationCache × List Message :=
  match e.object with
  | .edgeCluster ec =>
    match e.type with
    | .added | .modified =>
      let missionsInEdgeSet := nameSet ec.receivedMissions
      match missionList with
      | .error _ => (lc, [])
      | .ok missions =>
        if deepEqual missionsInEdgeSet (nameSet (missions.map Mission.name)) then (lc, [])
        else
          let built := b.buildResource ec.name "default" resourceTypeMissionList ""
          (lc, [routed "" built.resource updateOperation (.missionList missions)])
    | .deleted => (lc.deleteEdgeCluster ec.name, [])
    | _ => (lc, [])
  | _ => (lc, [])

/-- The first Ready condition's status, or `status` as it stands when the node has none. -/
def firstReady (status : String) : List NodeCondition → String
  | [] => status
  | nsc :: rest => if nsc.type = "Ready" then nsc.status else firstReady status rest

def primeNodes (lc : LocationCache) (status : String) : List Node → LocationCache
  | [] => lc
  | node :: nodes =>
    let status := firstReady status node.conditions
    primeNodes (lc.updateEdgeNode node.name status) status nodes

def primePods (lc : LocationCache) : List Pod → LocationCache
  | [] => lc
  | p :: pods => primePods (if lc.isEdgeNode p.spec.nodeName then lc.addOrUpdatePod p else lc) pods

def primeEdgeClusters (lc : LocationCache) : List EdgeCluster → LocationCache
  | [] => lc
  | ec :: ecs => primeEdgeClusters (lc.updateEdgeCluster ec.name) ecs

/-- `initLocating`, given what each `List` call returned; a failed call fails the start. -/
def initLocating (lc : LocationCache) (nodes : Except String (List Node))
    (pods : Except String (List Pod)) (edgeclusters : Except String (List EdgeCluster)) :
    Except String LocationCache := do
  let lc := primeNodes lc "" (← nodes)
  let lc := primePods lc (← pods)
  return primeEdgeClusters lc (← edgeclusters)

theorem initLocating_ok (lc : LocationCache) (nodes : List Node) (pods : List Pod)
    (edgeclusters : List EdgeCluster) :
    initLocating lc (.ok nodes) (.ok pods) (.ok edgeclusters) =
      .ok (primeEdgeClusters (primePods (primeNodes lc "" nodes) pods) edgeclusters) := rfl

theorem primeNodes_form (lc : LocationCache) (status : String) (nodes : List Node) :
    primeNodes lc status nodes = { lc with edgeNodes := (primeNodes lc status nodes).edgeNodes } := by
  induction nodes generalizing lc status with
  | nil => rfl
  | cons node rest ih => rw [primeNodes, ih]; rfl

theorem primeEdgeClusters_form (lc : LocationCache) (edgeclusters : List EdgeCluster) :
    primeEdgeClusters lc edgeclusters =
      { lc with
        edgeClusters := (primeEdgeClusters lc edgeclusters).edgeClusters
        edgeClusterKeys := (primeEdgeClusters lc edgeclusters).edgeClusterKeys } := by
  induction edgeclusters generalizing lc with
  | nil => rfl
  | cons ec rest ih => rw [primeEdgeClusters, ih]; rfl

theorem primePods_preserves (P : LocationCache → Prop)
    (step : ∀ lc pod, lc.isEdgeNode pod.spec.nodeName → P lc → P (lc.addOrUpdatePod pod))
    {lc : LocationCache} (holds : P lc) (pods : List Pod) : P (primePods lc pods) := by
  induction pods generalizing lc with
  | nil => exact holds
  | cons p rest ih =>
    apply ih
    split
    · exact step lc p ‹_› holds
    · exact holds

end EdgeController
