import EdgeController.Downstream

/-! `DownstreamController` as one system: the loops share the location cache and each runs
the event it takes to completion, in any order across kinds. `Effect` lists every way one
input can change the cache; invariants are proved against it rather than the loops. -/
namespace EdgeController

variable (b : Builders)

/-- The loops' shared state: the cache, and the `operation` variable `syncMissions` carries. -/
structure Controller where
  lc : LocationCache
  operation : String

/-- An event on one loop's queue. The edge-cluster loop also reads the mission lister, so the
lister's answer comes with its event. -/
inductive Input where
  | pod (e : Event)
  | configMap (e : Event)
  | secret (e : Event)
  | node (e : Event)
  | rule (e : Event)
  | ruleEndpoint (e : Event)
  | mission (e : Event)
  | edgeCluster (e : Event) (missionList : Except String (List Mission))

/-- The loop the input belongs to runs one iteration. -/
def step (s : Controller) : Input → Controller × List Message
  | .pod e => let r := syncPod b s.lc e; (⟨r.1, s.operation⟩, r.2)
  | .configMap e => let r := syncConfigMap b s.lc e; (⟨r.1, s.operation⟩, r.2)
  | .secret e => let r := syncSecret b s.lc e; (⟨r.1, s.operation⟩, r.2)
  | .node e => let r := syncEdgeNodes b s.lc e; (⟨r.1, s.operation⟩, r.2)
  | .rule e => (s, syncRule b e)
  | .ruleEndpoint e => (s, syncRuleEndpoint b e)
  | .mission e => let r := syncMissions b s.lc s.operation e; (⟨s.lc, r.1⟩, r.2)
  | .edgeCluster e missionList =>
    let r := syncEdgeClusters b s.lc missionList e; (⟨r.1, s.operation⟩, r.2)

def run (s : Controller) : List Input → Controller × List Message
  | [] => (s, [])
  | i :: rest =>
    let first := step b s i
    let later := run first.1 rest
    (later.1, first.2 ++ later.2)

@[simp] theorem run_nil (s : Controller) : run b s [] = (s, []) := rfl

@[simp] theorem run_cons_state (s : Controller) (i : Input) (rest : List Input) :
    (run b s (i :: rest)).1 = (run b (step b s i).1 rest).1 := rfl

/-- States reachable after `NewDownstreamController`: `initLocating` on the empty cache over
lists the API returned, then any inputs. -/
inductive Reachable : Controller → Prop where
  | init {nodes pods edgeclusters lc} :
      initLocating LocationCache.empty (.ok nodes) (.ok pods) (.ok edgeclusters) = .ok lc →
      Reachable ⟨lc, ""⟩
  | step {s} (i : Input) : Reachable s → Reachable (step b s i).1

/-- Every way one input can change the cache. -/
inductive Effect : Input → LocationCache → LocationCache → Prop where
  | keep {i lc} : Effect i lc lc
  | addOrUpdatePod {e pod lc} (object : e.object = .pod pod)
      (update : e.type = .added ∨ e.type = .modified) (edge : lc.isEdgeNode pod.spec.nodeName) :
      Effect (.pod e) lc (lc.addOrUpdatePod pod)
  | deleteConfigMap {cm lc} :
      Effect (.configMap ⟨.deleted, .configMap cm⟩) lc (lc.deleteConfigMap cm.«namespace» cm.name)
  | deleteSecret {secret lc} :
      Effect (.secret ⟨.deleted, .secret secret⟩) lc (lc.deleteSecret secret.«namespace» secret.name)
  | readyConditions {e node lc} (object : e.object = .node node)
      (update : e.type = .added ∨ e.type = .modified) :
      Effect (.node e) lc (node.conditions.foldl (readyCondition node.name) lc)
  | deleteNode {node lc} : Effect (.node ⟨.deleted, .node node⟩) lc (lc.deleteNode node.name)
  | deleteEdgeCluster {ec missionList lc} :
      Effect (.edgeCluster ⟨.deleted, .edgeCluster ec⟩ missionList) lc (lc.deleteEdgeCluster ec.name)

theorem syncPod_effect (lc : LocationCache) (e : Event) : Effect (.pod e) lc (syncPod b lc e).1 := by
  rcases e with ⟨type, object⟩
  cases object
  case pod pod =>
    by_cases edge : lc.isEdgeNode pod.spec.nodeName
    · cases built : (b.buildResource pod.spec.nodeName pod.«namespace» resourceTypePod pod.name).err
      · cases type with
        | added => simpa [syncPod, edge, built] using .addOrUpdatePod rfl (.inl rfl) edge
        | modified => simpa [syncPod, edge, built] using .addOrUpdatePod rfl (.inr rfl) edge
        | deleted | bookmark | error => simpa [syncPod, edge, built] using .keep
      · simpa [syncPod, edge, built] using .keep
    · simpa [syncPod, edge] using .keep
  all_goals exact .keep

theorem syncMountable_cache (operationOf : EventType → Option String)
    (nodesOf : LocationCache → String → String → List String)
    (purge : LocationCache → String → String → LocationCache) (kind : String)
    (lc : LocationCache) (type : EventType) (ns name rv : String) (content : Content) :
    (syncMountable b operationOf nodesOf purge kind lc type ns name rv content).1 =
      if type = .deleted ∧ (operationOf type).isSome then purge lc ns name else lc := by
  unfold syncMountable
  split <;> simp_all

theorem syncConfigMap_effect (lc : LocationCache) (e : Event) :
    Effect (.configMap e) lc (syncConfigMap b lc e).1 := by
  rcases e with ⟨type, object⟩
  cases object
  case configMap cm =>
    cases type with
    | deleted => exact .deleteConfigMap
    | added | modified | bookmark | error => simpa [syncConfigMap, syncMountable_cache] using .keep
  all_goals exact .keep

theorem syncSecret_effect (lc : LocationCache) (e : Event) :
    Effect (.secret e) lc (syncSecret b lc e).1 := by
  rcases e with ⟨type, object⟩
  cases object
  case secret secret =>
    cases type with
    | deleted => exact .deleteSecret
    | added | modified | bookmark | error => simpa [syncSecret, syncMountable_cache] using .keep
  all_goals exact .keep

theorem syncEdgeNodes_effect (lc : LocationCache) (e : Event) :
    Effect (.node e) lc (syncEdgeNodes b lc e).1 := by
  rcases e with ⟨type, object⟩
  cases object
  case node node =>
    cases type with
    | added => exact .readyConditions rfl (.inl rfl)
    | modified => exact .readyConditions rfl (.inr rfl)
    | deleted => exact .deleteNode
    | bookmark | error => exact .keep
  all_goals exact .keep

theorem syncEdgeClusters_effect (lc : LocationCache) (missionList : Except String (List Mission))
    (e : Event) : Effect (.edgeCluster e missionList) lc (syncEdgeClusters b lc missionList e).1 := by
  rcases e with ⟨type, object⟩
  cases object
  case edgeCluster ec =>
    cases type with
    | added | modified =>
      cases missionList
      · exact .keep
      · simp only [syncEdgeClusters]; split <;> exact .keep
    | deleted => exact .deleteEdgeCluster
    | bookmark | error => exact .keep
  all_goals exact .keep

theorem step_effect (s : Controller) (i : Input) : Effect i s.lc (step b s i).1.lc := by
  cases i with
  | pod e => exact syncPod_effect b s.lc e
  | configMap e => exact syncConfigMap_effect b s.lc e
  | secret e => exact syncSecret_effect b s.lc e
  | node e => exact syncEdgeNodes_effect b s.lc e
  | rule e => exact .keep
  | ruleEndpoint e => exact .keep
  | mission e => exact .keep
  | edgeCluster e missionList => exact syncEdgeClusters_effect b s.lc missionList e

end EdgeController
