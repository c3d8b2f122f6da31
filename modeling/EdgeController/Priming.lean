import EdgeController.Messages

/-! `initLocating` against the sync loops. The priming loop reads a node's first Ready
condition through a status variable it never resets, and records every listed node; the node
loop records the last Ready condition and skips a node without one. The edge-cluster loop never
records a cluster, while priming records all of them. -/
namespace EdgeController

variable (b : Builders)

/-! ### The status loop -/

/-- The value of `status` after the node loop of `initLocating` has passed `nodes`. -/
def carriedStatus (status : String) (nodes : List Node) : String :=
  nodes.foldl (fun status node => firstReady status node.conditions) status

theorem firstReady_of_ready {conditions : List NodeCondition} (ready : ∃ c ∈ conditions, c.type = "Ready")
    (status status' : String) : firstReady status conditions = firstReady status' conditions := by
  induction conditions with
  | nil => simp at ready
  | cons c rest ih =>
    by_cases this : c.type = "Ready"
    · simp [firstReady, this]
    · simp only [firstReady, if_neg this]
      exact ih (by simpa [this] using ready)

/-- The node loop of `initLocating` leaves alone every name it does not list. -/
theorem primeNodes_edgeNodes_unlisted {nodes : List Node} {name : String}
    (unlisted : name ∉ nodes.map Node.name) (lc : LocationCache) (status : String) :
    (primeNodes lc status nodes).edgeNodes name = lc.edgeNodes name := by
  induction nodes generalizing lc status with
  | nil => rfl
  | cons node rest ih =>
    simp only [List.map_cons, List.mem_cons, not_or] at unlisted
    rw [primeNodes, ih unlisted.2]
    simp [Function.update_noteq unlisted.1]

/-- Each listed name ends with the status of its last listing, whatever the cache held. -/
theorem primeNodes_edgeNodes_congr {lc lc' : LocationCache} {nodes : List Node}
    (agree : ∀ name, name ∉ nodes.map Node.name → lc.edgeNodes name = lc'.edgeNodes name)
    (status : String) :
    (primeNodes lc status nodes).edgeNodes = (primeNodes lc' status nodes).edgeNodes := by
  induction nodes generalizing lc lc' status with
  | nil => exact funext fun name => agree name (List.not_mem_nil _)
  | cons node rest ih =>
    refine ih (fun name unlisted => ?_) _
    by_cases same : name = node.name
    · simp [same]
    · simp only [LocationCache.updateEdgeNode_edgeNodes, Function.update_noteq same]
      exact agree name (by simp [same, unlisted])

theorem primeNodes_edgeNodes (lc : LocationCache) (status : String) (before : List Node) (node : Node)
    (after : List Node) (last : node.name ∉ after.map Node.name) :
    (primeNodes lc status (before ++ node :: after)).edgeNodes node.name =
      some (firstReady (carriedStatus status before) node.conditions) := by
  induction before generalizing lc status with
  | nil =>
    simp only [List.nil_append, primeNodes, carriedStatus, List.foldl_nil]
    rw [primeNodes_edgeNodes_unlisted last]
    simp
  | cons n rest ih => exact ih _ _

/-- `initLocating` records every listed node. A node with a Ready condition records the status of
its first one; a node without records the status the nodes before it left in `status`. -/
theorem initLocating_node_status {before after : List Node} {node : Node} {pods : List Pod}
    {edgeclusters : List EdgeCluster} {lc : LocationCache}
    (primed : initLocating LocationCache.empty (.ok (before ++ node :: after)) (.ok pods)
      (.ok edgeclusters) = .ok lc)
    (last : node.name ∉ after.map Node.name) :
    lc.edgeNodes node.name = some (firstReady (carriedStatus "" before) node.conditions) ∧
      ((∃ c ∈ node.conditions, c.type = "Ready") →
        lc.edgeNodes node.name = some (firstReady "" node.conditions)) := by
  rw [initLocating_ok, primeEdgeClusters_form] at primed
  cases primed
  dsimp only
  rw [primePods_edgeNodes, primeNodes_edgeNodes LocationCache.empty "" before node after last]
  exact ⟨rfl, fun ready => by rw [firstReady_of_ready ready _ ""]⟩

theorem initLocating_node_status_n2 :
    let before : List Node := [⟨"n1", [⟨"Ready", "True"⟩]⟩]
    let node : Node := ⟨"n2", [⟨"MemoryPressure", "False"⟩]⟩
    let lc := primeEdgeClusters (primePods (primeNodes LocationCache.empty "" (before ++ [node])) []) []
    initLocating LocationCache.empty (.ok (before ++ [node])) (.ok []) (.ok []) = .ok lc ∧
      node.name ∉ ([] : List Node).map Node.name ∧
      lc.edgeNodes node.name = some (firstReady (carriedStatus "" before) node.conditions) :=
  ⟨rfl, List.not_mem_nil _, (initLocating_node_status rfl (List.not_mem_nil _)).1⟩

/-- A node without a Ready condition, listed after one whose Ready status is True, is recorded
as True instead of with the empty status. -/
theorem status_leaks_to_next_node :
    ∃ lc, initLocating LocationCache.empty (.ok [⟨"n1", [⟨"Ready", "True"⟩]⟩, ⟨"n2", []⟩]) (.ok [])
      (.ok []) = .ok lc ∧ lc.edgeNodes "n2" = some "True" :=
  ⟨_, rfl, rfl⟩

/-! ### Replaying the lists through the loops -/

/-- `Added` for each node in list order, then for each pod, then for each edge cluster, with
`response` the lister's answer at each cluster's event. -/
def replayInputs (nodes : List Node) (pods : List Pod) (edgeclusters : List EdgeCluster)
    (response : EdgeCluster → Except String (List Mission)) : List Input :=
  nodes.map (fun node => .node ⟨.added, .node node⟩) ++ pods.map (fun pod => .pod ⟨.added, .pod pod⟩) ++
    edgeclusters.map (fun ec => .edgeCluster ⟨.added, .edgeCluster ec⟩ (response ec))

/-- Every Ready condition of each node carries one status, and each node has one. -/
def ReadyOnce (nodes : List Node) : Prop :=
  ∀ node ∈ nodes, ∃ status, (∃ c ∈ node.conditions, c.type = nodeReady) ∧
    ∀ c ∈ node.conditions, c.type = nodeReady → c.status = status

theorem run_append_state (s : Controller) (first second : List Input) :
    (run b s (first ++ second)).1 = (run b (run b s first).1 second).1 := by
  induction first generalizing s with
  | nil => rfl
  | cons i rest ih => exact ih _

theorem run_nodes_added (s : Controller) (nodes : List Node) :
    (run b s (nodes.map fun node => .node ⟨.added, .node node⟩)).1 =
      ⟨nodes.foldl (fun lc node => node.conditions.foldl (readyCondition node.name) lc) s.lc,
        s.operation⟩ := by
  induction nodes generalizing s with
  | nil => rfl
  | cons node rest ih => exact ih _

theorem run_pods_added (s : Controller) (pods : List Pod) :
    (run b s (pods.map fun pod => .pod ⟨.added, .pod pod⟩)).1 =
      ⟨pods.foldl (fun lc pod => (syncPod b lc ⟨.added, .pod pod⟩).1) s.lc, s.operation⟩ := by
  induction pods generalizing s with
  | nil => rfl
  | cons pod rest ih => exact ih _

theorem run_edgeClusters_added (s : Controller) (edgeclusters : List EdgeCluster)
    (response : EdgeCluster → Except String (List Mission)) :
    (run b s (edgeclusters.map fun ec => .edgeCluster ⟨.added, .edgeCluster ec⟩ (response ec))).1 = s := by
  induction edgeclusters generalizing s with
  | nil => rfl
  | cons ec rest ih =>
    rw [List.map_cons, run_cons_state]
    have kept : (step b s (.edgeCluster ⟨.added, .edgeCluster ec⟩ (response ec))).1 = s := by
      cases response ec <;> simp only [step, syncEdgeClusters]
      split <;> rfl
    rw [kept, ih]

theorem foldl_readyCondition_none (name : String) (conditions : List NodeCondition) (lc : LocationCache)
    (none : ∀ c ∈ conditions, c.type ≠ nodeReady) :
    (conditions.foldl (readyCondition name) lc).edgeNodes = lc.edgeNodes := by
  induction conditions generalizing lc with
  | nil => rfl
  | cons c rest ih =>
    rw [List.foldl_cons, ih _ fun c' hc' => none c' (List.mem_cons_of_mem _ hc'),
      readyCondition, if_neg (none c (List.mem_cons_self _ _))]

theorem foldl_readyCondition_single (name : String) (conditions : List NodeCondition)
    (lc : LocationCache) {status : String} (ready : ∃ c ∈ conditions, c.type = nodeReady)
    (single : ∀ c ∈ conditions, c.type = nodeReady → c.status = status) :
    (conditions.foldl (readyCondition name) lc).edgeNodes =
      Function.update lc.edgeNodes name (some status) := by
  induction conditions generalizing lc with
  | nil => simp at ready
  | cons c rest ih =>
    have single' := fun c' hc' => single c' (List.mem_cons_of_mem c hc')
    rw [List.foldl_cons]
    by_cases this : c.type = nodeReady
    · have updated : (readyCondition name lc c).edgeNodes = Function.update lc.edgeNodes name (some status) := by
        simp [readyCondition, this, single c (List.mem_cons_self _ _) this]
      by_cases later : ∃ c' ∈ rest, c'.type = nodeReady
      · rw [ih _ later single', updated, Function.update_idem]
      · push_neg at later
        rw [foldl_readyCondition_none _ _ _ later, updated]
    · rw [readyCondition, if_neg this]
      exact ih _ (by simpa [this] using ready) single'

theorem firstReady_single {conditions : List NodeCondition} {status : String} (carried : String)
    (ready : ∃ c ∈ conditions, c.type = nodeReady)
    (single : ∀ c ∈ conditions, c.type = nodeReady → c.status = status) :
    firstReady carried conditions = status := by
  induction conditions with
  | nil => simp at ready
  | cons c rest ih =>
    simp only [firstReady]
    by_cases this : c.type = nodeReady
    · rw [if_pos (show c.type = "Ready" from this), single c (List.mem_cons_self _ _) this]
    · rw [if_neg (show ¬ c.type = "Ready" from this)]
      exact ih (by simpa [this] using ready) fun c' hc' => single c' (List.mem_cons_of_mem c hc')

theorem replayed_nodes_edgeNodes {nodes : List Node} (ready : ReadyOnce nodes)
    {lc lc' : LocationCache} (same : lc.edgeNodes = lc'.edgeNodes) (status : String) :
    (nodes.foldl (fun lc node => node.conditions.foldl (readyCondition node.name) lc) lc).edgeNodes =
      (primeNodes lc' status nodes).edgeNodes := by
  induction nodes generalizing lc lc' status with
  | nil => exact same
  | cons node rest ih =>
    obtain ⟨st, has, single⟩ := ready node (List.mem_cons_self _ _)
    apply ih (fun n hn => ready n (List.mem_cons_of_mem _ hn))
    rw [foldl_readyCondition_single _ _ _ has single, same, LocationCache.updateEdgeNode_edgeNodes,
      firstReady_single _ has single]

theorem replayed_nodes_form (nodes : List Node) (lc : LocationCache) :
    nodes.foldl (fun lc node => node.conditions.foldl (readyCondition node.name) lc) lc =
      { lc with edgeNodes :=
          (nodes.foldl (fun lc node => node.conditions.foldl (readyCondition node.name) lc) lc).edgeNodes } := by
  induction nodes generalizing lc with
  | nil => rfl
  | cons node rest ih => rw [List.foldl_cons, ih, foldl_readyCondition]

theorem replayed_nodes_eq {nodes : List Node} (ready : ReadyOnce nodes) (lc : LocationCache) :
    nodes.foldl (fun lc node => node.conditions.foldl (readyCondition node.name) lc) lc =
      primeNodes lc "" nodes := by
  rw [replayed_nodes_form, primeNodes_form, replayed_nodes_edgeNodes ready rfl ""]

theorem syncPod_fields (lc : LocationCache) (e : Event) :
    (syncPod b lc e).1.edgeNodes = lc.edgeNodes ∧ (syncPod b lc e).1.edgeClusters = lc.edgeClusters := by
  have effect := syncPod_effect b lc e
  generalize (syncPod b lc e).1 = lc' at effect ⊢
  cases effect <;> exact ⟨rfl, rfl⟩

theorem replayed_pods_fields (pods : List Pod) (lc : LocationCache) :
    let lc' := pods.foldl (fun lc pod => (syncPod b lc ⟨.added, .pod pod⟩).1) lc
    lc'.edgeNodes = lc.edgeNodes ∧ lc'.edgeClusters = lc.edgeClusters := by
  induction pods generalizing lc with
  | nil => exact ⟨rfl, rfl⟩
  | cons pod rest ih =>
    obtain ⟨nodes, clusters⟩ := ih (syncPod b lc ⟨.added, .pod pod⟩).1
    exact ⟨nodes.trans (syncPod_fields b lc _).1, clusters.trans (syncPod_fields b lc _).2⟩

theorem replayed_pods_eq {pods : List Pod} {lc : LocationCache}
    (built : ∀ pod ∈ pods, lc.isEdgeNode pod.spec.nodeName →
      (b.buildResource pod.spec.nodeName pod.«namespace» resourceTypePod pod.name).err = none) :
    pods.foldl (fun lc pod => (syncPod b lc ⟨.added, .pod pod⟩).1) lc = primePods lc pods := by
  induction pods generalizing lc with
  | nil => rfl
  | cons pod rest ih =>
    have head : (syncPod b lc ⟨.added, .pod pod⟩).1 =
        if lc.isEdgeNode pod.spec.nodeName then lc.addOrUpdatePod pod else lc := by
      by_cases edge : lc.isEdgeNode pod.spec.nodeName
      · rw [if_pos edge, syncPod_addOrUpdatePod b rfl (.inl rfl) edge
          (built pod (List.mem_cons_self _ _) edge)]
      · simp [syncPod, edge]
    rw [List.foldl_cons, primePods, head]
    apply ih
    intro p hp edge
    apply built p (List.mem_cons_of_mem _ hp)
    split at edge <;> exact edge

theorem foldl_readyCondition_isSome_iff (name : String) (conditions : List NodeCondition)
    (lc : LocationCache) (n : String) :
    ((conditions.foldl (readyCondition name) lc).edgeNodes n).isSome ↔
      (n = name ∧ ∃ c ∈ conditions, c.type = nodeReady) ∨ (lc.edgeNodes n).isSome := by
  induction conditions generalizing lc with
  | nil => simp
  | cons c rest ih =>
    rw [List.foldl_cons, ih]
    unfold readyCondition
    by_cases ready : c.type = nodeReady
    · by_cases same : n = name
      · simp [ready, same]
      · simp [ready, same]
    · simp [ready]

/-- The node replay records exactly the nodes with a Ready condition. -/
theorem replayed_nodes_isSome (nodes : List Node) (lc : LocationCache) (n : String) :
    ((nodes.foldl (fun lc node => node.conditions.foldl (readyCondition node.name) lc) lc).edgeNodes n).isSome ↔
      (∃ node ∈ nodes, node.name = n ∧ ∃ c ∈ node.conditions, c.type = nodeReady) ∨
        (lc.edgeNodes n).isSome := by
  induction nodes generalizing lc with
  | nil => simp
  | cons node rest ih =>
    rw [List.foldl_cons, ih, foldl_readyCondition_isSome_iff, List.exists_mem_cons_iff, or_assoc,
      or_left_comm, @eq_comm _ n node.name]

/-- The pod loop of `initLocating` reads `EdgeNodes` only through `IsEdgeNode`. -/
theorem primePods_edgeNodes_congr {lc : LocationCache} {edgeNodes : String → Option String}
    (domain : ∀ n, (edgeNodes n).isSome = (lc.edgeNodes n).isSome) (pods : List Pod) :
    primePods { lc with edgeNodes := edgeNodes } pods = { primePods lc pods with edgeNodes := edgeNodes } := by
  induction pods generalizing lc with
  | nil => rfl
  | cons p rest ih =>
    rw [primePods, primePods]
    have edge : ({ lc with edgeNodes := edgeNodes } : LocationCache).isEdgeNode p.spec.nodeName =
        lc.isEdgeNode p.spec.nodeName := domain _
    rw [edge]
    split
    · exact ih (show ∀ n, (edgeNodes n).isSome = ((lc.addOrUpdatePod p).edgeNodes n).isSome from domain)
    · exact ih domain

/-- When every listed node has a Ready condition, replaying the nodes records the names priming does. -/
theorem replayed_nodes_domain {nodes : List Node}
    (ready : ∀ node ∈ nodes, ∃ c ∈ node.conditions, c.type = nodeReady) (n : String) :
    ((nodes.foldl (fun lc node => node.conditions.foldl (readyCondition node.name) lc)
      LocationCache.empty).edgeNodes n).isSome =
        ((primeNodes LocationCache.empty "" nodes).edgeNodes n).isSome := by
  rw [Bool.eq_iff_iff, replayed_nodes_isSome]
  refine (or_iff_left (by simp [LocationCache.empty])).trans ?_
  refine Iff.trans ?_ (primeNodes_isEdgeNode _ _ _ n).symm
  simp only [LocationCache.isEdgeNode, LocationCache.empty, Option.isSome_none, Bool.false_eq_true,
    or_false, List.mem_map]
  exact ⟨fun ⟨node, member, named, _⟩ => ⟨node, member, named⟩,
    fun ⟨node, member, named⟩ => ⟨node, member, named, ready node member⟩⟩

/-- Replaying the startup lists through the loops agrees with `initLocating` on `EdgeNodes` when
each node has Ready conditions, all of one status, and then on the configmap, secret and pod
indices when each pod on a listed node has a resource that builds. On `EdgeClusters` they part:
priming records every listed cluster, the replay none. -/
theorem replay_matches_priming {nodes : List Node} {pods : List Pod}
    {edgeclusters : List EdgeCluster} {lc : LocationCache}
    (primed : initLocating LocationCache.empty (.ok nodes) (.ok pods) (.ok edgeclusters) = .ok lc)
    (response : EdgeCluster → Except String (List Mission)) :
    let replayed :=
      (run b ⟨LocationCache.empty, ""⟩ (replayInputs nodes pods edgeclusters response)).1.lc
    (ReadyOnce nodes → replayed.edgeNodes = lc.edgeNodes) ∧
      ((∀ node ∈ nodes, ∃ c ∈ node.conditions, c.type = nodeReady) →
        (∀ pod ∈ pods, pod.spec.nodeName ∈ nodes.map Node.name →
          (b.buildResource pod.spec.nodeName pod.«namespace» resourceTypePod pod.name).err = none) →
        replayed.configMapNode = lc.configMapNode ∧ replayed.secretNode = lc.secretNode ∧
          replayed.pods = lc.pods) ∧
      replayed.edgeClusters = [] ∧ (∀ c, c ∈ lc.edgeClusters ↔ c ∈ edgeclusters.map EdgeCluster.name) := by
  intro replayed
  have clusters := initLocating_edgeClusters primed
  rw [initLocating_ok, primeEdgeClusters_form] at primed
  cases primed
  have shape : replayed = (pods.foldl (fun lc pod => (syncPod b lc ⟨.added, .pod pod⟩).1)
      (nodes.foldl (fun lc node => node.conditions.foldl (readyCondition node.name) lc)
        LocationCache.empty)) := by
    simp only [replayed, replayInputs, run_append_state, run_nodes_added, run_pods_added,
      run_edgeClusters_added]
  have podsKeep := replayed_pods_fields b pods
    (nodes.foldl (fun lc node => node.conditions.foldl (readyCondition node.name) lc) LocationCache.empty)
  refine ⟨fun ready => ?_, fun ready built => ?_, ?_, clusters⟩
  · rw [shape, podsKeep.1, primePods_edgeNodes, replayed_nodes_eq ready]
  · let replayedNodes :=
      nodes.foldl (fun lc node => node.conditions.foldl (readyCondition node.name) lc) LocationCache.empty
    have domain := replayed_nodes_domain ready
    have form : replayedNodes = { primeNodes LocationCache.empty "" nodes with
        edgeNodes := replayedNodes.edgeNodes } :=
      (replayed_nodes_form nodes _).trans (by rw [primeNodes_form])
    have edge : ∀ pod ∈ pods, replayedNodes.isEdgeNode pod.spec.nodeName →
        (b.buildResource pod.spec.nodeName pod.«namespace» resourceTypePod pod.name).err = none :=
      fun pod hp onEdge => built pod hp <| ((primeNodes_isEdgeNode _ _ _ _).mp
        (by rwa [LocationCache.isEdgeNode, domain] at onEdge)).resolve_right
        (by simp [LocationCache.isEdgeNode, LocationCache.empty])
    rw [shape, replayed_pods_eq b edge, form, primePods_edgeNodes_congr domain]
    exact ⟨rfl, rfl, rfl⟩
  · rw [shape, podsKeep.2, (replayed_nodes_form nodes _)]
    rfl

theorem replay_matches_priming_n1 :
    let nodes : List Node := [⟨"n1", [⟨"Ready", "True"⟩]⟩]
    let pods : List Pod := [⟨"p", "app", "1", ⟨"n1", [.configMap "c1"], []⟩⟩]
    let edgeclusters : List EdgeCluster := [⟨"ec1", []⟩]
    let lc := primeEdgeClusters (primePods (primeNodes LocationCache.empty "" nodes) pods) edgeclusters
    let replayed := (run pathBuilders ⟨LocationCache.empty, ""⟩
      (replayInputs nodes pods edgeclusters fun _ => .ok [])).1.lc
    initLocating LocationCache.empty (.ok nodes) (.ok pods) (.ok edgeclusters) = .ok lc ∧
      ReadyOnce nodes ∧ replayed.edgeNodes = lc.edgeNodes ∧ replayed.pods = lc.pods ∧
      replayed.edgeClusters = [] := by
  intro nodes pods edgeclusters lc replayed
  have ready : ReadyOnce nodes := by
    intro node member
    rw [List.mem_singleton.mp member]
    exact ⟨"True", ⟨_, List.mem_singleton_self _, rfl⟩, fun c hc _ => by rw [List.mem_singleton.mp hc]⟩
  have facts := replay_matches_priming pathBuilders (rfl : initLocating LocationCache.empty
    (.ok nodes) (.ok pods) (.ok edgeclusters) = .ok lc) fun _ => .ok []
  have hasReady : ∀ node ∈ nodes, ∃ c ∈ node.conditions, c.type = nodeReady := fun node member =>
    let ⟨_, has, _⟩ := ready node member
    has
  exact ⟨rfl, ready, facts.1 ready, (facts.2.1 hasReady (by decide)).2.2, facts.2.2.1⟩

/-- A node without a Ready condition and a listed edge cluster: priming records both, the replay
neither. -/
theorem replay_misses_unready_node_and_cluster :
    let nodes : List Node := [⟨"n1", []⟩]
    let edgeclusters : List EdgeCluster := [⟨"ec1", []⟩]
    ∃ lc, initLocating LocationCache.empty (.ok nodes) (.ok []) (.ok edgeclusters) = .ok lc ∧
      let replayed := (run pathBuilders ⟨LocationCache.empty, ""⟩
        (replayInputs nodes [] edgeclusters fun _ => .ok [])).1.lc
      lc.edgeNodes "n1" = some "" ∧ replayed.edgeNodes "n1" = none ∧
        lc.edgeClusters = ["ec1"] ∧ replayed.edgeClusters = [] :=
  ⟨_, rfl, by decide⟩

end EdgeController
