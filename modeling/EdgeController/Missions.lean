import EdgeController.IndexInvariants

/-! Mission fan-out. `syncMissions` sends to every key of `EdgeClusters` whose resource builds,
with the operation of the event at hand. `initLocating` fills `EdgeClusters`; the edge-cluster
loop only ever removes from it, so clusters that join later receive no fan-out. -/
namespace EdgeController

variable (b : Builders)

/-- A `Deleted` edge-cluster event for the cluster `name`. -/
def Input.deletesEdgeCluster (name : String) (i : Input) : Prop :=
  ∃ ec missionList, i = .edgeCluster ⟨.deleted, .edgeCluster ec⟩ missionList ∧ ec.name = name

theorem Effect.edgeClusters_eq {i : Input} {lc lc' : LocationCache} (effect : Effect i lc lc')
    (other : ∀ ec missionList, i ≠ .edgeCluster ⟨.deleted, .edgeCluster ec⟩ missionList) :
    lc'.edgeClusters = lc.edgeClusters := by
  cases effect with
  | deleteEdgeCluster => exact absurd rfl (other _ _)
  | readyConditions => rw [foldl_readyCondition]
  | keep | addOrUpdatePod | deleteConfigMap | deleteSecret | deleteNode => rfl

theorem step_edgeClusters (s : Controller) (i : Input) (c : String) :
    c ∈ (step b s i).1.lc.edgeClusters ↔ c ∈ s.lc.edgeClusters ∧ ¬ i.deletesEdgeCluster c := by
  by_cases deleting : ∃ ec missionList, i = .edgeCluster ⟨.deleted, .edgeCluster ec⟩ missionList
  · obtain ⟨ec, missionList, rfl⟩ := deleting
    simp [step, syncEdgeClusters, Input.deletesEdgeCluster, eq_comm]
  · push_neg at deleting
    rw [(step_effect b s i).edgeClusters_eq deleting]
    exact ⟨fun member => ⟨member, fun ⟨ec, ml, h, _⟩ => deleting ec ml h⟩, And.left⟩

theorem mem_run_edgeClusters (s : Controller) (pre : List Input) (c : String) :
    c ∈ (run b s pre).1.lc.edgeClusters ↔ c ∈ s.lc.edgeClusters ∧ ∀ i ∈ pre, ¬ i.deletesEdgeCluster c := by
  induction pre generalizing s with
  | nil => simp
  | cons i rest ih => rw [run_cons_state, ih, step_edgeClusters]; simp [and_assoc]

theorem primeNodes_edgeClusters (lc : LocationCache) (status : String) (nodes : List Node) :
    (primeNodes lc status nodes).edgeClusters = lc.edgeClusters := by
  rw [primeNodes_form]

theorem primePods_edgeClusters (lc : LocationCache) (pods : List Pod) :
    (primePods lc pods).edgeClusters = lc.edgeClusters :=
  primePods_preserves (fun lc' => lc'.edgeClusters = lc.edgeClusters) (fun _ _ _ same => same) rfl pods

theorem mem_primeEdgeClusters (lc : LocationCache) (edgeclusters : List EdgeCluster) (c : String) :
    c ∈ (primeEdgeClusters lc edgeclusters).edgeClusters ↔
      c ∈ edgeclusters.map EdgeCluster.name ∨ c ∈ lc.edgeClusters := by
  induction edgeclusters generalizing lc with
  | nil => simp [primeEdgeClusters]
  | cons ec rest ih => rw [primeEdgeClusters, ih]; simp [or_comm, or_left_comm, or_assoc]

theorem initLocating_edgeClusters {nodes : List Node} {pods : List Pod}
    {edgeclusters : List EdgeCluster} {lc : LocationCache}
    (primed : initLocating LocationCache.empty (.ok nodes) (.ok pods) (.ok edgeclusters) = .ok lc)
    (c : String) : c ∈ lc.edgeClusters ↔ c ∈ edgeclusters.map EdgeCluster.name := by
  rw [initLocating_ok] at primed
  cases primed
  rw [mem_primeEdgeClusters, primePods_edgeClusters, primeNodes_edgeClusters]
  simp [LocationCache.empty]

theorem step_mission_messages (s : Controller) (e : Event) :
    (step b s (.mission e)).2 =
      match e.object, eventOperation e.type with
      | .mission mission, some assigned =>
        (s.lc.edgeClusters.filter fun c =>
            (b.buildResource c "default" resourceTypeMission mission.name).err.isNone).map fun c =>
          routed mission.resourceVersion
            (b.buildResource c "default" resourceTypeMission mission.name).resource assigned
            (.mission mission)
      | _, _ => [] := by
  rcases e with ⟨type, object⟩
  cases object <;> simp only [step, syncMissions]
  split <;> simp_all [fanOut_eq]

/-- Every mission event the loop handles sends, for each key of `EdgeClusters` whose resource
builds and in `Range` order, one message with the operation of this event's own type, whatever
the loop-carried `operation` held from earlier events; unsupported events send nothing. -/
theorem mission_messages_use_own_operation (s : Controller) (pre : List Input) (e : Event) :
    let t := (run b s pre).1
    let fan := fun (mission : Mission) (operation : String) =>
      (t.lc.edgeClusters.filter fun c =>
          (b.buildResource c "default" resourceTypeMission mission.name).err.isNone).map fun c =>
        routed mission.resourceVersion
          (b.buildResource c "default" resourceTypeMission mission.name).resource operation
          (.mission mission)
    (step b t (.mission e)).2 =
      match e.type, e.object with
      | .added, .mission mission => fan mission insertOperation
      | .modified, .mission mission => fan mission updateOperation
      | .deleted, .mission mission => fan mission deleteOperation
      | _, _ => [] := by
  intro t fan
  rcases e with ⟨type, object⟩
  rw [step_mission_messages]
  cases object <;> cases type <;> rfl

/-- A mission event sends one message, with its resource and the event's own operation, to each
cluster listed at startup that no `Deleted` has removed since and whose resource builds, each
cluster once: edge-cluster `Added` and `Modified` never add a cluster. -/
theorem mission_fanout_reaches_listed_clusters {nodes : List Node} {pods : List Pod}
    {edgeclusters : List EdgeCluster} {lc : LocationCache}
    (primed : initLocating LocationCache.empty (.ok nodes) (.ok pods) (.ok edgeclusters) = .ok lc)
    (pre : List Input) {type : EventType} {operation : String}
    (mapped : eventOperation type = some operation) (mission : Mission) :
    ∃ clusters : List String, clusters.Nodup ∧
      (∀ c, c ∈ clusters ↔
        c ∈ edgeclusters.map EdgeCluster.name ∧ ∀ i ∈ pre, ¬ i.deletesEdgeCluster c) ∧
      (step b (run b ⟨lc, ""⟩ pre).1 (.mission ⟨type, .mission mission⟩)).2 =
        (clusters.filter fun c =>
            (b.buildResource c "default" resourceTypeMission mission.name).err.isNone).map fun c =>
          routed mission.resourceVersion
            (b.buildResource c "default" resourceTypeMission mission.name).resource operation
            (.mission mission) := by
  refine ⟨_, (run b ⟨lc, ""⟩ pre).1.lc.edgeClusterKeys, fun c => ?_, ?_⟩
  · rw [mem_run_edgeClusters, initLocating_edgeClusters primed]
  · rw [step_mission_messages]
    simp only [mapped]

theorem mission_fanout_reaches_listed_clusters_ec1 :
    let edgeclusters : List EdgeCluster := [⟨"ec1", []⟩, ⟨"ec2", []⟩]
    let primed := primeEdgeClusters (primePods (primeNodes LocationCache.empty "" []) []) edgeclusters
    let pre : List Input := [.edgeCluster ⟨.deleted, .edgeCluster ⟨"ec2", []⟩⟩ (.ok [])]
    let mission : Mission := ⟨"m1", "7"⟩
    initLocating LocationCache.empty (.ok []) (.ok []) (.ok edgeclusters) = .ok primed ∧
      eventOperation .added = some insertOperation ∧
      ∃ clusters : List String, clusters.Nodup ∧
        (∀ c, c ∈ clusters ↔
          c ∈ edgeclusters.map EdgeCluster.name ∧ ∀ i ∈ pre, ¬ i.deletesEdgeCluster c) ∧
        (step pathBuilders (run pathBuilders ⟨primed, ""⟩ pre).1 (.mission ⟨.added, .mission mission⟩)).2 =
          (clusters.filter fun c =>
              (pathBuilders.buildResource c "default" resourceTypeMission mission.name).err.isNone).map
            fun c => routed mission.resourceVersion
              (pathBuilders.buildResource c "default" resourceTypeMission mission.name).resource
              insertOperation (.mission mission) :=
  ⟨rfl, rfl, @mission_fanout_reaches_listed_clusters pathBuilders [] [] _ _ rfl _ .added _ rfl _⟩

/-- A cluster that joins after startup is live, yet a mission `Added` reaches nobody. -/
theorem late_cluster_gets_no_mission :
    ∃ lc, initLocating LocationCache.empty (.ok []) (.ok []) (.ok []) = .ok lc ∧
      let s := (run pathBuilders ⟨lc, ""⟩
        [.edgeCluster ⟨.added, .edgeCluster ⟨"ec1", []⟩⟩ (.ok [])]).1
      (step pathBuilders s (.mission ⟨.added, .mission ⟨"m1", "1"⟩⟩)).2 = [] :=
  ⟨_, rfl, by decide⟩

end EdgeController
