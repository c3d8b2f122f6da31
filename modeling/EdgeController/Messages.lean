import EdgeController.Missions
import Mathlib.Data.List.Perm.Subperm

/-! What each loop sends for one event. The reconcile's `reflect.DeepEqual` on the two
`map[string]bool` it builds is set equality of the name lists. Seven loops send only resources
that built without error; `syncEdgeClusters` sends its mission list whatever the build returned. -/
namespace EdgeController

variable (b : Builders)

/-! ### Go maps -/

/-- Overwriting the value of a present key keeps the keys. -/
theorem keys_overwrite (m : List (String × Bool)) (k : String) (v : Bool) :
    (m.map fun p => if p.1 = k then (k, v) else p).map Prod.fst = m.map Prod.fst := by
  rw [List.map_map]
  apply List.map_congr_left
  intro q _
  by_cases h : q.1 = k <;> simp [h]

theorem mem_keys_mapSet {m : List (String × Bool)} {k k' : String} {v : Bool} :
    k' ∈ (mapSet m k v).map Prod.fst ↔ k' = k ∨ k' ∈ m.map Prod.fst := by
  unfold mapSet
  split
  · rename_i present
    obtain ⟨p, hp, same⟩ := List.any_eq_true.mp present
    rw [keys_overwrite]
    constructor
    · exact .inr
    · rintro (rfl | member)
      · exact List.mem_map.mpr ⟨p, hp, by simpa using same⟩
      · exact member
  · simp [or_comm]

theorem nodup_keys_mapSet {m : List (String × Bool)} (distinct : (m.map Prod.fst).Nodup)
    (k : String) (v : Bool) : ((mapSet m k v).map Prod.fst).Nodup := by
  unfold mapSet
  split
  · rwa [keys_overwrite]
  · rename_i fresh
    simp only [List.map_append, List.map_cons, List.map_nil]
    apply distinct.append (List.nodup_singleton _)
    simpa [List.disjoint_singleton, List.any_eq_true] using fresh

theorem values_mapSet {m : List (String × Bool)} (trues : ∀ p ∈ m, p.2 = true) (k : String) :
    ∀ p ∈ mapSet m k true, p.2 = true := by
  unfold mapSet
  split
  · simp only [List.mem_map]
    rintro _ ⟨q, hq, rfl⟩
    split
    · rfl
    · exact trues q hq
  · simp only [List.mem_append, List.mem_singleton]
    rintro p (member | rfl)
    · exact trues p member
    · rfl

/-- The facts `nameSet` keeps: its keys are the names without repeats, and every value is true. -/
structure NameSet (names : List String) (m : List (String × Bool)) : Prop where
  keys : ∀ k, k ∈ m.map Prod.fst ↔ k ∈ names
  distinct : (m.map Prod.fst).Nodup
  trues : ∀ p ∈ m, p.2 = true

theorem nameSet_spec (names : List String) : NameSet names (nameSet names) := by
  suffices loop : ∀ (m : List (String × Bool)) (seen : List String), NameSet seen m →
      NameSet (seen ++ names) (names.foldl (fun m k => mapSet m k true) m) from
    loop [] [] ⟨by simp, List.nodup_nil, by simp⟩
  induction names with
  | nil => intro m seen set; simpa using set
  | cons k rest ih =>
    intro m seen set
    have next := ih (mapSet m k true) (seen ++ [k])
      ⟨fun k' => by rw [mem_keys_mapSet, set.keys]; simp [or_comm],
        nodup_keys_mapSet set.distinct k true, values_mapSet set.trues k⟩
    simpa using next

theorem lookup_eq_some_true {m : List (String × Bool)} (trues : ∀ p ∈ m, p.2 = true) (k : String) :
    m.lookup k = some true ↔ k ∈ m.map Prod.fst := by
  induction m with
  | nil => simp
  | cons p rest ih =>
    rcases p with ⟨k', v⟩
    have hv : v = true := trues (k', v) (List.mem_cons_self _ _)
    rw [List.lookup_cons, List.map_cons, List.mem_cons]
    by_cases same : k = k'
    · subst same; simp [hv]
    · simp only [beq_false_of_ne same, same, false_or]
      exact ih fun p hp => trues p (List.mem_cons_of_mem _ hp)

/-- `reflect.DeepEqual` of the two reconcile maps is equality of the two name sets, whatever
the order and repetitions of either list. -/
theorem deepEqual_nameSet (xs ys : List String) :
    deepEqual (nameSet xs) (nameSet ys) = true ↔ ∀ k, k ∈ xs ↔ k ∈ ys := by
  obtain ⟨keysX, distinctX, truesX⟩ := nameSet_spec xs
  obtain ⟨keysY, distinctY, truesY⟩ := nameSet_spec ys
  have within : (nameSet xs).all (fun p => (nameSet ys).lookup p.1 == some p.2) = true ↔
      (nameSet xs).map Prod.fst ⊆ (nameSet ys).map Prod.fst := by
    simp only [List.all_eq_true, beq_iff_eq, List.subset_def]
    constructor
    · intro covered k member
      obtain ⟨p, hp, rfl⟩ := List.mem_map.mp member
      rw [← lookup_eq_some_true truesY, ← truesX p hp]
      exact covered p hp
    · intro covered p hp
      rw [truesX p hp, lookup_eq_some_true truesY]
      exact covered (List.mem_map_of_mem _ hp)
  unfold deepEqual
  rw [Bool.and_eq_true, beq_iff_eq, within]
  constructor
  · rintro ⟨length, covered⟩ k
    have perm := (List.subperm_of_subset distinctX covered).perm_of_length_le (by simp [length])
    rw [← keysX, ← keysY]
    exact perm.mem_iff
  · intro same
    have perm : ((nameSet xs).map Prod.fst).Perm ((nameSet ys).map Prod.fst) :=
      (List.perm_ext_iff_of_nodup distinctX distinctY).mpr fun k => by rw [keysX, keysY, same]
    exact ⟨by simpa using perm.length_eq, perm.subset⟩

/-! ### Reconcile -/

/-- An `Added` or `Modified` edge cluster gets one mission-list update exactly when the names it
reports and the names the lister returns differ as sets; a failed list sends nothing, and the
cache is left as it was. -/
theorem reconcile_sends_when_sets_differ (lc : LocationCache) (ec : EdgeCluster) {type : EventType}
    (update : type = .added ∨ type = .modified) (missions : List Mission) (err : String) :
    let sent := syncEdgeClusters b lc (.ok missions) ⟨type, .edgeCluster ec⟩
    sent.1 = lc ∧
      ((∀ m, m ∈ ec.receivedMissions ↔ m ∈ missions.map Mission.name) → sent.2 = []) ∧
      (¬ (∀ m, m ∈ ec.receivedMissions ↔ m ∈ missions.map Mission.name) →
        sent.2 = [routed "" (b.buildResource ec.name "default" resourceTypeMissionList "").resource
          updateOperation (.missionList missions)]) ∧
      syncEdgeClusters b lc (.error err) ⟨type, .edgeCluster ec⟩ = (lc, []) := by
  have equal := deepEqual_nameSet ec.receivedMissions (missions.map Mission.name)
  rcases update with rfl | rfl <;>
  · simp only [syncEdgeClusters]
    refine ⟨by split <;> rfl, fun same => ?_, fun differ => ?_, trivial⟩
    · rw [if_pos (equal.mpr same)]
    · rw [if_neg (mt equal.mp differ)]

theorem reconcile_sends_when_sets_differ_ec1 :
    let missions : List Mission := [⟨"m1", "1"⟩, ⟨"m2", "1"⟩]
    (syncEdgeClusters pathBuilders LocationCache.empty (.ok missions)
        ⟨.added, .edgeCluster ⟨"ec1", ["m2", "m1", "m2"]⟩⟩).2 = [] ∧
      (syncEdgeClusters pathBuilders LocationCache.empty (.ok missions)
        ⟨.modified, .edgeCluster ⟨"ec1", ["m1"]⟩⟩).2 =
        [routed "" "ec1/default/missionlist/" updateOperation (.missionList missions)] :=
  have same : ∀ m, m ∈ ["m2", "m1", "m2"] ↔ m ∈ ["m1", "m2"] := fun m => by
    simp only [List.mem_cons, List.mem_singleton, List.not_mem_nil, or_false]
    tauto
  have differ : ¬ ∀ m, m ∈ ["m1"] ↔ m ∈ ["m1", "m2"] := fun equal => by simpa using equal "m2"
  ⟨(reconcile_sends_when_sets_differ pathBuilders LocationCache.empty ⟨"ec1", ["m2", "m1", "m2"]⟩
      (.inl rfl) [⟨"m1", "1"⟩, ⟨"m2", "1"⟩] "").2.1 same,
    (reconcile_sends_when_sets_differ pathBuilders LocationCache.empty ⟨"ec1", ["m1"]⟩
      (.inr rfl) [⟨"m1", "1"⟩, ⟨"m2", "1"⟩] "").2.2.1 differ⟩

/-! ### Resources that built -/

/-- A resource the builders returned without error. -/
def BuiltResource (resource : String) : Prop :=
  (∃ node ns kind name, b.buildResource node ns kind name = ⟨resource, none⟩) ∨
    ∃ kind name, b.buildResourceForRouter kind name = ⟨resource, none⟩

theorem eq_of_err_none {r : BuildResult} (ok : r.err = none) : r = ⟨r.resource, none⟩ := by
  cases r; cases ok; rfl

theorem fanOut_built {destinations : List String} {ns kind name rv operation : String}
    {content : Content} {msg : Message}
    (sent : msg ∈ fanOut b destinations ns kind name rv operation content) :
    BuiltResource b msg.resource := by
  rw [fanOut_eq] at sent
  obtain ⟨d, member, rfl⟩ := List.mem_map.mp sent
  exact .inl ⟨d, ns, kind, name, eq_of_err_none (by simpa using (List.mem_filter.mp member).2)⟩

theorem syncPod_built {lc : LocationCache} {e : Event} {msg : Message}
    (sent : msg ∈ (syncPod b lc e).2) : BuiltResource b msg.resource := by
  rcases e with ⟨type, object⟩
  cases object
  case pod pod =>
    by_cases edge : lc.isEdgeNode pod.spec.nodeName
    · cases built : (b.buildResource pod.spec.nodeName pod.«namespace» resourceTypePod pod.name).err
      · have made : msg.resource =
            (b.buildResource pod.spec.nodeName pod.«namespace» resourceTypePod pod.name).resource := by
          cases type <;> simp [syncPod, edge, built] at sent <;> rw [sent] <;> rfl
        exact .inl ⟨_, _, _, _, made ▸ eq_of_err_none built⟩
      · simp [syncPod, edge, built] at sent
    · simp [syncPod, edge] at sent
  all_goals simp [syncPod] at sent

theorem syncEdgeNodes_built {lc : LocationCache} {e : Event} {msg : Message}
    (sent : msg ∈ (syncEdgeNodes b lc e).2) : BuiltResource b msg.resource := by
  rcases e with ⟨type, object⟩
  cases object
  case node node =>
    cases type
    case deleted =>
      cases built : (b.buildResource node.name "namespace" resourceNode node.name).err
      · simp only [syncEdgeNodes, built, List.mem_singleton] at sent
        subst sent
        exact .inl ⟨_, _, _, _, eq_of_err_none built⟩
      · simp [syncEdgeNodes, built] at sent
    all_goals simp [syncEdgeNodes] at sent
  all_goals simp [syncEdgeNodes] at sent

theorem syncMountable_built {operationOf : EventType → Option String}
    {nodesOf : LocationCache → String → String → List String}
    {purge : LocationCache → String → String → LocationCache} {kind : String} {lc : LocationCache}
    {type : EventType} {ns name rv : String} {content : Content} {msg : Message}
    (sent : msg ∈ (syncMountable b operationOf nodesOf purge kind lc type ns name rv content).2) :
    BuiltResource b msg.resource := by
  unfold syncMountable at sent
  split at sent
  · simp at sent
  · exact fanOut_built b sent

theorem syncRouted_built {kind name rv : String} {content : Content} {type : EventType}
    {msg : Message} (sent : msg ∈ syncRouted b kind name rv content type) :
    BuiltResource b msg.resource := by
  unfold syncRouted at sent
  cases built : (b.buildResourceForRouter kind name).err
  · have made : msg.resource = (b.buildResourceForRouter kind name).resource := by
      cases type <;> simp [built] at sent <;> rw [sent] <;> rfl
    exact .inr ⟨_, _, made ▸ eq_of_err_none built⟩
  · simp [built] at sent

/-- Every loop but the edge-cluster one sends only resources the builders returned without
error: a failed build skips the event, or that destination of a fan-out. -/
theorem sent_resources_built (s : Controller) (i : Input)
    (other : ∀ e missionList, i ≠ .edgeCluster e missionList) (msg : Message)
    (sent : msg ∈ (step b s i).2) : BuiltResource b msg.resource := by
  cases i with
  | pod e => exact syncPod_built b sent
  | configMap e =>
    rcases e with ⟨type, object⟩
    cases object
    case configMap c => exact syncMountable_built b sent
    all_goals simp [step, syncConfigMap] at sent
  | secret e =>
    rcases e with ⟨type, object⟩
    cases object
    case secret c => exact syncMountable_built b sent
    all_goals simp [step, syncSecret] at sent
  | node e => exact syncEdgeNodes_built b sent
  | rule e =>
    rcases e with ⟨type, object⟩
    cases object
    case rule r => exact syncRouted_built b sent
    all_goals simp [step, syncRule] at sent
  | ruleEndpoint e =>
    rcases e with ⟨type, object⟩
    cases object
    case ruleEndpoint r => exact syncRouted_built b sent
    all_goals simp [step, syncRuleEndpoint] at sent
  | mission e =>
    rcases e with ⟨type, object⟩
    cases object
    case mission m =>
      simp only [step, syncMissions] at sent
      split at sent
      · simp at sent
      · exact fanOut_built b sent
    all_goals simp [step, syncMissions] at sent
  | edgeCluster e missionList => exact absurd rfl (other e missionList)

theorem sent_resources_built_rule :
    let i : Input := .rule ⟨.added, .rule ⟨"r1", "3"⟩⟩
    let msg := routed "3" "rule/r1" insertOperation (.rule ⟨"r1", "3"⟩)
    (∀ e missionList, i ≠ .edgeCluster e missionList) ∧
      msg ∈ (step pathBuilders ⟨LocationCache.empty, ""⟩ i).2 ∧ BuiltResource pathBuilders msg.resource :=
  have other : ∀ e missionList, (Input.rule ⟨.added, .rule ⟨"r1", "3"⟩⟩) ≠ .edgeCluster e missionList :=
    fun _ _ => Input.noConfusion
  have sent : routed "3" "rule/r1" insertOperation (.rule ⟨"r1", "3"⟩) ∈
      (step pathBuilders ⟨LocationCache.empty, ""⟩ (.rule ⟨.added, .rule ⟨"r1", "3"⟩⟩)).2 := by decide
  ⟨other, sent, sent_resources_built pathBuilders _ _ other _ sent⟩

/-- With the spec's path builder, an edge cluster with an empty name fails the mission-list
build, and the reconcile still sends the mission list, routed to the empty resource. -/
theorem reconcile_sends_failed_build :
    (pathBuilders.buildResource "" "default" resourceTypeMissionList "").err ≠ none ∧
      (syncEdgeClusters pathBuilders LocationCache.empty (.ok [⟨"m1", "1"⟩])
        ⟨.added, .edgeCluster ⟨"", []⟩⟩).2 =
        [routed "" "" updateOperation (.missionList [⟨"m1", "1"⟩])] := by
  decide

/-! ### Configmaps and secrets -/

/-- For a configmap or secret event, one message per node of the index entry as it stood before
the event, skipping the nodes whose resource does not build, with the object's version and the
object as body; `Deleted` then removes the entry. Secrets send update for `Added`. -/
theorem configMap_secret_fanout (lc : LocationCache) (e : Event) :
    let fan := fun (nodes : List String) (ns kind name resourceVersion operation : String)
        (content : Content) =>
      (nodes.filter fun n => (b.buildResource n ns kind name).err.isNone).map fun n =>
        routed resourceVersion (b.buildResource n ns kind name).resource operation content
    syncConfigMap b lc e =
      (match e.type, e.object with
        | .added, .configMap c => (lc, fan (lc.configMapNodes c.«namespace» c.name) c.«namespace»
            resourceTypeConfigmap c.name c.resourceVersion insertOperation (.configMap c))
        | .modified, .configMap c => (lc, fan (lc.configMapNodes c.«namespace» c.name) c.«namespace»
            resourceTypeConfigmap c.name c.resourceVersion updateOperation (.configMap c))
        | .deleted, .configMap c => (lc.deleteConfigMap c.«namespace» c.name,
            fan (lc.configMapNodes c.«namespace» c.name) c.«namespace»
              resourceTypeConfigmap c.name c.resourceVersion deleteOperation (.configMap c))
        | _, _ => (lc, [])) ∧
    syncSecret b lc e =
      (match e.type, e.object with
        | .added, .secret c => (lc, fan (lc.secretNodes c.«namespace» c.name) c.«namespace»
            resourceTypeSecret c.name c.resourceVersion updateOperation (.secret c))
        | .modified, .secret c => (lc, fan (lc.secretNodes c.«namespace» c.name) c.«namespace»
            resourceTypeSecret c.name c.resourceVersion updateOperation (.secret c))
        | .deleted, .secret c => (lc.deleteSecret c.«namespace» c.name,
            fan (lc.secretNodes c.«namespace» c.name) c.«namespace»
              resourceTypeSecret c.name c.resourceVersion deleteOperation (.secret c))
        | _, _ => (lc, [])) := by
  intro fan
  rcases e with ⟨type, object⟩
  constructor
  · cases object
    case configMap c =>
      cases type <;> simp [fan, syncConfigMap, syncMountable, eventOperation, fanOut_eq]
    all_goals cases type <;> rfl
  · cases object
    case secret c => cases type <;> simp [fan, syncSecret, syncMountable, secretOperation, fanOut_eq]
    all_goals cases type <;> rfl

end EdgeController
