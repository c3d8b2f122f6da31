import EdgeController.Controller

/-! The configmap and secret indices over whole runs. Soundness holds against the last version of
each pod the pod loop indexed, deleted or not: nothing unindexes a deleted pod. Completeness holds
for an indexed pod only until its node or the referenced object is deleted. -/
namespace EdgeController

variable (b : Builders)

/-- A pod event for the pod `(ns, name)`. -/
def Input.touchesPod (ns name : String) : Input → Prop
  | .pod ⟨_, .pod p⟩ => p.«namespace» = ns ∧ p.name = name
  | _ => False

/-- A node `Deleted` event for the node `name`. -/
def Input.deletesNode (name : String) : Input → Prop
  | .node ⟨.deleted, .node n⟩ => n.name = name
  | _ => False

def Input.deletesConfigMap (ns name : String) : Input → Prop
  | .configMap ⟨.deleted, .configMap c⟩ => c.«namespace» = ns ∧ c.name = name
  | _ => False

def Input.deletesSecret (ns name : String) : Input → Prop
  | .secret ⟨.deleted, .secret s⟩ => s.«namespace» = ns ∧ s.name = name
  | _ => False

/-! ### Priming -/

theorem primeNodes_isEdgeNode (lc : LocationCache) (status : String) (nodes : List Node)
    (name : String) :
    (primeNodes lc status nodes).isEdgeNode name ↔ name ∈ nodes.map Node.name ∨ lc.isEdgeNode name := by
  induction nodes generalizing lc status with
  | nil => simp [primeNodes]
  | cons node rest ih =>
    rw [primeNodes, ih]
    by_cases same : name = node.name <;>
      simp [same, LocationCache.isEdgeNode, LocationCache.updateEdgeNode, Function.update]

theorem primePods_edgeNodes (lc : LocationCache) (pods : List Pod) :
    (primePods lc pods).edgeNodes = lc.edgeNodes :=
  primePods_preserves (fun lc' => lc'.edgeNodes = lc.edgeNodes) (fun _ _ _ same => same) rfl pods

/-- The pod loop records, in list order, the pods whose node is an edge node. -/
theorem primePods_pods (lc : LocationCache) (pods : List Pod) :
    (primePods lc pods).pods =
      ((pods.filter fun p => lc.isEdgeNode p.spec.nodeName).map PodEntry.ofPod).foldl upsert lc.pods := by
  induction pods generalizing lc with
  | nil => rfl
  | cons p rest ih =>
    by_cases edge : lc.isEdgeNode p.spec.nodeName
    · rw [primePods, if_pos edge, ih, List.filter_cons, if_pos edge]
      rfl
    · rw [primePods, if_neg edge, ih, List.filter_cons, if_neg edge]

/-! ### Soundness -/

/-- Every node of an entry is the node of a recorded pod in its namespace referencing it. -/
def Sound (index : String → String → List String) (pods : List PodEntry)
    (refs : PodEntry → List String) : Prop :=
  ∀ ns name n, n ∈ index ns name → Backed pods refs ns n name

theorem sound_reindex {index : String → String → List String} {pods : List PodEntry}
    {refs : PodEntry → List String} (distinct : (pods.map PodEntry.key).Nodup)
    (sound : Sound index pods refs) (entry : PodEntry) :
    Sound (reindex index (upsert pods entry) refs (pods.find? (·.key == entry.key)) entry)
      (upsert pods entry) refs := by
  intro ns name n member
  rcases mem_reindex.mp member with ⟨member, stale⟩ | ⟨rfl, named, rfl⟩
  · obtain ⟨p, hp, rfl, rfl, hname⟩ := sound _ _ _ member
    by_cases same : p.key = entry.key
    · exact stale p (find?_key distinct hp same) rfl rfl hname
    · exact ⟨p, mem_upsert.mpr (.inr ⟨hp, same⟩), rfl, rfl, hname⟩
  · exact ⟨entry, mem_upsert.mpr (.inl rfl), rfl, rfl, named⟩

/-- A purged entry is empty; every other entry is unchanged. -/
theorem mem_of_mem_purge {index : String → String → List String} {ns name ns' name' n : String}
    (member : n ∈ if ns' = ns ∧ name' = name then [] else index ns' name') : n ∈ index ns' name' := by
  split at member
  · simp at member
  · exact member

/-- `pod` is recorded, and its node is in the entry of each of its configmaps listed in
`configMaps` and each of its secrets listed in `secrets`. -/
structure Tracked (lc : LocationCache) (pod : Pod) (configMaps secrets : List String) : Prop where
  recorded : PodEntry.ofPod pod ∈ lc.pods
  configMap : ∀ c ∈ configMaps,
    c ∈ pod.configMaps ∧ pod.spec.nodeName ∈ lc.configMapNodes pod.«namespace» c
  secret : ∀ c ∈ secrets, c ∈ pod.secrets ∧ pod.spec.nodeName ∈ lc.secretNodes pod.«namespace» c

theorem mem_reindex_of_backed {index : String → String → List String} {pods : List PodEntry}
    {refs : PodEntry → List String} {old : Option PodEntry} {entry : PodEntry} {ns name n : String}
    (backed : Backed pods refs ns n name) (member : n ∈ index ns name) :
    n ∈ reindex index pods refs old entry ns name :=
  mem_reindex.mpr (.inl ⟨member, fun _ _ same _ _ => same ▸ backed⟩)

theorem tracked_addOrUpdatePod {lc : LocationCache} {pod : Pod} {configMaps secrets : List String}
    (tracked : Tracked lc pod configMaps secrets) (q : Pod)
    (other : (PodEntry.ofPod q).key ≠ (PodEntry.ofPod pod).key) :
    Tracked (lc.addOrUpdatePod q) pod configMaps secrets := by
  have recorded : PodEntry.ofPod pod ∈ (lc.addOrUpdatePod q).pods :=
    mem_upsert.mpr (.inr ⟨tracked.recorded, Ne.symm other⟩)
  refine ⟨recorded, fun c hc => ?_, fun c hc => ?_⟩
  · obtain ⟨named, member⟩ := tracked.configMap c hc
    exact ⟨named, mem_reindex_of_backed ⟨_, recorded, rfl, rfl, named⟩ member⟩
  · obtain ⟨named, member⟩ := tracked.secret c hc
    exact ⟨named, mem_reindex_of_backed ⟨_, recorded, rfl, rfl, named⟩ member⟩

theorem tracked_deleteNode {lc : LocationCache} {pod : Pod} {configMaps secrets : List String}
    (tracked : Tracked lc pod configMaps secrets) (name : String)
    (alive : name ≠ pod.spec.nodeName) : Tracked (lc.deleteNode name) pod configMaps secrets := by
  refine ⟨tracked.recorded, fun c hc => ?_, fun c hc => ?_⟩
  · obtain ⟨named, member⟩ := tracked.configMap c hc
    exact ⟨named, List.mem_filter.mpr ⟨member, by simpa using Ne.symm alive⟩⟩
  · obtain ⟨named, member⟩ := tracked.secret c hc
    exact ⟨named, List.mem_filter.mpr ⟨member, by simpa using Ne.symm alive⟩⟩

theorem tracked_deleteConfigMap {lc : LocationCache} {pod : Pod} {configMaps secrets : List String}
    (tracked : Tracked lc pod configMaps secrets) (ns name : String)
    (kept : ∀ c ∈ configMaps, ¬ (ns = pod.«namespace» ∧ name = c)) :
    Tracked (lc.deleteConfigMap ns name) pod configMaps secrets := by
  refine ⟨tracked.recorded, fun c hc => ?_, tracked.secret⟩
  obtain ⟨named, member⟩ := tracked.configMap c hc
  refine ⟨named, ?_⟩
  simp only [LocationCache.configMapNodes, LocationCache.deleteConfigMap] at member ⊢
  rw [if_neg fun purged => kept c hc ⟨purged.1.symm, purged.2.symm⟩]
  exact member

theorem tracked_deleteSecret {lc : LocationCache} {pod : Pod} {configMaps secrets : List String}
    (tracked : Tracked lc pod configMaps secrets) (ns name : String)
    (kept : ∀ c ∈ secrets, ¬ (ns = pod.«namespace» ∧ name = c)) :
    Tracked (lc.deleteSecret ns name) pod configMaps secrets := by
  refine ⟨tracked.recorded, tracked.configMap, fun c hc => ?_⟩
  obtain ⟨named, member⟩ := tracked.secret c hc
  refine ⟨named, ?_⟩
  simp only [LocationCache.secretNodes, LocationCache.deleteSecret] at member ⊢
  rw [if_neg fun purged => kept c hc ⟨purged.1.symm, purged.2.symm⟩]
  exact member

/-- An input that neither touches the pod nor deletes its node, nor one of the tracked
configmaps and secrets, keeps them tracked. -/
theorem tracked_effect {i : Input} {lc lc' : LocationCache} {pod : Pod}
    {configMaps secrets : List String} (effect : Effect i lc lc')
    (tracked : Tracked lc pod configMaps secrets)
    (other : ¬ i.touchesPod pod.«namespace» pod.name) (alive : ¬ i.deletesNode pod.spec.nodeName)
    (configMapsKept : ∀ c ∈ configMaps, ¬ i.deletesConfigMap pod.«namespace» c)
    (secretsKept : ∀ c ∈ secrets, ¬ i.deletesSecret pod.«namespace» c) :
    Tracked lc' pod configMaps secrets := by
  cases effect with
  | keep => exact tracked
  | @addOrUpdatePod e q _ object =>
    rcases e with ⟨type, _⟩
    subst object
    exact tracked_addOrUpdatePod tracked q fun same => other (Prod.ext_iff.mp same)
  | deleteConfigMap =>
    exact tracked_deleteConfigMap tracked _ _ fun c hc purged => configMapsKept c hc purged
  | deleteSecret => exact tracked_deleteSecret tracked _ _ fun c hc purged => secretsKept c hc purged
  | readyConditions => rw [foldl_readyCondition]; exact ⟨tracked.1, tracked.2, tracked.3⟩
  | deleteNode => exact tracked_deleteNode tracked _ alive
  | deleteEdgeCluster => exact ⟨tracked.1, tracked.2, tracked.3⟩

theorem Tracked.restrict {lc : LocationCache} {pod : Pod} {configMaps secrets configMaps' secrets' : List String}
    (tracked : Tracked lc pod configMaps secrets) (hc : configMaps' ⊆ configMaps)
    (hs : secrets' ⊆ secrets) : Tracked lc pod configMaps' secrets' :=
  ⟨tracked.recorded, fun c h => tracked.configMap c (hc h), fun c h => tracked.secret c (hs h)⟩

theorem tracked_run {s : Controller} {pod : Pod} {configMaps secrets : List String}
    (post : List Input) (tracked : Tracked s.lc pod configMaps secrets)
    (untouched : ∀ i ∈ post, ¬ i.touchesPod pod.«namespace» pod.name ∧ ¬ i.deletesNode pod.spec.nodeName)
    (configMapsKept : ∀ i ∈ post, ∀ c ∈ configMaps, ¬ i.deletesConfigMap pod.«namespace» c)
    (secretsKept : ∀ i ∈ post, ∀ c ∈ secrets, ¬ i.deletesSecret pod.«namespace» c) :
    Tracked (run b s post).1.lc pod configMaps secrets := by
  induction post generalizing s with
  | nil => exact tracked
  | cons i rest ih =>
    have head := List.mem_cons_self i rest
    have next := tracked_effect (step_effect b s i) tracked (untouched i head).1 (untouched i head).2
      (configMapsKept i head) (secretsKept i head)
    exact ih next (fun j hj => untouched j (List.mem_cons_of_mem _ hj))
      (fun j hj => configMapsKept j (List.mem_cons_of_mem _ hj))
      (fun j hj => secretsKept j (List.mem_cons_of_mem _ hj))

/-- The node of `pod` is in the entry of each configmap and secret the pod references, save
those a `post` input deleted. -/
def Referenced (lc : LocationCache) (pod : Pod) (post : List Input) : Prop :=
  (∀ c ∈ pod.configMaps, (∀ i ∈ post, ¬ i.deletesConfigMap pod.«namespace» c) →
    pod.spec.nodeName ∈ lc.configMapNodes pod.«namespace» c) ∧
  (∀ c ∈ pod.secrets, (∀ i ∈ post, ¬ i.deletesSecret pod.«namespace» c) →
    pod.spec.nodeName ∈ lc.secretNodes pod.«namespace» c)

theorem referenced_run {s : Controller} {pod : Pod} (post : List Input)
    (tracked : Tracked s.lc pod pod.configMaps pod.secrets)
    (untouched : ∀ i ∈ post, ¬ i.touchesPod pod.«namespace» pod.name ∧ ¬ i.deletesNode pod.spec.nodeName) :
    Referenced (run b s post).1.lc pod post := by
  constructor
  · intro c hc kept
    have one := tracked_run b post (tracked.restrict (List.cons_subset.mpr ⟨hc, List.nil_subset _⟩) (List.nil_subset _))
      untouched (fun i hi c' hc' => List.eq_of_mem_singleton hc' ▸ kept i hi) (by simp)
    exact (one.configMap c (List.mem_singleton_self c)).2
  · intro c hc kept
    have one := tracked_run b post (tracked.restrict (List.nil_subset _) (List.cons_subset.mpr ⟨hc, List.nil_subset _⟩))
      untouched (by simp) (fun i hi c' hc' => List.eq_of_mem_singleton hc' ▸ kept i hi)
    exact (one.secret c (List.mem_singleton_self c)).2

theorem tracked_addOrUpdatePod_self (lc : LocationCache) (pod : Pod) :
    Tracked (lc.addOrUpdatePod pod) pod pod.configMaps pod.secrets :=
  ⟨mem_upsert.mpr (.inl rfl), fun _ hc => ⟨hc, mem_reindex.mpr (.inr ⟨rfl, hc, rfl⟩)⟩,
    fun _ hc => ⟨hc, mem_reindex.mpr (.inr ⟨rfl, hc, rfl⟩)⟩⟩

theorem syncPod_addOrUpdatePod {lc : LocationCache} {e : Event} {pod : Pod}
    (object : e.object = .pod pod) (update : e.type = .added ∨ e.type = .modified)
    (edge : lc.isEdgeNode pod.spec.nodeName)
    (built : (b.buildResource pod.spec.nodeName pod.«namespace» resourceTypePod pod.name).err = none) :
    (syncPod b lc e).1 = lc.addOrUpdatePod pod := by
  rcases e with ⟨type, object⟩
  subst object
  rcases update with rfl | rfl <;> simp [syncPod, edge, built]

theorem primePods_append (lc : LocationCache) (before after : List Pod) :
    primePods lc (before ++ after) = primePods (primePods lc before) after := by
  induction before generalizing lc with
  | nil => rfl
  | cons p rest ih => exact ih _

theorem tracked_primePods_after {lc : LocationCache} {pod : Pod} (after : List Pod)
    (tracked : Tracked lc pod pod.configMaps pod.secrets)
    (last : ∀ q ∈ after, (PodEntry.ofPod q).key ≠ (PodEntry.ofPod pod).key) :
    Tracked (primePods lc after) pod pod.configMaps pod.secrets := by
  induction after generalizing lc with
  | nil => exact tracked
  | cons q rest ih =>
    apply ih _ (fun q' hq' => last q' (List.mem_cons_of_mem _ hq'))
    split
    · exact tracked_addOrUpdatePod tracked q (last q (List.mem_cons_self _ _))
    · exact tracked

theorem tracked_primeEdgeClusters {lc : LocationCache} {pod : Pod} {configMaps secrets : List String}
    (tracked : Tracked lc pod configMaps secrets) (edgeclusters : List EdgeCluster) :
    Tracked (primeEdgeClusters lc edgeclusters) pod configMaps secrets := by
  rw [primeEdgeClusters_form]
  exact ⟨tracked.1, tracked.2, tracked.3⟩

/-- Once the pod loop has handled `Added` or `Modified` for a pod on an edge node whose resource
builds, or `initLocating` has primed it, its node stays in the entry of each configmap and secret
it references until the next event for the pod, a `Deleted` for its node, or a `Deleted` for that
configmap or secret. -/
theorem pod_references_stay_indexed (pod : Pod) (post : List Input)
    (untouched : ∀ i ∈ post, ¬ i.touchesPod pod.«namespace» pod.name ∧ ¬ i.deletesNode pod.spec.nodeName) :
    (∀ (s : Controller) (e : Event), e.object = .pod pod → (e.type = .added ∨ e.type = .modified) →
      s.lc.isEdgeNode pod.spec.nodeName →
      (b.buildResource pod.spec.nodeName pod.«namespace» resourceTypePod pod.name).err = none →
      Referenced (run b (step b s (.pod e)).1 post).1.lc pod post) ∧
    (∀ nodes before after edgeclusters lc,
      initLocating LocationCache.empty (.ok nodes) (.ok (before ++ pod :: after)) (.ok edgeclusters) =
        .ok lc →
      pod.spec.nodeName ∈ nodes.map Node.name →
      (∀ q ∈ after, (q.«namespace», q.name) ≠ (pod.«namespace», pod.name)) →
      Referenced (run b ⟨lc, ""⟩ post).1.lc pod post) := by
  constructor
  · intro s e object update edge built
    apply referenced_run b post _ untouched
    show Tracked (syncPod b s.lc e).1 _ _ _
    rw [syncPod_addOrUpdatePod b object update edge built]
    exact tracked_addOrUpdatePod_self _ _
  · intro nodes before after edgeclusters lc primed listed last
    rw [initLocating_ok] at primed
    cases primed
    apply referenced_run b post _ untouched
    apply tracked_primeEdgeClusters
    rw [primePods_append, primePods]
    have edge : (primePods (primeNodes LocationCache.empty "" nodes) before).isEdgeNode pod.spec.nodeName := by
      simp only [LocationCache.isEdgeNode, primePods_edgeNodes] at *
      exact (primeNodes_isEdgeNode _ _ _ _).mpr (.inl listed)
    rw [if_pos edge]
    exact tracked_primePods_after after (tracked_addOrUpdatePod_self _ _) last

theorem pod_references_stay_indexed_after_added :
    let pod : Pod := ⟨"p", "app", "1", ⟨"n1", [.configMap "c1"], []⟩⟩
    let post : List Input :=
      [.configMap ⟨.modified, .configMap ⟨"c1", "app", "2"⟩⟩, .node ⟨.added, .node ⟨"n2", []⟩⟩]
    let s : Controller := ⟨LocationCache.empty.updateEdgeNode "n1" "True", ""⟩
    (∀ i ∈ post, ¬ i.touchesPod pod.«namespace» pod.name ∧ ¬ i.deletesNode pod.spec.nodeName) ∧
      s.lc.isEdgeNode pod.spec.nodeName ∧
      Referenced (run pathBuilders (step pathBuilders s (.pod ⟨.added, .pod pod⟩)).1 post).1.lc pod post :=
  have untouched := by simp [Input.touchesPod, Input.deletesNode]
  ⟨untouched, by decide,
    (pod_references_stay_indexed pathBuilders _ _ untouched).1 _ _ rfl (.inl rfl) (by decide) (by decide)⟩

/-- A pod added before its node is an edge node is never indexed: when the node's `Added`
follows, the pod is live and on an edge node, but its configmap entry stays empty. -/
theorem pod_before_node_unindexed :
    let pod : Pod := ⟨"p", "app", "1", ⟨"n1", [.configMap "c1"], []⟩⟩
    ∃ lc, initLocating LocationCache.empty (.ok []) (.ok []) (.ok []) = .ok lc ∧
      let s := (run pathBuilders ⟨lc, ""⟩
        [.pod ⟨.added, .pod pod⟩, .node ⟨.added, .node ⟨"n1", [⟨"Ready", "True"⟩]⟩⟩]).1
      s.lc.isEdgeNode "n1" ∧ "c1" ∈ pod.configMaps ∧ "n1" ∉ s.lc.configMapNodes "app" "c1" :=
  ⟨_, rfl, by decide⟩

/-! ### Index nodes are edge nodes -/

/-- Every node of an entry of `index` is in `edgeNodes`. -/
def OnEdge (index : String → String → List String) (edgeNodes : String → Option String) : Prop :=
  ∀ ns name n, n ∈ index ns name → (edgeNodes n).isSome

/-- Spec invariant 1: every node in a configmap or secret entry is an edge node. -/
def EdgeIndexed (lc : LocationCache) : Prop :=
  OnEdge lc.configMapNode lc.edgeNodes ∧ OnEdge lc.secretNode lc.edgeNodes

theorem onEdge_grow {index : String → String → List String} {edgeNodes edgeNodes' : String → Option String}
    (onEdge : OnEdge index edgeNodes) (grow : ∀ n, (edgeNodes n).isSome → (edgeNodes' n).isSome) :
    OnEdge index edgeNodes' :=
  fun ns name n member => grow n (onEdge ns name n member)

theorem update_isSome {edgeNodes : String → Option String} (name status n : String)
    (edge : (edgeNodes n).isSome) : (Function.update edgeNodes name (some status) n).isSome := by
  by_cases same : n = name
  · subst same; simp
  · rwa [Function.update_noteq same]

theorem foldl_readyCondition_isSome (name : String) (conditions : List NodeCondition)
    (lc : LocationCache) (n : String) (edge : (lc.edgeNodes n).isSome) :
    ((conditions.foldl (readyCondition name) lc).edgeNodes n).isSome := by
  induction conditions generalizing lc with
  | nil => exact edge
  | cons nsc rest ih =>
    apply ih
    unfold readyCondition
    split
    · exact update_isSome name nsc.status n edge
    · exact edge

theorem onEdge_reindex {index : String → String → List String} {edgeNodes : String → Option String}
    {pods : List PodEntry} {refs : PodEntry → List String} {old : Option PodEntry} {entry : PodEntry}
    (onEdge : OnEdge index edgeNodes) (edge : (edgeNodes entry.nodeName).isSome) :
    OnEdge (reindex index pods refs old entry) edgeNodes := by
  intro ns name n member
  rcases mem_reindex.mp member with ⟨member, -⟩ | ⟨-, -, rfl⟩
  · exact onEdge ns name n member
  · exact edge

theorem onEdge_deleteNode {index : String → String → List String} {edgeNodes : String → Option String}
    (onEdge : OnEdge index edgeNodes) (name : String) :
    OnEdge (fun ns c => (index ns c).filter (· ≠ name)) (Function.update edgeNodes name none) := by
  intro ns c n member
  obtain ⟨member, other⟩ := List.mem_filter.mp member
  rw [Function.update_noteq (by simpa using other)]
  exact onEdge ns c n member

theorem onEdge_purge {index : String → String → List String} {edgeNodes : String → Option String}
    (onEdge : OnEdge index edgeNodes) (ns name : String) :
    OnEdge (fun ns' name' => if ns' = ns ∧ name' = name then [] else index ns' name') edgeNodes :=
  fun ns' name' n member => onEdge ns' name' n (mem_of_mem_purge member)

theorem edgeIndexed_addOrUpdatePod {lc : LocationCache} (indexed : EdgeIndexed lc) (pod : Pod)
    (edge : lc.isEdgeNode pod.spec.nodeName) : EdgeIndexed (lc.addOrUpdatePod pod) :=
  ⟨onEdge_reindex indexed.1 edge, onEdge_reindex indexed.2 edge⟩

theorem edgeIndexed_effect {i : Input} {lc lc' : LocationCache} (effect : Effect i lc lc')
    (indexed : EdgeIndexed lc) : EdgeIndexed lc' := by
  cases effect with
  | keep => exact indexed
  | addOrUpdatePod _ _ edge => exact edgeIndexed_addOrUpdatePod indexed _ edge
  | deleteConfigMap => exact ⟨onEdge_purge indexed.1 _ _, indexed.2⟩
  | deleteSecret => exact ⟨indexed.1, onEdge_purge indexed.2 _ _⟩
  | readyConditions =>
    rw [foldl_readyCondition]
    exact ⟨onEdge_grow indexed.1 (foldl_readyCondition_isSome _ _ _),
      onEdge_grow indexed.2 (foldl_readyCondition_isSome _ _ _)⟩
  | deleteNode => exact ⟨onEdge_deleteNode indexed.1 _, onEdge_deleteNode indexed.2 _⟩
  | deleteEdgeCluster => exact indexed

theorem edgeIndexed_primeNodes {lc : LocationCache} (indexed : EdgeIndexed lc) (status : String)
    (nodes : List Node) : EdgeIndexed (primeNodes lc status nodes) := by
  induction nodes generalizing lc status with
  | nil => exact indexed
  | cons node rest ih =>
    exact ih (show EdgeIndexed (lc.updateEdgeNode node.name _) from
      ⟨onEdge_grow indexed.1 (update_isSome _ _), onEdge_grow indexed.2 (update_isSome _ _)⟩) _

theorem edgeIndexed_primePods {lc : LocationCache} (indexed : EdgeIndexed lc) (pods : List Pod) :
    EdgeIndexed (primePods lc pods) :=
  primePods_preserves _ (fun _ p edge indexed => edgeIndexed_addOrUpdatePod indexed p edge) indexed pods

theorem edgeIndexed_primeEdgeClusters {lc : LocationCache} (indexed : EdgeIndexed lc)
    (edgeclusters : List EdgeCluster) : EdgeIndexed (primeEdgeClusters lc edgeclusters) := by
  rw [primeEdgeClusters_form]
  exact indexed

/-- When every loop runs each event to completion, spec invariant 1 holds in every reachable
state: the pod loop's `IsEdgeNode` check and its `AddOrUpdatePod` see the same cache. -/
theorem edge_indexed_reachable {s : Controller} (reachable : Reachable b s) : EdgeIndexed s.lc := by
  induction reachable with
  | init primed =>
    rw [initLocating_ok] at primed
    cases primed
    have empty : EdgeIndexed LocationCache.empty := ⟨fun _ _ _ h => (nomatch h), fun _ _ _ h => (nomatch h)⟩
    exact edgeIndexed_primeEdgeClusters (edgeIndexed_primePods (edgeIndexed_primeNodes empty _ _) _) _
  | step i _ indexed => exact edgeIndexed_effect (step_effect b _ i) indexed

theorem edge_indexed_after_pod :
    let lc := primeEdgeClusters (primePods (primeNodes LocationCache.empty "" [⟨"n1", []⟩])
      [⟨"p", "app", "1", ⟨"n1", [.configMap "c1"], []⟩⟩]) []
    Reachable pathBuilders ⟨lc, ""⟩ ∧ EdgeIndexed lc :=
  let reachable := Reachable.init rfl
  ⟨reachable, edge_indexed_reachable pathBuilders reachable⟩

end EdgeController
