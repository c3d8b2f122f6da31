import EdgeController.Priming

/-! `initLocating` run a second time, with the same lists, on the cache a first run left. Each
loop of the second run meets a cache that already holds its effects, so the cache comes back as
it was; with a pod listed twice, an index entry may come back in another order. -/
namespace EdgeController

/-! ### Exact indices -/

/-- An index holds exactly the nodes of the recorded pods that reference each entry, once each. -/
structure Exact (index : String → String → List String) (pods : List PodEntry)
    (refs : PodEntry → List String) : Prop where
  sound : Sound index pods refs
  complete : ∀ p ∈ pods, ∀ name ∈ refs p, p.nodeName ∈ index p.«namespace» name
  distinct : ∀ ns name, (index ns name).Nodup

section Exact

variable {index index' : String → String → List String} {pods : List PodEntry}
  {refs : PodEntry → List String}

theorem Exact.mem_iff (exact : Exact index pods refs) {ns name n : String} :
    n ∈ index ns name ↔ Backed pods refs ns n name := by
  refine ⟨exact.sound ns name n, ?_⟩
  rintro ⟨p, member, rfl, rfl, named⟩
  exact exact.complete p member name named

theorem Exact.perm (exact : Exact index pods refs) (exact' : Exact index' pods refs)
    (ns name : String) : (index' ns name).Perm (index ns name) :=
  (List.perm_ext_iff_of_nodup (exact'.distinct ns name) (exact.distinct ns name)).mpr fun _ =>
    exact'.mem_iff.trans exact.mem_iff.symm

theorem nodup_attach (distinct : ∀ ns name, (index ns name).Nodup) (ns' : String)
    (names : List String) (node ns name : String) : (attach index ns' names node ns name).Nodup := by
  unfold attach
  split
  · exact (distinct ns name).insert
  · exact distinct ns name

theorem nodup_detach (distinct : ∀ ns name, (index ns name).Nodup) (ns' : String)
    (names : List String) (node ns name : String) :
    (detach index pods refs ns' names node ns name).Nodup := by
  unfold detach
  split
  · exact (distinct ns name).filter _
  · exact distinct ns name

theorem nodup_reindex (distinct : ∀ ns name, (index ns name).Nodup) (old : Option PodEntry)
    (entry : PodEntry) (ns name : String) : (reindex index pods refs old entry ns name).Nodup := by
  cases old
  · exact nodup_attach distinct _ _ _ ns name
  · exact nodup_attach (nodup_detach distinct _ _ _) _ _ _ ns name

theorem exact_reindex (keys : (pods.map PodEntry.key).Nodup) (exact : Exact index pods refs)
    (entry : PodEntry) :
    Exact (reindex index (upsert pods entry) refs (pods.find? (·.key == entry.key)) entry)
      (upsert pods entry) refs where
  sound := sound_reindex keys exact.sound entry
  complete p member name named := by
    rcases mem_upsert.mp member with rfl | ⟨recorded, other⟩
    · exact mem_reindex.mpr (.inr ⟨rfl, named, rfl⟩)
    · exact mem_reindex_of_backed ⟨p, member, rfl, rfl, named⟩
        (exact.complete p recorded name named)
  distinct := nodup_reindex exact.distinct _ entry

theorem reindex_of_mem (exact : Exact index pods refs) {entry : PodEntry} (member : entry ∈ pods) :
    reindex index pods refs (some entry) entry = index := by
  funext ns name
  dsimp only [reindex, attach, detach]
  by_cases listed : ns = entry.«namespace» ∧ name ∈ refs entry
  · obtain ⟨rfl, named⟩ := listed
    rw [if_pos ⟨rfl, named⟩, if_neg fun stale => stale.2.2 ⟨entry, member, rfl, rfl, named⟩]
    exact List.insert_of_mem (exact.complete entry member name named)
  · rw [if_neg listed, if_neg fun stale => listed ⟨stale.1, stale.2.1⟩]

end Exact

/-- Both indices are exact for the cache's pod record. -/
def Indexed (lc : LocationCache) : Prop :=
  Exact lc.configMapNode lc.pods PodEntry.configMaps ∧ Exact lc.secretNode lc.pods PodEntry.secrets

theorem indexed_empty : Indexed LocationCache.empty :=
  have exact : ∀ refs, Exact (fun _ _ => []) [] refs := fun _ =>
    ⟨fun _ _ _ h => (nomatch h), fun _ h => (nomatch h), fun _ _ => List.nodup_nil⟩
  ⟨exact _, exact _⟩

theorem indexed_primePods {lc : LocationCache} (indexed : Indexed lc) (pods : List Pod) :
    Indexed (primePods lc pods) :=
  primePods_preserves _
    (fun lc _ _ indexed => ⟨exact_reindex lc.podKeys indexed.1 _, exact_reindex lc.podKeys indexed.2 _⟩)
    indexed pods

theorem addOrUpdatePod_of_recorded {lc : LocationCache} (indexed : Indexed lc) {pod : Pod}
    (recorded : PodEntry.ofPod pod ∈ lc.pods) : lc.addOrUpdatePod pod = lc := by
  have pods := upsert_of_mem lc.podKeys recorded
  have old := find?_key lc.podKeys recorded rfl
  apply LocationCache.ext
  · rfl
  · show reindex _ _ _ _ _ = _
    rw [pods, old, reindex_of_mem indexed.1 recorded]
  · show reindex _ _ _ _ _ = _
    rw [pods, old, reindex_of_mem indexed.2 recorded]
  · exact pods
  · rfl

/-! ### The loops run again -/

theorem primeNodes_again (lc : LocationCache) (status : String) (nodes : List Node)
    {lc' : LocationCache} (recorded : lc'.edgeNodes = (primeNodes lc status nodes).edgeNodes) :
    primeNodes lc' status nodes = lc' := by
  have agree : ∀ name, name ∉ nodes.map Node.name → lc'.edgeNodes name = lc.edgeNodes name :=
    fun name unlisted => by rw [recorded, primeNodes_edgeNodes_unlisted unlisted]
  rw [primeNodes_form, primeNodes_edgeNodes_congr agree, ← recorded]

theorem primePods_again {lc lc' : LocationCache} (pods : List Pod)
    (edge : lc'.edgeNodes = lc.edgeNodes) (recorded : lc'.pods = (primePods lc pods).pods) :
    (primePods lc' pods).pods = lc'.pods := by
  have same : lc'.isEdgeNode = lc.isEdgeNode := by
    funext name
    simp only [LocationCache.isEdgeNode, edge]
  rw [primePods_pods lc', recorded, primePods_pods lc, same, foldl_upsert_idem]

/-- Listed once each, every pod on an edge node is recorded as it was listed. -/
theorem ofPod_mem_primePods {lc : LocationCache} {pods : List Pod} (fresh : lc.pods = [])
    (distinct : (pods.map fun p => (p.«namespace», p.name)).Nodup) {pod : Pod} (listed : pod ∈ pods)
    (edge : lc.isEdgeNode pod.spec.nodeName) : PodEntry.ofPod pod ∈ (primePods lc pods).pods := by
  have keys : (((pods.filter fun p => lc.isEdgeNode p.spec.nodeName).map PodEntry.ofPod).map
      PodEntry.key).Nodup := by
    rw [List.map_map]
    exact ((List.filter_sublist pods).map _).nodup distinct
  rw [primePods_pods, fresh, foldl_upsert_of_fresh keys fun _ _ => List.not_mem_nil _, List.nil_append]
  exact List.mem_map_of_mem _ (List.mem_filter.mpr ⟨listed, edge⟩)

theorem primePods_of_recorded {lc : LocationCache} (indexed : Indexed lc) {pods : List Pod}
    (recorded : ∀ p ∈ pods, lc.isEdgeNode p.spec.nodeName → PodEntry.ofPod p ∈ lc.pods) :
    primePods lc pods = lc := by
  induction pods with
  | nil => rfl
  | cons p rest ih =>
    have head : (if lc.isEdgeNode p.spec.nodeName then lc.addOrUpdatePod p else lc) = lc := by
      split
      · exact addOrUpdatePod_of_recorded indexed (recorded p (List.mem_cons_self _ _) ‹_›)
      · rfl
    rw [primePods, head, ih fun p' member => recorded p' (List.mem_cons_of_mem _ member)]

theorem primeEdgeClusters_again {lc : LocationCache} {edgeclusters : List EdgeCluster}
    (recorded : ∀ ec ∈ edgeclusters, ec.name ∈ lc.edgeClusters) :
    primeEdgeClusters lc edgeclusters = lc := by
  induction edgeclusters with
  | nil => rfl
  | cons ec rest ih =>
    have kept : lc.updateEdgeCluster ec.name = lc :=
      LocationCache.ext rfl rfl rfl rfl (List.insert_of_mem (recorded ec (List.mem_cons_self _ _)))
    rw [primeEdgeClusters, kept, ih fun ec' member => recorded ec' (List.mem_cons_of_mem _ member)]

/-- Run a second time with the same lists, on the cache its first run from empty left,
`initLocating` leaves `EdgeNodes`, the pod index and `EdgeClusters` as they were, and every
configmap and secret entry with the same nodes, possibly in another order; when the pod list
names each pod once, it leaves the whole cache as it was. -/
theorem initLocating_rerun_keeps_cache {nodes : List Node} {pods : List Pod}
    {edgeclusters : List EdgeCluster} {lc lc' : LocationCache}
    (first : initLocating LocationCache.empty (.ok nodes) (.ok pods) (.ok edgeclusters) = .ok lc)
    (second : initLocating lc (.ok nodes) (.ok pods) (.ok edgeclusters) = .ok lc') :
    lc'.edgeNodes = lc.edgeNodes ∧ lc'.pods = lc.pods ∧ lc'.edgeClusters = lc.edgeClusters ∧
      (∀ ns name, (lc'.configMapNodes ns name).Perm (lc.configMapNodes ns name) ∧
        (lc'.secretNodes ns name).Perm (lc.secretNodes ns name)) ∧
      ((pods.map fun p => (p.«namespace», p.name)).Nodup → lc' = lc) := by
  have listed := initLocating_edgeClusters first
  rw [initLocating_ok, primeEdgeClusters_form] at first
  rw [initLocating_ok] at second
  have first := Except.ok.inj first
  have edge : lc.edgeNodes = (primeNodes LocationCache.empty "" nodes).edgeNodes := by
    rw [← first]
    exact primePods_edgeNodes _ _
  have recorded : lc.pods = (primePods (primeNodes LocationCache.empty "" nodes) pods).pods := by
    rw [← first]
  have fresh : (primeNodes LocationCache.empty "" nodes).pods = [] := by rw [primeNodes_form]; rfl
  have indexed : Indexed lc := by
    rw [← first]
    exact indexed_primePods (by rw [primeNodes_form]; exact indexed_empty) pods
  have clusters : ∀ ec ∈ edgeclusters, ec.name ∈ (primePods lc pods).edgeClusters :=
    fun ec member => by
      rw [primePods_edgeClusters]
      exact (listed ec.name).mpr (List.mem_map_of_mem _ member)
  rw [primeNodes_again _ _ _ edge, primeEdgeClusters_again clusters] at second
  cases second
  have podsKept := primePods_again pods edge recorded
  have again := indexed_primePods indexed pods
  unfold Indexed at again
  rw [podsKept] at again
  refine ⟨primePods_edgeNodes lc pods, podsKept, primePods_edgeClusters lc pods,
    fun ns name => ⟨indexed.1.perm again.1 ns name, indexed.2.perm again.2 ns name⟩,
    fun distinct => primePods_of_recorded indexed fun p member onEdge => ?_⟩
  rw [recorded]
  exact ofPod_mem_primePods fresh distinct member (by rwa [LocationCache.isEdgeNode, edge] at onEdge)

theorem initLocating_rerun_keeps_cache_n1 :
    let nodes : List Node := [⟨"n1", [⟨"Ready", "True"⟩]⟩]
    let pods : List Pod := [⟨"p", "app", "1", ⟨"n1", [.configMap "c1"], []⟩⟩]
    let edgeclusters : List EdgeCluster := [⟨"ec1", []⟩]
    let lc := primeEdgeClusters (primePods (primeNodes LocationCache.empty "" nodes) pods) edgeclusters
    let lc' := primeEdgeClusters (primePods (primeNodes lc "" nodes) pods) edgeclusters
    initLocating LocationCache.empty (.ok nodes) (.ok pods) (.ok edgeclusters) = .ok lc ∧
      initLocating lc (.ok nodes) (.ok pods) (.ok edgeclusters) = .ok lc' ∧
      (lc'.edgeNodes = lc.edgeNodes ∧ lc'.pods = lc.pods ∧ lc'.edgeClusters = lc.edgeClusters ∧
        (∀ ns name, (lc'.configMapNodes ns name).Perm (lc.configMapNodes ns name) ∧
          (lc'.secretNodes ns name).Perm (lc.secretNodes ns name)) ∧
        ((pods.map fun p => (p.«namespace», p.name)).Nodup → lc' = lc)) := by
  intro nodes pods edgeclusters lc lc'
  exact ⟨rfl, rfl, @initLocating_rerun_keeps_cache nodes pods edgeclusters lc lc' rfl rfl⟩

end EdgeController
