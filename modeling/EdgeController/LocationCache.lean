import EdgeController.Objects
import Mathlib.Data.List.Nodup
import Mathlib.Logic.Function.Basic

/-! Modelled from the spec: `manager.LocationCache` (§3, §4.1) lives outside this repository.
An index is a total function with the empty list for a missing entry, so pruning empty sets is
implicit. The pod index is a list keyed by namespace and name, its keys distinct by construction. -/
namespace EdgeController

/-- What the cache remembers of an edge pod: its node and its mount references. -/
structure PodEntry where
  «namespace» : String
  name : String
  nodeName : String
  configMaps : List String
  secrets : List String
  deriving DecidableEq, Repr

def PodEntry.key (entry : PodEntry) : String × String := (entry.«namespace», entry.name)

def PodEntry.ofPod (pod : Pod) : PodEntry :=
  ⟨pod.«namespace», pod.name, pod.spec.nodeName, pod.configMaps, pod.secrets⟩

/-- Replace the entry of the same key, or append a new one. -/
def upsert (pods : List PodEntry) (entry : PodEntry) : List PodEntry :=
  if pods.any (·.key == entry.key) then pods.map (fun p => if p.key = entry.key then entry else p)
  else pods ++ [entry]

/-- Some recorded pod on `node` in namespace `ns` references `name` through `refs`. -/
def Backed (pods : List PodEntry) (refs : PodEntry → List String) (ns node name : String) : Prop :=
  ∃ p ∈ pods, p.«namespace» = ns ∧ p.nodeName = node ∧ name ∈ refs p

instance (pods : List PodEntry) (refs : PodEntry → List String) (ns node name : String) :
    Decidable (Backed pods refs ns node name) :=
  inferInstanceAs (Decidable (∃ p ∈ pods, p.«namespace» = ns ∧ p.nodeName = node ∧ name ∈ refs p))

/-- `node` joins the entries `(ns, name)` of every `name ∈ names`. -/
def attach (index : String → String → List String) (ns : String) (names : List String)
    (node : String) : String → String → List String :=
  fun ns' name => if ns' = ns ∧ name ∈ names then (index ns' name).insert node else index ns' name

/-- `node` leaves the entries `(ns, name)`, `name ∈ names`, that no pod of `pods` still backs. -/
def detach (index : String → String → List String) (pods : List PodEntry)
    (refs : PodEntry → List String) (ns : String) (names : List String) (node : String) :
    String → String → List String :=
  fun ns' name => if ns' = ns ∧ name ∈ names ∧ ¬ Backed pods refs ns' node name
    then (index ns' name).filter (· ≠ node) else index ns' name

/-- One index after a pod's references change from `old` to `entry`; `pods` is the updated pod
index, so the stale memberships are those the diff drops and no other pod still needs. -/
def reindex (index : String → String → List String) (pods : List PodEntry)
    (refs : PodEntry → List String) (old : Option PodEntry) (entry : PodEntry) :
    String → String → List String :=
  let kept := match old with
    | none => index
    | some o => detach index pods refs o.«namespace» (refs o) o.nodeName
  attach kept entry.«namespace» (refs entry) entry.nodeName

/-- What `upsert pods entry` makes of a recorded pod `p`. -/
def PodEntry.overwrite (p entry : PodEntry) : PodEntry := if p.key = entry.key then entry else p

@[simp] theorem PodEntry.overwrite_key (p entry : PodEntry) : (p.overwrite entry).key = p.key := by
  unfold PodEntry.overwrite
  split <;> simp_all

theorem upsert_of_key_mem {pods : List PodEntry} {entry : PodEntry}
    (present : entry.key ∈ pods.map PodEntry.key) : upsert pods entry = pods.map (·.overwrite entry) := by
  unfold upsert
  rw [if_pos (by simpa using present)]
  rfl

theorem upsert_of_key_not_mem {pods : List PodEntry} {entry : PodEntry}
    (fresh : entry.key ∉ pods.map PodEntry.key) : upsert pods entry = pods ++ [entry] := by
  unfold upsert
  rw [if_neg (by simpa using fresh)]

theorem upsert_keys {pods : List PodEntry} (distinct : (pods.map PodEntry.key).Nodup)
    (entry : PodEntry) : ((upsert pods entry).map PodEntry.key).Nodup := by
  by_cases present : entry.key ∈ pods.map PodEntry.key
  · rw [upsert_of_key_mem present, List.map_map]
    simpa [Function.comp_def] using distinct
  · rw [upsert_of_key_not_mem present, List.map_append, List.map_singleton]
    exact distinct.append (List.nodup_singleton _) (List.disjoint_singleton.mpr present)

theorem mem_upsert {pods : List PodEntry} {entry p : PodEntry} :
    p ∈ upsert pods entry ↔ p = entry ∨ (p ∈ pods ∧ p.key ≠ entry.key) := by
  unfold upsert
  split
  · rename_i present
    obtain ⟨q, member, same⟩ := List.any_eq_true.mp present
    simp only [List.mem_map]
    constructor
    · rintro ⟨q, member, rfl⟩
      by_cases same : q.key = entry.key <;> simp [same, member]
    · rintro (rfl | ⟨member, other⟩)
      · exact ⟨q, member, by rw [if_pos (by simpa using same)]⟩
      · exact ⟨p, member, by simp [other]⟩
  · rename_i fresh
    simp only [List.any_eq_true, beq_iff_eq, not_exists, not_and] at fresh
    simp only [List.mem_append, List.mem_singleton]
    constructor
    · rintro (member | rfl)
      · exact .inr ⟨member, fresh p member⟩
      · exact .inl rfl
    · rintro (rfl | ⟨member, -⟩)
      · exact .inr rfl
      · exact .inl member

theorem mem_attach {index : String → String → List String} {ns ns' name node n : String}
    {names : List String} :
    n ∈ attach index ns names node ns' name ↔
      n ∈ index ns' name ∨ (ns' = ns ∧ name ∈ names ∧ n = node) := by
  unfold attach
  split <;> simp_all [List.mem_insert_iff, or_comm]

theorem mem_detach {index : String → String → List String} {pods : List PodEntry}
    {refs : PodEntry → List String} {ns ns' name node n : String} {names : List String} :
    n ∈ detach index pods refs ns names node ns' name ↔
      n ∈ index ns' name ∧ (n = node → ns' = ns → name ∈ names → Backed pods refs ns' node name) := by
  unfold detach
  split
  · rename_i stale
    simp only [List.mem_filter, decide_eq_true_eq]
    constructor
    · rintro ⟨member, other⟩
      exact ⟨member, fun same => absurd same other⟩
    · rintro ⟨member, backed⟩
      exact ⟨member, fun same => stale.2.2 (backed same stale.1 stale.2.1)⟩
  · rename_i kept
    constructor
    · intro member
      refine ⟨member, fun _ ns names => ?_⟩
      by_contra unbacked
      exact kept ⟨ns, names, unbacked⟩
    · exact And.left

theorem mem_reindex {index : String → String → List String} {pods : List PodEntry}
    {refs : PodEntry → List String} {old : Option PodEntry} {entry : PodEntry} {ns name n : String} :
    n ∈ reindex index pods refs old entry ns name ↔
      (n ∈ index ns name ∧ ∀ o, old = some o → n = o.nodeName → ns = o.«namespace» →
        name ∈ refs o → Backed pods refs ns o.nodeName name) ∨
      (ns = entry.«namespace» ∧ name ∈ refs entry ∧ n = entry.nodeName) := by
  unfold reindex
  rw [mem_attach]
  cases old <;> simp [mem_detach]

/-- Pods are keyed by namespace and name, so a key names at most one entry. -/
theorem key_unique {pods : List PodEntry} (distinct : (pods.map PodEntry.key).Nodup)
    {p q : PodEntry} (hp : p ∈ pods) (hq : q ∈ pods) (same : p.key = q.key) : p = q :=
  List.inj_on_of_nodup_map distinct hp hq same

theorem find?_key {pods : List PodEntry} (distinct : (pods.map PodEntry.key).Nodup)
    {p entry : PodEntry} (member : p ∈ pods) (same : p.key = entry.key) :
    pods.find? (·.key == entry.key) = some p := by
  cases found : pods.find? (·.key == entry.key) with
  | none => simp [List.find?_eq_none] at found; exact absurd same (found p member)
  | some q =>
    have key : q.key = entry.key := by simpa using List.find?_some found
    rw [key_unique distinct (List.mem_of_find?_eq_some found) member (key.trans same.symm)]

theorem foldl_overwrite_key (entries : List PodEntry) (p : PodEntry) :
    (entries.foldl PodEntry.overwrite p).key = p.key := by
  induction entries generalizing p with
  | nil => rfl
  | cons e rest ih => rw [List.foldl_cons, ih, PodEntry.overwrite_key]

/-- Upserting a recorded entry changes nothing. -/
theorem upsert_of_mem {pods : List PodEntry} (distinct : (pods.map PodEntry.key).Nodup)
    {entry : PodEntry} (member : entry ∈ pods) : upsert pods entry = pods := by
  rw [upsert_of_key_mem (List.mem_map_of_mem _ member)]
  calc _ = pods.map id := List.map_congr_left fun p recorded => by
        unfold PodEntry.overwrite
        split
        · exact key_unique distinct member recorded (Eq.symm ‹_›)
        · rfl
    _ = pods := List.map_id _

theorem key_mem_upsert {pods : List PodEntry} {entry : PodEntry} {k : String × String} :
    k ∈ (upsert pods entry).map PodEntry.key ↔ k = entry.key ∨ k ∈ pods.map PodEntry.key := by
  simp only [List.mem_map, mem_upsert]
  constructor
  · rintro ⟨p, rfl | ⟨member, -⟩, rfl⟩
    · exact .inl rfl
    · exact .inr ⟨p, member, rfl⟩
  · rintro (rfl | ⟨p, member, rfl⟩)
    · exact ⟨entry, .inl rfl, rfl⟩
    · by_cases same : p.key = entry.key
      · exact ⟨entry, .inl rfl, same.symm⟩
      · exact ⟨p, .inr ⟨member, same⟩, rfl⟩

theorem key_mem_foldl_upsert {pods entries : List PodEntry} {k : String × String} :
    k ∈ (entries.foldl upsert pods).map PodEntry.key ↔
      k ∈ entries.map PodEntry.key ∨ k ∈ pods.map PodEntry.key := by
  induction entries generalizing pods with
  | nil => simp
  | cons e rest ih =>
    rw [List.foldl_cons, ih, key_mem_upsert, List.map_cons, List.mem_cons, or_assoc]
    exact or_left_comm

/-- Entries of distinct keys, none recorded, are appended in order. -/
theorem foldl_upsert_of_fresh {pods entries : List PodEntry}
    (distinct : (entries.map PodEntry.key).Nodup)
    (fresh : ∀ e ∈ entries, e.key ∉ pods.map PodEntry.key) : entries.foldl upsert pods = pods ++ entries := by
  induction entries generalizing pods with
  | nil => simp
  | cons e rest ih =>
    rw [List.map_cons, List.nodup_cons] at distinct
    have later : ∀ e' ∈ rest, e'.key ∉ (pods ++ [e]).map PodEntry.key := by
      intro e' member
      simp only [List.map_append, List.mem_append, List.map_cons, List.map_nil, List.mem_singleton,
        not_or]
      exact ⟨fresh e' (List.mem_cons_of_mem _ member),
        fun same => distinct.1 (same ▸ List.mem_map_of_mem _ member)⟩
    rw [List.foldl_cons, upsert_of_key_not_mem (fresh e (List.mem_cons_self _ _)), ih distinct.2 later]
    simp

/-- Once every key is recorded, upserting rewrites each recorded pod in place. -/
theorem foldl_upsert_of_keys {pods entries : List PodEntry}
    (present : ∀ e ∈ entries, e.key ∈ pods.map PodEntry.key) :
    entries.foldl upsert pods = pods.map fun p => entries.foldl PodEntry.overwrite p := by
  induction entries generalizing pods with
  | nil => simp
  | cons e rest ih =>
    have keys : (pods.map (·.overwrite e)).map PodEntry.key = pods.map PodEntry.key := by
      simp [Function.comp_def]
    rw [List.foldl_cons, upsert_of_key_mem (present e (List.mem_cons_self _ _)),
      ih fun e' member => keys ▸ present e' (List.mem_cons_of_mem _ member), List.map_map]
    rfl

/-- Every pod an upsert run leaves recorded is the last entry of its key in the run, if any. -/
theorem foldl_overwrite_of_mem {pods entries : List PodEntry} {p : PodEntry}
    (member : p ∈ entries.foldl upsert pods) : entries.foldl PodEntry.overwrite p = p := by
  induction entries using List.reverseRecOn with
  | nil => rfl
  | append_singleton entries e ih =>
    rw [List.foldl_append, List.foldl_cons, List.foldl_nil] at member ⊢
    rcases mem_upsert.mp member with rfl | ⟨member, other⟩
    · exact if_pos (foldl_overwrite_key entries p)
    · rw [ih member]
      exact if_neg other

/-- Upserting the same entries a second time changes nothing. -/
theorem foldl_upsert_idem (pods entries : List PodEntry) :
    entries.foldl upsert (entries.foldl upsert pods) = entries.foldl upsert pods := by
  rw [foldl_upsert_of_keys fun e member => key_mem_foldl_upsert.mpr (.inl (List.mem_map_of_mem _ member))]
  calc _ = (entries.foldl upsert pods).map id :=
        List.map_congr_left fun _ member => foldl_overwrite_of_mem member
    _ = _ := List.map_id _

/-- The shared state of all loops. `edgeClusters` lists the keys of the `EdgeClusters` map in
`Range` order; the stored flag is never read, so it is left out. -/
@[ext] structure LocationCache where
  edgeNodes : String → Option String
  configMapNode : String → String → List String
  secretNode : String → String → List String
  pods : List PodEntry
  podKeys : (pods.map PodEntry.key).Nodup
  edgeClusters : List String
  edgeClusterKeys : edgeClusters.Nodup

namespace LocationCache

/-- `&manager.LocationCache{}`. -/
def empty : LocationCache :=
  ⟨fun _ => none, fun _ _ => [], fun _ _ => [], [], List.nodup_nil, [], List.nodup_nil⟩

def isEdgeNode (lc : LocationCache) (name : String) : Bool := (lc.edgeNodes name).isSome

def updateEdgeNode (lc : LocationCache) (name status : String) : LocationCache :=
  { lc with edgeNodes := Function.update lc.edgeNodes name (some status) }

/-- Removes the node from `EdgeNodes` and from every configmap and secret entry. -/
def deleteNode (lc : LocationCache) (name : String) : LocationCache :=
  { lc with
    edgeNodes := Function.update lc.edgeNodes name none
    configMapNode := fun ns c => (lc.configMapNode ns c).filter (· ≠ name)
    secretNode := fun ns s => (lc.secretNode ns s).filter (· ≠ name) }

/-- The snapshot `syncConfigMap` iterates. -/
def configMapNodes (lc : LocationCache) (ns name : String) : List String := lc.configMapNode ns name

def secretNodes (lc : LocationCache) (ns name : String) : List String := lc.secretNode ns name

def deleteConfigMap (lc : LocationCache) (ns name : String) : LocationCache :=
  { lc with configMapNode := fun ns' c => if ns' = ns ∧ c = name then [] else lc.configMapNode ns' c }

def deleteSecret (lc : LocationCache) (ns name : String) : LocationCache :=
  { lc with secretNode := fun ns' s => if ns' = ns ∧ s = name then [] else lc.secretNode ns' s }

/-- Records the pod, then brings both indices in line with its references: the stale
memberships of its previous entry leave, its node joins every entry it references. -/
def addOrUpdatePod (lc : LocationCache) (pod : Pod) : LocationCache :=
  let entry := PodEntry.ofPod pod
  let pods := upsert lc.pods entry
  let old := lc.pods.find? (·.key == entry.key)
  { lc with
    pods := pods
    podKeys := upsert_keys lc.podKeys entry
    configMapNode := reindex lc.configMapNode pods PodEntry.configMaps old entry
    secretNode := reindex lc.secretNode pods PodEntry.secrets old entry }

def updateEdgeCluster (lc : LocationCache) (name : String) : LocationCache :=
  { lc with
    edgeClusters := lc.edgeClusters.insert name
    edgeClusterKeys := lc.edgeClusterKeys.insert }

def deleteEdgeCluster (lc : LocationCache) (name : String) : LocationCache :=
  { lc with
    edgeClusters := lc.edgeClusters.filter (· ≠ name)
    edgeClusterKeys := lc.edgeClusterKeys.filter _ }

@[simp] theorem updateEdgeNode_edgeNodes (lc : LocationCache) (name status : String) :
    (lc.updateEdgeNode name status).edgeNodes = Function.update lc.edgeNodes name (some status) := rfl

@[simp] theorem mem_updateEdgeCluster {lc : LocationCache} {name c : String} :
    c ∈ (lc.updateEdgeCluster name).edgeClusters ↔ c = name ∨ c ∈ lc.edgeClusters :=
  List.mem_insert_iff

@[simp] theorem mem_deleteEdgeCluster {lc : LocationCache} {name c : String} :
    c ∈ (lc.deleteEdgeCluster name).edgeClusters ↔ c ∈ lc.edgeClusters ∧ c ≠ name := by
  simp [deleteEdgeCluster]

end LocationCache

end EdgeController
