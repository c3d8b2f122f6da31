import EdgeController.Goroutines
import EdgeController.Missions

/-! What the goroutines send, over every interleaving. Each message is one that `Controller.step`
sends for an event from the watch streams, from the cache and `operation` as they stood when the
goroutine took the event. A message an iteration holds back (until the last section of
`AddOrUpdatePod` or `DeleteNode`, until the purge of the configmap and secret loops, until its key's
turn in `Range`) counts from the step that built it. `Range` drops the messages for a key deleted
before its turn; no other message is lost, none is sent twice, and no input is taken twice. -/
namespace EdgeController.Goroutines

open scoped List

variable (b : Builders) (o : LockOrder)

/-- The state the goroutines share, as the sequential model has it. -/
def abstract (s : System) : Controller := ⟨s.lc, s.operation⟩

def queuedInputs (s : System) : List Input :=
  s.podQueue.map .pod ++ s.configMapQueue.map .configMap ++ s.secretQueue.map .secret ++
    s.nodeQueue.map .node ++ s.ruleQueue.map .rule ++ s.ruleEndpointQueue.map .ruleEndpoint ++
    s.missionQueue.map .mission ++ s.edgeClusterQueue.map fun entry => .edgeCluster entry.1 entry.2

def PodPc.held : PodPc → List Message
  | .adding _ _ _ _ msg => [msg]
  | .idle => []

def NodePc.held : NodePc → List Message
  | .deleting _ _ msgs => msgs
  | _ => []

def MountPc.held : MountPc → List Message
  | .purging _ _ msgs => msgs
  | .idle => []

/-- What `Range` has still to send, one key at a time. -/
def MissionPc.held : MissionPc → List Message
  | .ranging mission operation keys =>
    fanOut b keys "default" resourceTypeMission mission.name mission.resourceVersion operation
      (.mission mission)
  | .idle => []

/-- What has been sent, and what iterations hold back to send at a later step. -/
def outbox (s : System) : List Message :=
  s.sent ++ s.podPc.held ++ s.nodePc.held ++ s.configMapPc.held ++ s.secretPc.held ++ s.missionPc.held b

/-- `msg` is the message of a mission for the cluster `c`, which `lc` no longer lists. -/
def MissionLost (lc : LocationCache) (msg : Message) : Prop :=
  ∃ c mission operation, c ∉ lc.edgeClusters ∧
    msg ∈ fanOut b [c] "default" resourceTypeMission mission.name mission.resourceVersion operation
      (.mission mission)

theorem MissionLost.mono {lc lc' : LocationCache} {msg : Message} (lost : MissionLost b lc msg)
    (shrunk : ∀ c ∈ lc'.edgeClusters, c ∈ lc.edgeClusters) : MissionLost b lc' msg :=
  have ⟨c, mission, operation, absent, member⟩ := lost
  ⟨c, mission, operation, fun present => absent (shrunk c present), member⟩

/-! ### No goroutine adds an edge cluster -/

theorem edgeClusters_writes {s : System} {loop : Loop} {lc' : LocationCache} (writes : Writes s loop lc') :
    lc'.edgeClusters.Sublist s.lc.edgeClusters := by
  cases writes
  case deleteEdgeCluster name => exact List.filter_sublist _
  case addPodSection sec _ _ _ => cases sec <;> exact .refl _
  case deleteNodeSection sec _ _ _ => cases sec <;> exact .refl _
  all_goals exact .refl _

theorem edgeClusters_execute (schedule : List Loop) (s : System) :
    (execute b o schedule s).lc.edgeClusters.Sublist s.lc.edgeClusters :=
  execute_preserves b o (fun lc => lc.edgeClusters.Sublist s.lc.edgeClusters)
    (fun _ _ _ writes earlier => (edgeClusters_writes writes).trans earlier) schedule (.refl _)

/-! ### What one step delivers -/

/-- What one step does to the queues and the outbox: it takes no input and moves held messages to
the sent ones, dropping only messages of missions for clusters gone from the cache; or it takes
one queued input and adds what `step` sends for it from the state it takes it in. -/
inductive Delivers (s s' : System) : Prop where
  | keep (queued : queuedInputs s' = queuedInputs s) (dropped : List Message)
      (moved : outbox b s' ++ dropped ~ outbox b s) (lost : ∀ msg ∈ dropped, MissionLost b s.lc msg)
  | take (i : Input) (taken : queuedInputs s ~ i :: queuedInputs s')
      (added : outbox b s' ~ outbox b s ++ (step b (abstract s) i).2)

theorem Delivers.moved {s s' : System} (queued : queuedInputs s' = queuedInputs s)
    (moved : outbox b s' ~ outbox b s) : Delivers b s s' :=
  .keep queued [] (by rwa [List.append_nil]) (by simp)

theorem Delivers.send {s s' : System} {i : Input} (taken : queuedInputs s ~ i :: queuedInputs s')
    (sent : s'.sent = s.sent ++ (step b (abstract s) i).2) (pod : s'.podPc = s.podPc)
    (node : s'.nodePc = s.nodePc) (configMap : s'.configMapPc = s.configMapPc)
    (secret : s'.secretPc = s.secretPc) (mission : s'.missionPc = s.missionPc) :
    Delivers b s s' := by
  refine .take i taken (List.perm_iff_count.mpr fun m => ?_)
  simp only [outbox, sent, pod, node, configMap, secret, mission, List.count_append]
  omega

theorem podCheck_outgoing (t : System) (e : Event) (idle : t.podPc = .idle) :
    (podCheck b o t e).sent ++ (podCheck b o t e).podPc.held = t.sent ++ (syncPod b t.lc e).2 := by
  rcases e with ⟨type, object⟩
  cases object
  case pod pod =>
    by_cases edge : t.lc.isEdgeNode pod.spec.nodeName
    · cases built : (b.buildResource pod.spec.nodeName pod.«namespace» resourceTypePod pod.name).err <;>
        cases type <;> simp [podCheck, syncPod, PodPc.held, idle, edge, built]
    · simp [podCheck, syncPod, PodPc.held, idle, edge]
  all_goals simp [podCheck, syncPod, PodPc.held, idle]

theorem nodeFetch_outgoing (t : System) (e : Event) (idle : t.nodePc = .idle) :
    (nodeFetch b o t e).nodePc.held = (syncEdgeNodes b t.lc e).2 := by
  rcases e with ⟨type, object⟩
  cases object
  case node node =>
    cases built : (b.buildResource node.name "namespace" resourceNode node.name).err <;>
      cases type <;> simp [nodeFetch, syncEdgeNodes, NodePc.held, idle, built]
  all_goals simp [nodeFetch, syncEdgeNodes, NodePc.held, idle]

theorem missionFetch_outgoing (t : System) (e : Event) (idle : t.missionPc = .idle) :
    (missionFetch t e).missionPc.held b = (syncMissions b t.lc t.operation e).2 := by
  rcases e with ⟨type, object⟩
  cases object
  case mission mission =>
    cases assigned : eventOperation type <;> simp [missionFetch, syncMissions, MissionPc.held, assigned, idle]
  all_goals simp [missionFetch, syncMissions, MissionPc.held, idle]

theorem mountStep_cases (sync : LocationCache → Event → LocationCache × List Message)
    (key : Object → Option (String × String)) (purge : LocationCache → String → String → LocationCache)
    (lc : LocationCache) (pc : MountPc) (queue : List Event) :
    let r := mountStep (mountFetch sync key) purge lc pc queue
    (r.2.2.1 = queue ∧ r.2.2.2 ++ r.2.1.held = pc.held) ∨
      ∃ e, queue = e :: r.2.2.1 ∧ pc.held = [] ∧ r.2.2.2 ++ r.2.1.held = (sync lc e).2 := by
  cases pc with
  | purging ns name msgs => exact .inl ⟨rfl, by simp [mountStep, MountPc.held]⟩
  | idle =>
    cases queue with
    | nil => exact .inl ⟨rfl, rfl⟩
    | cons e rest =>
      refine .inr ⟨e, rfl, rfl, ?_⟩
      show (mountFetch sync key lc e).2 ++ (mountFetch sync key lc e).1.held = _
      unfold mountFetch
      split <;> simp [MountPc.held]

theorem delivers_pod (s : System) : Delivers b s (advance b o .pod s) := by
  have step := podStep_advance b o s
  generalize advance b o .pod s = s' at step ⊢
  cases step with
  | addSection adding => exact .moved b rfl (.of_eq (by simp [outbox, PodPc.held, adding]))
  | send adding => exact .moved b rfl (.of_eq (by simp [outbox, PodPc.held, adding]))
  | @take e rest idle next =>
    have fetched := podCheck_outgoing b o { s with podQueue := rest } e idle
    rcases podCheck_cases b o { s with podQueue := rest } e with ⟨_, same⟩ | ⟨_, _, _, _, same⟩ <;>
      rw [same] at fetched ⊢ <;>
      refine .take (.pod e) (by simp [queuedInputs, next]) (List.perm_iff_count.mpr fun m => ?_) <;>
      have fetched := congrArg (List.count m) fetched <;>
      simp only [outbox, step, abstract, idle, PodPc.held, List.count_append, List.count_nil] at fetched ⊢ <;>
      omega
  | stutter => exact .moved b rfl (.refl _)

theorem delivers_node (s : System) : Delivers b s (advance b o .node s) := by
  classical
  have step := nodeStep_advance b o s
  generalize advance b o .node s = s' at step ⊢
  cases step with
  | condition updating => exact .moved b rfl (.of_eq (by simp [outbox, NodePc.held, updating]))
  | updated updating => exact .moved b rfl (.of_eq (by simp [outbox, NodePc.held, updating]))
  | deleteSection deleting => exact .moved b rfl (.of_eq (by simp [outbox, NodePc.held, deleting]))
  | send deleting =>
    refine .moved b rfl (List.perm_iff_count.mpr fun m => ?_)
    simp only [outbox, NodePc.held, deleting, List.count_append, List.count_nil]
    omega
  | @take e rest idle next =>
    have queued : queuedInputs s ~ .node e :: queuedInputs { s with nodeQueue := rest } :=
      List.perm_iff_count.mpr fun a => by
        simp only [queuedInputs, next, List.map_cons, List.count_append, List.count_cons]
        omega
    have fetched := nodeFetch_outgoing b o { s with nodeQueue := rest } e idle
    rcases nodeFetch_cases b o { s with nodeQueue := rest } e with same | ⟨_, _, same⟩ | ⟨_, _, _, same⟩ <;>
      rw [same] at fetched ⊢ <;>
      refine .take (.node e) queued (List.perm_iff_count.mpr fun m => ?_) <;>
      dsimp only at fetched <;>
      simp only [step, abstract, ← fetched, outbox, idle, NodePc.held, List.count_append, List.count_nil] <;>
      omega
  | stutter => exact .moved b rfl (.refl _)

/-- A visit of a key deleted before its turn drops its messages. -/
theorem delivers_mission (s : System) : Delivers b s (advance b o .mission s) := by
  classical
  have step := missionStep_advance b o s
  generalize advance b o .mission s = s' at step ⊢
  cases step with
  | @visit mission operation c keys ranging =>
    have split : s.missionPc.held b = fanOut b [c] "default" resourceTypeMission mission.name
        mission.resourceVersion operation (.mission mission) ++ fanOut b keys "default"
        resourceTypeMission mission.name mission.resourceVersion operation (.mission mission) := by
      rw [ranging, MissionPc.held, fanOut_cons]
    have left : (MissionPc.ranging mission operation keys).held b = fanOut b keys "default"
        resourceTypeMission mission.name mission.resourceVersion operation (.mission mission) := rfl
    by_cases present : c ∈ s.lc.edgeClusters
    · refine .moved b rfl (List.perm_iff_count.mpr fun m => ?_)
      simp only [outbox, visit, present, if_true, split, left, List.count_append]
      omega
    · refine .keep rfl _ (List.perm_iff_count.mpr fun m => ?_) fun msg member =>
        ⟨c, mission, operation, present, member⟩
      simp only [outbox, visit, present, if_false, split, left, List.count_append, List.append_nil]
      omega
  | done ranging => exact .moved b rfl (.of_eq (by simp [outbox, MissionPc.held, ranging, fanOut]))
  | @take e rest idle next =>
    have queued : queuedInputs s ~ .mission e :: queuedInputs { s with missionQueue := rest } :=
      List.perm_iff_count.mpr fun a => by
        simp only [queuedInputs, next, List.map_cons, List.count_append, List.count_cons]
        omega
    have fetched := missionFetch_outgoing b { s with missionQueue := rest } e idle
    rcases missionFetch_cases { s with missionQueue := rest } e with same | ⟨_, _, _, _, same⟩ <;>
      rw [same] at fetched ⊢ <;>
      refine .take (.mission e) queued (List.perm_iff_count.mpr fun m => ?_) <;>
      dsimp only at fetched <;>
      simp only [step, abstract, ← fetched, outbox, idle, MissionPc.held, List.count_append, List.count_nil]
    all_goals omega
  | stutter => exact .moved b rfl (.refl _)

theorem delivers_configMap (s : System) : Delivers b s (advance b o .configMap s) := by
  classical
  have cases := mountStep_cases (syncConfigMap b) configMapKey LocationCache.deleteConfigMap
    s.lc s.configMapPc s.configMapQueue
  dsimp only [advance]
  generalize mountStep (mountFetch (syncConfigMap b) configMapKey) LocationCache.deleteConfigMap
    s.lc s.configMapPc s.configMapQueue = r at cases ⊢
  rcases cases with ⟨queue, moved⟩ | ⟨e, queue, idle, fetched⟩
  · refine .moved b (by simp [queuedInputs, queue]) (List.perm_iff_count.mpr fun m => ?_)
    have moved := congrArg (List.count m) moved
    simp only [outbox, List.count_append] at moved ⊢
    omega
  · refine .take (.configMap e) (List.perm_iff_count.mpr fun a => ?_) (List.perm_iff_count.mpr fun m => ?_)
    · simp only [queuedInputs, queue, List.map_cons, List.count_append, List.count_cons]
      omega
    · have fetched := congrArg (List.count m) fetched
      simp only [outbox, step, abstract, idle, List.count_append, List.count_nil] at fetched ⊢
      omega

theorem delivers_secret (s : System) : Delivers b s (advance b o .secret s) := by
  classical
  have cases := mountStep_cases (syncSecret b) secretKey LocationCache.deleteSecret
    s.lc s.secretPc s.secretQueue
  dsimp only [advance]
  generalize mountStep (mountFetch (syncSecret b) secretKey) LocationCache.deleteSecret
    s.lc s.secretPc s.secretQueue = r at cases ⊢
  rcases cases with ⟨queue, moved⟩ | ⟨e, queue, idle, fetched⟩
  · refine .moved b (by simp [queuedInputs, queue]) (List.perm_iff_count.mpr fun m => ?_)
    have moved := congrArg (List.count m) moved
    simp only [outbox, List.count_append] at moved ⊢
    omega
  · refine .take (.secret e) (List.perm_iff_count.mpr fun a => ?_) (List.perm_iff_count.mpr fun m => ?_)
    · simp only [queuedInputs, queue, List.map_cons, List.count_append, List.count_cons]
      omega
    · have fetched := congrArg (List.count m) fetched
      simp only [outbox, step, abstract, idle, List.count_append, List.count_nil] at fetched ⊢
      omega

theorem delivers_rule (s : System) : Delivers b s (advance b o .rule s) := by
  classical
  dsimp only [advance]
  split
  · rename_i e rest next
    refine .send b (i := .rule e) (List.perm_iff_count.mpr fun a => ?_) rfl rfl rfl rfl rfl rfl
    simp only [queuedInputs, next, List.map_cons, List.count_append, List.count_cons]
    omega
  · exact .moved b rfl (.refl _)

theorem delivers_ruleEndpoint (s : System) : Delivers b s (advance b o .ruleEndpoint s) := by
  classical
  dsimp only [advance]
  split
  · rename_i e rest next
    refine .send b (i := .ruleEndpoint e) (List.perm_iff_count.mpr fun a => ?_) rfl rfl rfl rfl rfl rfl
    simp only [queuedInputs, next, List.map_cons, List.count_append, List.count_cons]
    omega
  · exact .moved b rfl (.refl _)

theorem delivers_edgeCluster (s : System) : Delivers b s (advance b o .edgeCluster s) := by
  classical
  dsimp only [advance]
  split
  · rename_i e missionList rest next
    refine .send b (i := .edgeCluster e missionList) (List.perm_iff_count.mpr fun a => ?_)
      rfl rfl rfl rfl rfl rfl
    simp only [queuedInputs, next, List.map_cons, List.count_append, List.count_cons]
    omega
  · exact .moved b rfl (.refl _)

theorem delivers_advance (loop : Loop) (s : System) : Delivers b s (advance b o loop s) := by
  cases loop
  exacts [delivers_pod b o s, delivers_configMap b o s, delivers_secret b o s, delivers_node b o s,
    delivers_rule b o s, delivers_ruleEndpoint b o s, delivers_mission b o s, delivers_edgeCluster b o s]

/-- After a schedule, the inputs queued before it are those it took and those still queued; the
outbox grew, up to order, by what `step` sends for each input taken, from the state after the
prefix of the schedule that took it, less messages of missions for clusters gone from the cache. -/
theorem delivers_execute (schedule : List Loop) (s : System) :
    ∃ (taken : List (Controller × Input)) (dropped : List Message),
      queuedInputs s ~ taken.map Prod.snd ++ queuedInputs (execute b o schedule s) ∧
      outbox b (execute b o schedule s) ++ dropped ~ outbox b s ++ taken.flatMap (fun p => (step b p.1 p.2).2) ∧
      (∀ p ∈ taken, ∃ k < schedule.length, p.1 = abstract (execute b o (schedule.take k) s)) ∧
      ∀ msg ∈ dropped, MissionLost b (execute b o schedule s).lc msg := by
  induction schedule generalizing s with
  | nil => exact ⟨[], [], .refl _, by simp [execute], by simp, by simp⟩
  | cons loop rest ih =>
    obtain ⟨taken, dropped, queued, sent, visited, lost⟩ := ih (advance b o loop s)
    have later : ∀ p ∈ taken, ∃ k < (loop :: rest).length,
        p.1 = abstract (execute b o ((loop :: rest).take k) s) := fun p member =>
      have ⟨k, bound, same⟩ := visited p member
      ⟨k + 1, Nat.succ_lt_succ bound, same⟩
    cases delivers_advance b o loop s with
    | keep same dropped' moved lost' =>
      refine ⟨taken, dropped ++ dropped', same ▸ queued, List.perm_iff_count.mpr fun m => ?_, later, ?_⟩
      · have sent := sent.count_eq m
        have moved := moved.count_eq m
        simp only [execute, List.count_append] at sent moved ⊢
        omega
      · intro msg member
        rcases List.mem_append.mp member with member | member
        · exact lost msg member
        · exact (lost' msg member).mono b (edgeClusters_execute b o (loop :: rest) s).subset
    | take i taken' added =>
      refine ⟨(abstract s, i) :: taken, dropped, taken'.trans (queued.cons i), ?_, ?_, lost⟩
      · have regroup : outbox b s ++ (step b (abstract s) i).2 ++ taken.flatMap (fun p => (step b p.1 p.2).2) =
            outbox b s ++ ((abstract s, i) :: taken).flatMap (fun p => (step b p.1 p.2).2) := by simp
        exact sent.trans (regroup ▸ added.append_right _)
      · rintro p (_ | ⟨_, member⟩)
        · exact ⟨0, Nat.succ_pos _, rfl⟩
        · exact later p member

theorem outbox_load (c : Controller) (inputs : List Input) : outbox b (load c [] inputs) = [] := by
  simp [outbox, load, PodPc.held, NodePc.held, MountPc.held, MissionPc.held]

theorem queuedInputs_load (c : Controller) (sent : List Message) (inputs : List Input) :
    queuedInputs (load c sent inputs) ~ inputs := by
  classical
  induction inputs with
  | nil => simp [queuedInputs, load, queueOf, edgeClusterEntries]
  | cons i rest ih =>
    refine List.perm_iff_count.mpr fun a => ?_
    have ih := ih.count_eq a
    cases i <;> simp only [queuedInputs, load, queueOf_cons, loopOf, eventOf, edgeClusterEntries,
      List.filterMap_cons, reduceCtorEq, ite_true, ite_false, List.map_cons,
      List.count_append, List.count_cons] at ih ⊢ <;> omega

/-! ### What every interleaving sends -/

theorem step_sends_of_sent {c : Controller} {inputs : List Input} {schedule : List Loop}
    {msg : Message} (sent : msg ∈ (execute b o schedule (load c [] inputs)).sent) :
    ∃ k < schedule.length, ∃ i ∈ inputs,
      msg ∈ (step b (abstract (execute b o (schedule.take k) (load c [] inputs))) i).2 := by
  obtain ⟨taken, dropped, queued, out, visited, -⟩ := delivers_execute b o schedule (load c [] inputs)
  rw [outbox_load, List.nil_append] at out
  have outgoing : msg ∈ outbox b (execute b o schedule (load c [] inputs)) ++ dropped := by
    simp [outbox, sent]
  obtain ⟨⟨state, i⟩, member, sends⟩ := List.mem_flatMap.mp (out.subset outgoing)
  obtain ⟨k, bound, rfl⟩ := visited _ member
  have input : i ∈ queuedInputs (load c [] inputs) :=
    queued.symm.subset (List.mem_append_left _ (List.mem_map_of_mem Prod.snd member))
  exact ⟨k, bound, i, (queuedInputs_load c [] inputs).subset input, sends⟩

/-- Every message the goroutines send, in any interleaving from the state `Start` leaves, is one an
iteration of the sequential model sends for one of the inputs, from the cache and `operation` the
system held after some prefix of the schedule. -/
theorem interleaved_sends_are_step_sends (c : Controller) (inputs : List Input) (schedule : List Loop)
    (msg : Message) (sent : msg ∈ (execute b o schedule (load c [] inputs)).sent) :
    ∃ k ≤ schedule.length, ∃ i ∈ inputs,
      msg ∈ (step b (abstract (execute b o (schedule.take k) (load c [] inputs))) i).2 :=
  have ⟨k, bound, sends⟩ := step_sends_of_sent b o sent
  ⟨k, bound.le, sends⟩

theorem interleaved_sends_are_step_sends_configMap :
    let o : LockOrder := ⟨_, .refl _, _, .refl _⟩
    let pod : Pod := ⟨"p", "app", "1", ⟨"n1", [.configMap "c1"], []⟩⟩
    let lc := primePods (primeNodes LocationCache.empty "" [⟨"n1", [⟨"Ready", "True"⟩]⟩]) [pod]
    let inputs : List Input := [.configMap ⟨.modified, .configMap ⟨"c1", "app", "2"⟩⟩,
      .node ⟨.deleted, .node ⟨"n1", []⟩⟩]
    let msg := routed "2" "n1/app/configmap/c1" updateOperation (.configMap ⟨"c1", "app", "2"⟩)
    msg ∈ (execute pathBuilders o [.configMap, .node] (load ⟨lc, ""⟩ [] inputs)).sent ∧
      ∃ k ≤ [Loop.configMap, .node].length, ∃ i ∈ inputs, msg ∈ (step pathBuilders
        (abstract (execute pathBuilders o ([Loop.configMap, .node].take k) (load ⟨lc, ""⟩ [] inputs))) i).2 :=
  ⟨by decide, interleaved_sends_are_step_sends pathBuilders _ _ _ _ _ (by decide)⟩

/-! ### Missions -/

theorem syncMountable_content {operationOf : EventType → Option String}
    {nodesOf : LocationCache → String → String → List String}
    {purge : LocationCache → String → String → LocationCache} {kind : String} {lc : LocationCache}
    {type : EventType} {ns name rv : String} {content : Content} {msg : Message}
    (sent : msg ∈ (syncMountable b operationOf nodesOf purge kind lc type ns name rv content).2) :
    msg.content = content := by
  unfold syncMountable at sent
  split at sent
  · simp at sent
  · obtain ⟨d, -, -, rfl⟩ := mem_fanOut b sent
    rfl

theorem syncRouted_content {kind name rv : String} {content : Content} {type : EventType}
    {msg : Message} (sent : msg ∈ syncRouted b kind name rv content type) : msg.content = content := by
  unfold syncRouted at sent
  dsimp only at sent
  split at sent <;> simp only [List.mem_singleton, List.not_mem_nil] at sent <;> rw [sent] <;> rfl

/-- Only the mission loop sends missions, and only to clusters of the cache it reads. -/
theorem step_mission_target (c : Controller) (i : Input) {msg : Message} (sent : msg ∈ (step b c i).2)
    {mission : Mission} (content : msg.content = .mission mission) :
    ∃ cl ∈ c.lc.edgeClusters, (b.buildResource cl "default" resourceTypeMission mission.name).err = none ∧
      msg.resource = (b.buildResource cl "default" resourceTypeMission mission.name).resource := by
  cases i with
  | mission e =>
    rw [step_mission_messages] at sent
    rcases e with ⟨type, object⟩
    cases object
    case mission m =>
      cases operation : eventOperation type
      · simp [operation] at sent
      · simp only [operation, List.mem_map, List.mem_filter] at sent
        obtain ⟨cl, ⟨member, built⟩, rfl⟩ := sent
        cases content
        exact ⟨cl, member, by simpa using built, rfl⟩
    all_goals simp at sent
  | pod e =>
    rcases e with ⟨type, object⟩
    cases object
    case pod pod =>
      by_cases edge : c.lc.isEdgeNode pod.spec.nodeName
      · cases built : (b.buildResource pod.spec.nodeName pod.«namespace» resourceTypePod pod.name).err <;>
          cases type <;> simp [step, syncPod, edge, built] at sent <;> simp [sent, routed] at content
      · simp [step, syncPod, edge] at sent
    all_goals simp [step, syncPod] at sent
  | configMap e =>
    rcases e with ⟨type, object⟩
    cases object
    case configMap cm => cases (syncMountable_content b sent).symm.trans content
    all_goals simp [step, syncConfigMap] at sent
  | secret e =>
    rcases e with ⟨type, object⟩
    cases object
    case secret secret => cases (syncMountable_content b sent).symm.trans content
    all_goals simp [step, syncSecret] at sent
  | node e =>
    rcases e with ⟨type, object⟩
    cases object
    case node node =>
      cases built : (b.buildResource node.name "namespace" resourceNode node.name).err <;>
        cases type <;> simp [step, syncEdgeNodes, built] at sent
      simp [sent, routed] at content
    all_goals simp [step, syncEdgeNodes] at sent
  | rule e =>
    rcases e with ⟨type, object⟩
    cases object
    case rule rule => cases (syncRouted_content b sent).symm.trans content
    all_goals simp [step, syncRule] at sent
  | ruleEndpoint e =>
    rcases e with ⟨type, object⟩
    cases object
    case ruleEndpoint re => cases (syncRouted_content b sent).symm.trans content
    all_goals simp [step, syncRuleEndpoint] at sent
  | edgeCluster e missionList =>
    rcases e with ⟨type, object⟩
    cases object
    case edgeCluster ec =>
      cases type
      case added | modified =>
        cases missionList
        · simp [step, syncEdgeClusters] at sent
        · simp only [step, syncEdgeClusters] at sent
          split at sent
          · simp at sent
          · simp [List.mem_singleton.mp sent, routed] at content
      all_goals simp [step, syncEdgeClusters] at sent
    all_goals simp [step, syncEdgeClusters] at sent

/-- No interleaving of the goroutines, from the cache `initLocating` builds, sends a mission to an
edge cluster `initLocating` did not list: no goroutine adds to `EdgeClusters`, and the mission loop
sends only to its keys. -/
theorem interleaved_missions_reach_listed_clusters {nodes : List Node} {pods : List Pod}
    {edgeclusters : List EdgeCluster} {lc : LocationCache}
    (primed : initLocating LocationCache.empty (.ok nodes) (.ok pods) (.ok edgeclusters) = .ok lc)
    (inputs : List Input) (schedule : List Loop) (msg : Message)
    (sent : msg ∈ (execute b o schedule (load ⟨lc, ""⟩ [] inputs)).sent) {mission : Mission}
    (content : msg.content = .mission mission) :
    ∃ c ∈ edgeclusters.map EdgeCluster.name,
      (b.buildResource c "default" resourceTypeMission mission.name).err = none ∧
        msg.resource = (b.buildResource c "default" resourceTypeMission mission.name).resource := by
  obtain ⟨k, -, i, -, sent⟩ := step_sends_of_sent b o sent
  obtain ⟨c, member, built, resource⟩ := step_mission_target b _ i sent content
  exact ⟨c, (initLocating_edgeClusters primed c).mp ((edgeClusters_execute b o _ _).subset member), built, resource⟩

/-- The mission loop snapshots both clusters, the edge-cluster loop deletes the second before its
turn, and the visit of the first sends. -/
theorem interleaved_missions_reach_listed_clusters_ec1 :
    let o : LockOrder := ⟨_, .refl _, _, .refl _⟩
    let edgeclusters : List EdgeCluster := [⟨"ec1", []⟩, ⟨"ec2", []⟩]
    let lc := primeEdgeClusters (primePods (primeNodes LocationCache.empty "" []) []) edgeclusters
    let mission : Mission := ⟨"m1", "7"⟩
    let inputs : List Input := [.edgeCluster ⟨.deleted, .edgeCluster ⟨"ec2", []⟩⟩ (.ok []),
      .mission ⟨.added, .mission mission⟩]
    let schedule : List Loop := [.mission, .edgeCluster, .mission, .mission]
    let msg := routed "7" "ec1/default/mission/m1" insertOperation (.mission mission)
    initLocating LocationCache.empty (.ok []) (.ok []) (.ok edgeclusters) = .ok lc ∧
      msg ∈ (execute pathBuilders o schedule (load ⟨lc, ""⟩ [] inputs)).sent ∧
      msg.content = .mission mission ∧
      ∃ c ∈ edgeclusters.map EdgeCluster.name,
        (pathBuilders.buildResource c "default" resourceTypeMission mission.name).err = none ∧
          msg.resource = (pathBuilders.buildResource c "default" resourceTypeMission mission.name).resource :=
  by
  intro o edgeclusters lc mission inputs schedule msg
  have sent : msg ∈ (execute pathBuilders o schedule (load ⟨lc, ""⟩ [] inputs)).sent := by
    decide
  exact ⟨rfl, sent, rfl, @interleaved_missions_reach_listed_clusters pathBuilders o [] [] edgeclusters lc rfl
    inputs schedule msg sent mission rfl⟩

end EdgeController.Goroutines
