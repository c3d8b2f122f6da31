import EdgeController.Goroutines

/-! The sequential model of `EdgeController.Controller` is the serial schedules of the goroutines
`Start` launches: when each goroutine runs the event it takes to completion before any other takes
a step, the system leaves the cache, `operation` and the sent messages `run` computes. -/
namespace EdgeController.Goroutines

variable (b : Builders) (o : LockOrder)

/-- The steps `loop` has left before it is idle again, read off its control state. -/
def pending (s : System) : Loop → Nat
  | .pod => match s.podPc with
    | .adding _ _ _ sections _ => sections.length + 1
    | .idle => 0
  | .node => match s.nodePc with
    | .updating _ conditions => conditions.length + 1
    | .deleting _ sections _ => sections.length + 1
    | .idle => 0
  | .configMap => match s.configMapPc with
    | .purging .. => 1
    | .idle => 0
  | .secret => match s.secretPc with
    | .purging .. => 1
    | .idle => 0
  | .mission => match s.missionPc with
    | .ranging _ _ keys => keys.length + 1
    | .idle => 0
  | _ => 0

def iteration (loop : Loop) (s : System) : List Loop :=
  loop :: List.replicate (pending (advance b o loop s) loop) loop

/-- Each goroutine of `loops` in turn runs one whole iteration. -/
def serialSchedule : List Loop → System → List Loop
  | [], _ => []
  | loop :: loops, s => iteration b o loop s ++ serialSchedule loops (execute b o (iteration b o loop s) s)

theorem execute_append (first second : List Loop) (s : System) :
    execute b o (first ++ second) s = execute b o second (execute b o first s) := by
  induction first generalizing s with
  | nil => rfl
  | cons loop rest ih => exact ih _

theorem execute_adding {s : System} {pod : Pod} {record : List PodEntry} {old : Option PodEntry}
    {sections : List Section} {msg : Message} (adding : s.podPc = .adding pod record old sections msg) :
    execute b o (List.replicate (sections.length + 1) .pod) s =
      { s with
        lc := sections.foldl (addPodSection pod record old) s.lc
        podPc := .idle
        sent := s.sent ++ [msg] } := by
  induction sections generalizing s with
  | nil => simp [execute, advance, adding]
  | cons sec rest ih =>
    rw [List.length_cons, List.replicate_succ, execute, ih (by simp [advance, adding])]
    simp [advance, adding]

theorem execute_updating {s : System} {name : String} {conditions : List NodeCondition}
    (updating : s.nodePc = .updating name conditions) :
    execute b o (List.replicate (conditions.length + 1) .node) s =
      { s with lc := conditions.foldl (readyCondition name) s.lc, nodePc := .idle } := by
  induction conditions generalizing s with
  | nil => simp [execute, advance, updating]
  | cons nsc rest ih =>
    rw [List.length_cons, List.replicate_succ, execute, ih (by simp [advance, updating])]
    simp [advance, updating]

theorem execute_deleting {s : System} {name : String} {sections : List Section} {msgs : List Message}
    (deleting : s.nodePc = .deleting name sections msgs) :
    execute b o (List.replicate (sections.length + 1) .node) s =
      { s with
        lc := sections.foldl (deleteNodeSection name) s.lc
        nodePc := .idle
        sent := s.sent ++ msgs } := by
  induction sections generalizing s with
  | nil => simp [execute, advance, deleting]
  | cons sec rest ih =>
    rw [List.length_cons, List.replicate_succ, execute, ih (by simp [advance, deleting])]
    simp [advance, deleting]

theorem execute_ranging {s : System} {mission : Mission} {operation : String} {keys : List String}
    (ranging : s.missionPc = .ranging mission operation keys) (kept : ∀ c ∈ keys, c ∈ s.lc.edgeClusters) :
    execute b o (List.replicate (keys.length + 1) .mission) s =
      { s with
        missionPc := .idle
        sent := s.sent ++ fanOut b keys "default" resourceTypeMission mission.name
          mission.resourceVersion operation (.mission mission) } := by
  induction keys generalizing s with
  | nil => simp [execute, advance, ranging, fanOut]
  | cons c rest ih =>
    have first : advance b o .mission s = { s with
        missionPc := .ranging mission operation rest
        sent := s.sent ++ visit b s.lc mission operation c } := by
      simp only [advance, ranging]
    rw [List.length_cons, List.replicate_succ, execute, first, ih rfl]
    · simp only [visit, if_pos (kept c (List.mem_cons_self _ _)), List.append_assoc, ← fanOut_cons]
    · exact fun c' member => kept c' (List.mem_cons_of_mem _ member)

theorem iteration_pod {s : System} {e : Event} {rest : List Event} (idle : s.podPc = .idle)
    (next : s.podQueue = e :: rest) :
    execute b o (iteration b o .pod s) s =
      { s with podQueue := rest, lc := (syncPod b s.lc e).1, sent := s.sent ++ (syncPod b s.lc e).2 } := by
  rcases e with ⟨type, object⟩
  cases object
  case pod pod =>
    by_cases edge : s.lc.isEdgeNode pod.spec.nodeName
    · cases built : (b.buildResource pod.spec.nodeName pod.«namespace» resourceTypePod pod.name).err
      · cases type with
        | added | modified =>
          have adding := show (advance b o .pod s).podPc = _ by
            simp only [advance, idle, next, podCheck, edge, built, if_true]
            rfl
          rw [iteration, execute, show pending _ .pod = o.addOrUpdatePod.length + 1 by simp only [pending, adding],
            execute_adding b o adding]
          simp [advance, idle, next, podCheck, edge, built, foldl_addPodSection, syncPod]
        | _ => simp [iteration, execute, advance, idle, next, podCheck, pending, syncPod, edge, built]
      · simp [iteration, execute, advance, idle, next, podCheck, pending, syncPod, edge, built]
    · simp [iteration, execute, advance, idle, next, podCheck, pending, syncPod, edge]
  all_goals simp [iteration, execute, advance, idle, next, podCheck, pending, syncPod]

theorem iteration_node {s : System} {e : Event} {rest : List Event} (idle : s.nodePc = .idle)
    (next : s.nodeQueue = e :: rest) :
    execute b o (iteration b o .node s) s =
      { s with
        nodeQueue := rest
        lc := (syncEdgeNodes b s.lc e).1
        sent := s.sent ++ (syncEdgeNodes b s.lc e).2 } := by
  rcases e with ⟨type, object⟩
  cases object
  case node node =>
    cases type with
    | added | modified =>
      have updating := show (advance b o .node s).nodePc = _ by
        simp only [advance, idle, next, nodeFetch]
        rfl
      rw [iteration, execute, show pending _ .node = node.conditions.length + 1 by
          simp only [pending, updating],
        execute_updating b o updating]
      simp [advance, idle, next, nodeFetch, syncEdgeNodes]
    | deleted =>
      have deleting := show (advance b o .node s).nodePc = _ by
        simp only [advance, idle, next, nodeFetch]
        rfl
      rw [iteration, execute, show pending _ .node = o.deleteNode.length + 1 by
          simp only [pending, deleting],
        execute_deleting b o deleting, foldl_deleteNodeSection o]
      cases built : (b.buildResource node.name "namespace" resourceNode node.name).err <;>
        simp [advance, idle, next, nodeFetch, syncEdgeNodes, built]
    | _ => simp [iteration, execute, advance, idle, next, nodeFetch, pending, syncEdgeNodes]
  all_goals simp [iteration, execute, advance, idle, next, nodeFetch, pending, syncEdgeNodes]

theorem iteration_mission {s : System} {e : Event} {rest : List Event} (idle : s.missionPc = .idle)
    (next : s.missionQueue = e :: rest) :
    execute b o (iteration b o .mission s) s =
      { s with
        missionQueue := rest
        operation := (syncMissions b s.lc s.operation e).1
        sent := s.sent ++ (syncMissions b s.lc s.operation e).2 } := by
  rcases e with ⟨type, object⟩
  cases object
  case mission mission =>
    cases operation : eventOperation type
    · simp [iteration, execute, advance, idle, next, missionFetch, pending, syncMissions, operation]
    · have ranging := show (advance b o .mission s).missionPc = _ by
        simp only [advance, idle, next, missionFetch, operation]
        rfl
      rw [iteration, execute, show pending _ .mission = s.lc.edgeClusters.length + 1 by
          simp only [pending, ranging],
        execute_ranging b o ranging fun _ => by simp [advance, idle, next, missionFetch, operation]]
      simp [advance, idle, next, missionFetch, syncMissions, operation]
  all_goals simp [iteration, execute, advance, idle, next, missionFetch, pending, syncMissions]

theorem iteration_configMap {s : System} {e : Event} {rest : List Event} (idle : s.configMapPc = .idle)
    (next : s.configMapQueue = e :: rest) :
    execute b o (iteration b o .configMap s) s =
      { s with
        configMapQueue := rest
        lc := (syncConfigMap b s.lc e).1
        sent := s.sent ++ (syncConfigMap b s.lc e).2 } := by
  rcases e with ⟨type, object⟩
  cases object
  case configMap cm =>
    cases type <;> simp [iteration, execute, advance, mountStep, mountFetch, configMapKey, idle, next,
      pending, syncConfigMap, syncMountable, eventOperation]
  all_goals simp [iteration, execute, advance, mountStep, mountFetch, configMapKey, idle, next, pending,
    syncConfigMap]

theorem iteration_secret {s : System} {e : Event} {rest : List Event} (idle : s.secretPc = .idle)
    (next : s.secretQueue = e :: rest) :
    execute b o (iteration b o .secret s) s =
      { s with
        secretQueue := rest
        lc := (syncSecret b s.lc e).1
        sent := s.sent ++ (syncSecret b s.lc e).2 } := by
  rcases e with ⟨type, object⟩
  cases object
  case secret secret =>
    cases type <;> simp [iteration, execute, advance, mountStep, mountFetch, secretKey, idle, next,
      pending, syncSecret, syncMountable, secretOperation]
  all_goals simp [iteration, execute, advance, mountStep, mountFetch, secretKey, idle, next, pending,
    syncSecret]

/-- One whole iteration of the goroutine an input is for is one step of the sequential model. -/
theorem iteration_load (c : Controller) (sent : List Message) (i : Input) (rest : List Input) :
    let s := load c sent (i :: rest)
    execute b o (iteration b o (loopOf i) s) s = load (step b c i).1 (sent ++ (step b c i).2) rest := by
  dsimp only
  cases i
  case pod e =>
    rw [loopOf, iteration_pod b o rfl (show _ = e :: queueOf .pod rest by simp [load, loopOf, eventOf])]
    simp [load, loopOf, step, edgeClusterEntries]
  case node e =>
    rw [loopOf, iteration_node b o rfl (show _ = e :: queueOf .node rest by simp [load, loopOf, eventOf])]
    simp [load, loopOf, step, edgeClusterEntries]
  case mission e =>
    rw [loopOf, iteration_mission b o rfl
      (show _ = e :: queueOf .mission rest by simp [load, loopOf, eventOf])]
    simp [load, loopOf, step, edgeClusterEntries]
  case configMap e =>
    rw [loopOf, iteration_configMap b o rfl
      (show _ = e :: queueOf .configMap rest by simp [load, loopOf, eventOf])]
    simp [load, loopOf, step, edgeClusterEntries]
  case secret e =>
    rw [loopOf, iteration_secret b o rfl (show _ = e :: queueOf .secret rest by simp [load, loopOf, eventOf])]
    simp [load, loopOf, step, edgeClusterEntries]
  all_goals simp [iteration, execute, advance, loopOf, load, eventOf, edgeClusterEntries, pending, step]

/-- Run serially, one whole iteration per input in the inputs' order, the goroutines `Start`
launches end idle with their queues drained, holding the cache and `operation` the sequential
`run` leaves and having sent what it sends. -/
theorem serial_schedules_refine_run (c : Controller) (sent : List Message) (inputs : List Input) :
    let s := load c sent inputs
    execute b o (serialSchedule b o (inputs.map loopOf) s) s =
      load (run b c inputs).1 (sent ++ (run b c inputs).2) [] := by
  induction inputs generalizing c sent with
  | nil => simp [serialSchedule, execute]
  | cons i rest ih =>
    dsimp only at ih ⊢
    rw [List.map_cons, serialSchedule, execute_append, iteration_load, ih]
    simp [run]

end EdgeController.Goroutines
