import Mathlib.Data.List.Basic

/-! The objects the downstream controller watches, the watch events that carry them, and the
routed message it hands to the message layer. Fields no sync loop reads are left out: they only
travel inside a message as opaque payload. -/
namespace EdgeController

/-- `watch.EventType`. No loop handles `bookmark` or `error`. -/
inductive EventType where
  | added
  | modified
  | deleted
  | bookmark
  | error
  deriving DecidableEq, Repr

/-- One source of a projected volume, reduced to the two the location cache follows. -/
inductive VolumeProjection where
  | configMap (name : String)
  | secret (name : String)
  | other
  deriving DecidableEq, Repr

/-- A pod volume, reduced to the sources the location cache follows. -/
inductive VolumeSource where
  | configMap (name : String)
  | secret (secretName : String)
  | projected (sources : List VolumeProjection)
  | other
  deriving DecidableEq, Repr

structure EnvFromSource where
  configMapRef : Option String
  secretRef : Option String
  deriving DecidableEq, Repr

structure Container where
  envFrom : List EnvFromSource
  deriving DecidableEq, Repr

structure PodSpec where
  nodeName : String
  volumes : List VolumeSource
  containers : List Container
  deriving DecidableEq, Repr

structure Pod where
  name : String
  «namespace» : String
  resourceVersion : String
  spec : PodSpec
  deriving DecidableEq, Repr

structure ConfigMap where
  name : String
  «namespace» : String
  resourceVersion : String
  deriving DecidableEq, Repr

structure Secret where
  name : String
  «namespace» : String
  resourceVersion : String
  deriving DecidableEq, Repr

/-- `v1.NodeCondition`: condition types and statuses are strings in the API. -/
structure NodeCondition where
  type : String
  status : String
  deriving DecidableEq, Repr

structure Node where
  name : String
  conditions : List NodeCondition
  deriving DecidableEq, Repr

structure Rule where
  name : String
  resourceVersion : String
  deriving DecidableEq, Repr

structure RuleEndpoint where
  name : String
  resourceVersion : String
  deriving DecidableEq, Repr

structure Mission where
  name : String
  resourceVersion : String
  deriving DecidableEq, Repr

/-- `receivedMissions` is `State.ReceivedMissions`, the missions the cluster reports. -/
structure EdgeCluster where
  name : String
  receivedMissions : List String
  deriving DecidableEq, Repr

/-- The dynamic type behind `e.Object`; each loop's type assertion is a match on it. -/
inductive Object where
  | pod (pod : Pod)
  | configMap (configMap : ConfigMap)
  | secret (secret : Secret)
  | node (node : Node)
  | rule (rule : Rule)
  | ruleEndpoint (ruleEndpoint : RuleEndpoint)
  | mission (mission : Mission)
  | edgeCluster (edgeCluster : EdgeCluster)
  deriving DecidableEq, Repr

structure Event where
  type : EventType
  object : Object
  deriving DecidableEq, Repr

def VolumeSource.configMaps : VolumeSource → List String
  | .configMap name => [name]
  | .projected sources => sources.filterMap fun | .configMap name => some name | _ => none
  | _ => []

def VolumeSource.secrets : VolumeSource → List String
  | .secret name => [name]
  | .projected sources => sources.filterMap fun | .secret name => some name | _ => none
  | _ => []

/-- The configmaps a pod references through its volumes, projected ones included, and its
containers' `envFrom`. -/
def Pod.configMaps (pod : Pod) : List String :=
  pod.spec.volumes.flatMap VolumeSource.configMaps ++
    pod.spec.containers.flatMap (fun c => c.envFrom.filterMap EnvFromSource.configMapRef)

def Pod.secrets (pod : Pod) : List String :=
  pod.spec.volumes.flatMap VolumeSource.secrets ++
    pod.spec.containers.flatMap (fun c => c.envFrom.filterMap EnvFromSource.secretRef)

/-! Constants of the message model. They are defined outside this repository. -/

/-- Modelled from the spec: `modules.EdgeControllerModuleName`, the router source of §6. -/
def edgeControllerModuleName : String := "edgecontroller"
/-- Modelled from the spec: `constants.GroupResource`, the router group of §6. -/
def groupResource : String := "resource"
/-- Modelled from the spec: `model.InsertOperation` and its siblings, the operations of §6. -/
def insertOperation : String := "insert"
def updateOperation : String := "update"
def deleteOperation : String := "delete"
/-- Modelled from the spec: the kind segments of the resource paths of §6. -/
def resourceTypePod : String := "pod"
def resourceTypeConfigmap : String := "configmap"
def resourceTypeSecret : String := "secret"
def resourceNode : String := "node"
def resourceTypeRule : String := "rule"
def resourceTypeRuleEndpoint : String := "ruleendpoint"
def resourceTypeMission : String := "mission"
def resourceTypeMissionList : String := "missionlist"
/-- `v1.NodeReady`. -/
def nodeReady : String := "Ready"

/-- The typed payload `FillBody` or `msg.Content` attaches; `none` is an empty body. -/
inductive Content where
  | none
  | pod (pod : Pod)
  | configMap (configMap : ConfigMap)
  | secret (secret : Secret)
  | rule (rule : Rule)
  | ruleEndpoint (ruleEndpoint : RuleEndpoint)
  | mission (mission : Mission)
  | missionList (missions : List Mission)
  deriving DecidableEq, Repr

/-- `model.Message` without the fresh ID and timestamp `NewMessage` draws. -/
structure Message where
  resourceVersion : String
  source : String
  group : String
  resource : String
  operation : String
  content : Content
  deriving DecidableEq, Repr

/-- `NewMessage("").SetResourceVersion(rv).BuildRouter(edgecontroller, resource, r, op)` with its body. -/
def routed (resourceVersion resource operation : String) (content : Content) : Message :=
  ⟨resourceVersion, edgeControllerModuleName, groupResource, resource, operation, content⟩

/-- Go's `(resource string, err error)` result of the message-layer builders. -/
structure BuildResult where
  resource : String
  err : Option String
  deriving DecidableEq, Repr

/-- `messagelayer.BuildResource` and `BuildResourceForRouter` are defined outside this repository;
the model takes them as parameters, so every result holds whatever they return. -/
structure Builders where
  buildResource : String → String → String → String → BuildResult
  buildResourceForRouter : String → String → BuildResult

/-- Modelled from the spec: the resource paths of §6, failing when a required segment is missing. -/
def pathBuilders : Builders where
  buildResource node ns kind name :=
    if node = "" ∨ ns = "" ∨ kind = "" then ⟨"", some "required parameter are not set"⟩
    else ⟨node ++ "/" ++ ns ++ "/" ++ kind ++ "/" ++ name, none⟩
  buildResourceForRouter kind name :=
    if kind = "" ∨ name = "" then ⟨"", some "required parameter are not set"⟩
    else ⟨kind ++ "/" ++ name, none⟩

end EdgeController
