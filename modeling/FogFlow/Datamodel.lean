import FogFlow.Ngsi.Context

namespace FogFlow.Datamodel

open Ngsi

structure InputStreamConfig where
  entityType : String
  selectedAttributes : List String
  groupBy : String
  isScoped : Bool
  informationModel : String
  provisionMethod : String
  ngsildDelivery : String
  ngsildNotificationPath : String
deriving DecidableEq, Repr

def InputStreamConfig.isSimpleByType (inputSelect : InputStreamConfig) : Bool :=
  !inputSelect.isScoped && inputSelect.groupBy != "EntityID"

structure OutputStreamConfig where
  entityType : String
deriving DecidableEq, Repr

structure Task where
  name : String
  operator : String
  inputStreams : List InputStreamConfig
  outputStreams : List OutputStreamConfig
deriving DecidableEq, Repr

structure Priority where
  isExclusive : Bool
  level : Int
deriving DecidableEq, Repr

structure Topology where
  name : String
  tasks : List Task
deriving DecidableEq, Repr

structure ServiceIntent where
  id : String
  geoScope : OperationScope
  priority : Priority
  topologyName : String
  action : String
deriving DecidableEq, Repr

structure TaskIntent where
  geoScope : OperationScope
  priority : Priority
  topologyName : String
  taskObject : Task
  serviceIntentID : String
deriving DecidableEq, Repr

structure InputStream where
  type : String
  id : String
  attributeList : List String
  informationModel : String
  provisionMethod : String
  ngsildDelivery : String
  ngsildNotificationPath : String
deriving DecidableEq, Repr

structure OutputStream where
  type : String
  streamID : String
  annotations : List ContextAttribute
deriving DecidableEq, Repr

structure FlowInfo where
  inputStream : InputStream
  taskInstanceID : String
  workerID : String
deriving DecidableEq, Repr

inductive TaskStatus where
  | scheduled
  | running
  | paused
deriving DecidableEq, Repr

structure ScheduledTaskInstance where
  id : String
  topologyName : String
  taskName : String
  serviceIntentID : String
  operatorName : String
  workerID : String
  isExclusive : Bool
  priorityLevel : Int
  status : TaskStatus
  inputs : List InputStream
  outputs : List OutputStream
deriving DecidableEq, Repr

structure TaskUpdate where
  topologyName : String
  taskName : String
  taskID : String
  serviceIntentID : String
  status : TaskStatus
deriving DecidableEq, Repr

end FogFlow.Datamodel
