import FogFlow.Broker.Availability
import FogFlow.Broker.Cancellation
import FogFlow.Broker.ConcurrentUpdates
import FogFlow.Broker.Coverage
import FogFlow.Broker.DeliveryOrder
import FogFlow.Broker.EntityDecoding
import FogFlow.Broker.FailedDelivery
import FogFlow.Broker.FaithfulPayload
import FogFlow.Broker.Forwarding
import FogFlow.Broker.Index
import FogFlow.Broker.Network
import FogFlow.Broker.NgsiLdPayload
import FogFlow.Broker.NgsiV2Payload
import FogFlow.Broker.NgsiV2RoundTrip
import FogFlow.Broker.Notification
import FogFlow.Broker.NotifiedOnce
import FogFlow.Broker.NotifyCache
import FogFlow.Broker.OmittedType
import FogFlow.Broker.Ownership
import FogFlow.Broker.PointMetadata
import FogFlow.Broker.Processing
import FogFlow.Broker.Propagation
import FogFlow.Broker.PropertyReencoding
import FogFlow.Broker.QueryContext
import FogFlow.Broker.Reencoding
import FogFlow.Broker.Registration
import FogFlow.Broker.RemoteOnce
import FogFlow.Broker.Removal
import FogFlow.Broker.Repetition
import FogFlow.Broker.Resending
import FogFlow.Broker.SelectedDelivery
import FogFlow.Broker.Selection
import FogFlow.Broker.SingleRoute
import FogFlow.Broker.Store
import FogFlow.Broker.StoredAttributes
import FogFlow.Broker.ThinBroker
import FogFlow.Broker.Transfer
import FogFlow.Broker.TypeIndex
import FogFlow.Broker.UpdateActions
import FogFlow.Broker.Wiring
import FogFlow.Communicator.Delivery
import FogFlow.Datamodel
import FogFlow.Designer.PublishOrder
import FogFlow.Designer.Rabbitmq
import FogFlow.Designer.TaskMap
import FogFlow.Designer.TaskView
import FogFlow.Discovery.Awareness
import FogFlow.Discovery.FastDiscovery
import FogFlow.Discovery.Faults
import FogFlow.Discovery.Filters
import FogFlow.Discovery.Geolocation
import FogFlow.Discovery.InStep
import FogFlow.Discovery.Ordering
import FogFlow.Discovery.Overtaking
import FogFlow.Discovery.Query
import FogFlow.Discovery.Reads
import FogFlow.Discovery.Repository
import FogFlow.Discovery.Requests
import FogFlow.Discovery.Sending
import FogFlow.Discovery.Storage
import FogFlow.Discovery.Withdrawal
import FogFlow.Library.Bus
import FogFlow.Library.Cells
import FogFlow.Library.Delivery
import FogFlow.Library.Execution
import FogFlow.Library.Fields
import FogFlow.Library.Flood
import FogFlow.Library.GoMap
import FogFlow.Library.Handler
import FogFlow.Library.Inbox
import FogFlow.Library.JsonText
import FogFlow.Library.Launching
import FogFlow.Library.Leases
import FogFlow.Library.Loop
import FogFlow.Library.Named
import FogFlow.Library.Pool
import FogFlow.Library.Preemption
import FogFlow.Library.ScheduledWrite
import FogFlow.Library.Slices
import FogFlow.Library.Split
import FogFlow.Master.ActionLoop
import FogFlow.Master.Assignment
import FogFlow.Master.Calls
import FogFlow.Master.Combinations
import FogFlow.Master.Deletion
import FogFlow.Master.Expansion
import FogFlow.Master.FogFlow
import FogFlow.Master.GroupPanics
import FogFlow.Master.GroupText
import FogFlow.Master.Groups
import FogFlow.Master.Hash
import FogFlow.Master.Inputs
import FogFlow.Master.IntentIsolation
import FogFlow.Master.IntentUpdates
import FogFlow.Master.MetadataGroups
import FogFlow.Master.MetadataPlan
import FogFlow.Master.Migration
import FogFlow.Master.Orchestration
import FogFlow.Master.PlanFrame
import FogFlow.Master.Planning
import FogFlow.Master.Product
import FogFlow.Master.ProductPlan
import FogFlow.Master.Received
import FogFlow.Master.Relocation
import FogFlow.Master.RepeatedUpdate
import FogFlow.Master.RequiredStreams
import FogFlow.Master.Routing
import FogFlow.Master.ScopedGroups
import FogFlow.Master.ServiceMgr
import FogFlow.Master.Streams
import FogFlow.Master.TaskIntent
import FogFlow.Master.UniqueKeys
import FogFlow.Master.WorkerRemoval
import FogFlow.Master.Workers
import FogFlow.Master.Workload
import FogFlow.Ngsi.Context
import FogFlow.Ngsi.Decoding
import FogFlow.Ngsi.Json
import FogFlow.Ngsi.MetadataJson
import FogFlow.Ngsi.ReadNgsiLd
import FogFlow.Ngsi.ReadNgsiV2
import FogFlow.Ngsi.Value
import FogFlow.Worker.Containers
import FogFlow.Worker.DelayedInputs
import FogFlow.Worker.Dereferences
import FogFlow.Worker.Executor
import FogFlow.Worker.InputSubscriptions
import FogFlow.Worker.Preemption
import FogFlow.Worker.Resumption
import FogFlow.Worker.Runs
import FogFlow.Worker.Scheduling
import FogFlow.Worker.TaskList
import FogFlow.Master.RelevantGroups
import FogFlow.Discovery.NearbyQuery
import FogFlow.Discovery.RequestSequence
import FogFlow.Discovery.QueryLaws
import FogFlow.Discovery.SubscriptionLock
import FogFlow.Broker.ProsumerSubscription
import FogFlow.Broker.NotifiedElements
import FogFlow.Communicator.Consumer
import FogFlow.Library.PartialDecode
import FogFlow.Ngsi.AttributeJson
import FogFlow.Broker.ElementJson
import FogFlow.Broker.WireTransfer
import FogFlow.Broker.Relay
import FogFlow.Discovery.BrokerLiveness
import FogFlow.Library.Recovery
import FogFlow.Designer.Announcement
import FogFlow.Discovery.RegistrationFile
import FogFlow.Designer.MasterIntents
import FogFlow.Broker.LdDocument
import FogFlow.Broker.LdStore
import FogFlow.Worker.DockerEngine
import FogFlow.Worker.DockerWorker
import FogFlow.Worker.DockerContainers
import FogFlow.Discovery.Telling
import FogFlow.Broker.PubSub
