import FleetCommand.Lib.Resumption
import FleetCommand.Lib.GoMap
import FleetCommand.Lib.Isolation
import FleetCommand.Ingestion.Concurrent
import FleetCommand.Geofence.Transitions
import FleetCommand.Ingestion.SequentialRun
import FleetCommand.Geofence.Stream
import FleetCommand.Geofence.Race
import FleetCommand.Geofence.Isolation
import FleetCommand.Lib.Json
import FleetCommand.Streaming.Hub
import FleetCommand.Streaming.Delivery
import FleetCommand.Streaming.Frames
import FleetCommand.Streaming.ZoneEvents
import FleetCommand.Streaming.Conservation
import FleetCommand.Streaming.RoomNotice
import FleetCommand.Lib.InsertionMap
import FleetCommand.Management.Common
import FleetCommand.Management.Repositories
import FleetCommand.Management.Routes
import FleetCommand.Management.RouteCoverage
import FleetCommand.Management.Footprints
import FleetCommand.Management.System
import FleetCommand.Management.Agreement
import FleetCommand.Management.Lifecycle
import FleetCommand.Management.AssignmentProgress
import FleetCommand.Management.Completion
import FleetCommand.Lib.Rejection
import FleetCommand.Management.Zones
import FleetCommand.Management.Rejections
import FleetCommand.Lib.UnionFind
import FleetCommand.Optimizer.Solver
import FleetCommand.Optimizer.Clusters
import FleetCommand.Optimizer.Agreement
import FleetCommand.Lib.GoJson
import FleetCommand.Ingestion.Http
import FleetCommand.Ingestion.DriverPing
import FleetCommand.Management.TransitionRace
import FleetCommand.Management.AssignmentFlow
import FleetCommand.Management.AssignmentRace
import FleetCommand.Streaming.Sessions
import FleetCommand.Streaming.SessionResume
import FleetCommand.Dashboard.SocketClient
import FleetCommand.Dashboard.Sync
import FleetCommand.Dashboard.Reconnect
import FleetCommand.Management.RouteRace
import FleetCommand.Lib.Monitor
import FleetCommand.Management.DeactivationRace
import FleetCommand.Lib.Window
import FleetCommand.Driver.PingQueue
import FleetCommand.Driver.Transmitter
import FleetCommand.Driver.PingConservation
import FleetCommand.Driver.SendOrder
import FleetCommand.Driver.Overflow
import FleetCommand.Lib.SecondaryIndex
import FleetCommand.Management.Calls
import FleetCommand.Management.UniqueKeys
import FleetCommand.Management.VehicleDrivers
import FleetCommand.Management.Stamps
import FleetCommand.Management.Constraints
import FleetCommand.Customer.TrackingLink
import FleetCommand.Driver.DriverState
import FleetCommand.Ingestion.Replay
import FleetCommand.Lib.Base64
import FleetCommand.Lib.JsonText
import FleetCommand.Auth.Jwt
import FleetCommand.Auth.Rbac
import FleetCommand.Auth.AuthService
import FleetCommand.Auth.Tokens
import FleetCommand.Lib.PlaneSegments
import FleetCommand.Management.ZoneGeometry
import FleetCommand.Lib.ConvexRing
import FleetCommand.Geofence.ConvexZones
import FleetCommand.Lib.CyclicList
import FleetCommand.Geofence.Rings
import FleetCommand.Geofence.Tolerance
import FleetCommand.Management.Creation
import FleetCommand.Lib.TruncatedRemainder
import FleetCommand.Dashboard.MarkerHeading
import FleetCommand.Lib.StableSort
import FleetCommand.Management.Reporting
import FleetCommand.Dashboard.Traces
import FleetCommand.Dashboard.FleetState
import FleetCommand.Lib.WhileLoop
import FleetCommand.Dashboard.FleetSimulation
import FleetCommand.Dashboard.RouteAdvance
import FleetCommand.Optimizer.ParentList
import FleetCommand.Lib.CircularMean
import FleetCommand.Optimizer.Centroids
import FleetCommand.Lib.RelyGuarantee
import FleetCommand.Lib.KeyedTables
import FleetCommand.Management.Integrity
import FleetCommand.Management.ConcurrentIntegrity
import FleetCommand.Lib.Observation
import FleetCommand.Dashboard.SimulationRuns
import FleetCommand.Geofence.Observed
import FleetCommand.Lib.LogReader
import FleetCommand.Geofence.Pipeline
import FleetCommand.Lib.HandlerSimulation
import FleetCommand.Streaming.RoomDelivery
import FleetCommand.Dashboard.SimulationGeofence
import FleetCommand.Lib.WalkCost
import FleetCommand.Optimizer.OpenRoute
import FleetCommand.Lib.LastWrite
import FleetCommand.Customer.LiveTracking
import FleetCommand.Dashboard.TracePruning
import FleetCommand.Dashboard.MapFilter
import FleetCommand.Dashboard.SimulationMap
import FleetCommand.Streaming.StatusListeners
import FleetCommand.Management.ArrivalNotifications
import FleetCommand.Streaming.FanOut
import FleetCommand.Streaming.SynchronousRetry
import FleetCommand.Dashboard.Link
import FleetCommand.Management.DeliverySummary
import FleetCommand.Lib.Hex
import FleetCommand.Auth.Users
import FleetCommand.Ingestion.Answers
