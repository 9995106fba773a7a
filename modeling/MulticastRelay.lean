import MulticastRelay.Adapter.Basic
import MulticastRelay.Adapter.Queue
import MulticastRelay.Adapter.Source
import MulticastRelay.Adapter.Transmission
import MulticastRelay.Ascending
import MulticastRelay.Channel.Composite
import MulticastRelay.Channel.Device
import MulticastRelay.Channel.Element
import MulticastRelay.Channel.Interest
import MulticastRelay.Channel.LinkTable
import MulticastRelay.Channel.Mirror
import MulticastRelay.Channel.RoundRobin
import MulticastRelay.Config.Apply
import MulticastRelay.Config.Basic
import MulticastRelay.Config.Document
import MulticastRelay.Decimal.Binary
import MulticastRelay.Decimal.Shortest
import MulticastRelay.Decimal.Text
import MulticastRelay.Frame.Basic
import MulticastRelay.Frame.Control
import MulticastRelay.Frame.HopCount
import MulticastRelay.IPAddress
import MulticastRelay.LinkAddress
import MulticastRelay.Main
import MulticastRelay.Node.Basic
import MulticastRelay.Node.Devices
import MulticastRelay.Node.Dispatch
import MulticastRelay.Node.Ingress
import MulticastRelay.Node.Membership
import MulticastRelay.Node.Oracle
import MulticastRelay.Node.Turn
import MulticastRelay.Pool
import MulticastRelay.Proofs.Adapter.Effects
import MulticastRelay.Proofs.Adapter.Ledger
import MulticastRelay.Proofs.Adapter.Runs
import MulticastRelay.Proofs.Adapter.WakeUp
import MulticastRelay.Proofs.Channel.Takers
import MulticastRelay.Report.Summary
import MulticastRelay.Report.Units
import MulticastRelay.Text.Blank
import MulticastRelay.Text.Digits
import MulticastRelay.Text.Fields
import MulticastRelay.Text.Reader
import MulticastRelay.Time.Instant
import MulticastRelay.Time.PacingTimer
import MulticastRelay.Time.RateLimit
import MulticastRelay.Toml.Document
import MulticastRelay.Toml.Printer
import MulticastRelay.Toml.Scalar
import MulticastRelay.Toml.Value
import MulticastRelay.Topology.Association
import MulticastRelay.Topology.Basic
import MulticastRelay.Topology.Group
import MulticastRelay.Topology.Interface
import MulticastRelay.Topology.Matcher
import MulticastRelay.Topology.Membership
import MulticastRelay.Topology.Wildcard
import MulticastRelay.Proofs.Adapter.Delivery
import MulticastRelay.Proofs.Adapter.Buffers
import MulticastRelay.Proofs.Adapter.Metering
import MulticastRelay.Proofs.Adapter.Counts
import MulticastRelay.Proofs.Node.Runs
import MulticastRelay.Proofs.Node.Buffers
import MulticastRelay.Proofs.Node.Graph
import MulticastRelay.Proofs.Node.Dispatch
import MulticastRelay.Proofs.Node.InStep
import MulticastRelay.Proofs.Node.Handover
import MulticastRelay.Proofs.Node.Ingress
import MulticastRelay.Proofs.Topology.Families
import MulticastRelay.Proofs.Topology.Sound
import MulticastRelay.Proofs.Topology.Edges
import MulticastRelay.Proofs.Topology.Picture
import MulticastRelay.Proofs.Topology.Rules
import MulticastRelay.Proofs.Topology.Operations
import MulticastRelay.Proofs.Topology.Resolution
import MulticastRelay.Proofs.Config.Portrait
import MulticastRelay.Proofs.Topology.Links
import MulticastRelay.Proofs.Config.Binding
import MulticastRelay.Proofs.Config.Standing
import MulticastRelay.Proofs.Config.Applying
import MulticastRelay.Proofs.Config.Settings
import MulticastRelay.Proofs.Config.StartUp
import MulticastRelay.Proofs.Config.HotPlug
import MulticastRelay.Proofs.Topology.Runs
import MulticastRelay.Proofs.Topology.Intact
import MulticastRelay.Proofs.Topology.Pass
import MulticastRelay.Proofs.Topology.Removal
import MulticastRelay.Proofs.Topology.Naming
import MulticastRelay.Proofs.Topology.Spread
import MulticastRelay.Proofs.Topology.Convergence
import MulticastRelay.Proofs.Topology.MatcherOrder
import MulticastRelay.Proofs.Decimal.Order
import MulticastRelay.Proofs.LinkAddress
import MulticastRelay.Proofs.Config.Saved
import MulticastRelay.Proofs.Config.Captured
import MulticastRelay.Proofs.Config.Reaching
import MulticastRelay.Proofs.Config.InterfacesRestored
import MulticastRelay.Proofs.Config.GroupEntries
import MulticastRelay.Proofs.Config.GroupsRestored
import MulticastRelay.Proofs.Config.RoundTrip
import MulticastRelay.Proofs.Topology.Bindings
import MulticastRelay.Proofs.Topology.Roles
import MulticastRelay.Proofs.Topology.Blueprints
import MulticastRelay.Proofs.Topology.Bearers
import MulticastRelay.Proofs.Topology.Conflicts
import MulticastRelay.Proofs.Adapter.SoftwareInterface
import MulticastRelay.Proofs.Config.Loading
import MulticastRelay.Proofs.Config.GroupsLoaded
import MulticastRelay.Proofs.Config.Tunnels
import MulticastRelay.Proofs.Config.Reloading
import MulticastRelay.Proofs.Topology.Lifetimes
import MulticastRelay.Proofs.Adapter.Pacing
import MulticastRelay.Proofs.Adapter.Backpressure
import MulticastRelay.Proofs.Adapter.Registration
import MulticastRelay.Proofs.Topology.Refusals
import MulticastRelay.Proofs.Topology.Images
import MulticastRelay.Proofs.Topology.Reports
import MulticastRelay.Proofs.Topology.Indifference
import MulticastRelay.Proofs.Topology.Joining
import MulticastRelay.Proofs.Node.MeshRoles
import MulticastRelay.Proofs.Channel.Rounds
import MulticastRelay.Proofs.Topology.GroupRemoval
import MulticastRelay.Proofs.Adapter.Histories
import MulticastRelay.Proofs.Adapter.FullQueue
import MulticastRelay.Proofs.Adapter.Unqueued
import MulticastRelay.Proofs.Channel.Mirroring
import MulticastRelay.Proofs.Channel.Inlet
import MulticastRelay.Proofs.Adapter.Storage
import MulticastRelay.Proofs.Adapter.Inlets
import MulticastRelay.Proofs.Node.Isolation
import MulticastRelay.Proofs.Node.Order
import MulticastRelay.Proofs.Node.Capture
import MulticastRelay.Proofs.Topology.Shelves
import MulticastRelay.Proofs.Topology.MatcherIndex
import MulticastRelay.Proofs.Frame.Checksum
import MulticastRelay.Proofs.Adapter.Lasting
import MulticastRelay.Proofs.Node.Lasting
import MulticastRelay.Proofs.Node.CaptureState
import MulticastRelay.Proofs.Node.Backing
import MulticastRelay.Proofs.Node.Replacement
import MulticastRelay.Proofs.Node.RefusedDevices
import MulticastRelay.Proofs.Adapter.Lanes
import MulticastRelay.Proofs.Topology.NameOrder
import MulticastRelay.Proofs.Config.Documents
import MulticastRelay.Proofs.Time.Delays
import MulticastRelay.Proofs.Adapter.Overruns
import MulticastRelay.Proofs.Loans
import MulticastRelay.Proofs.Config.AddressTexts
