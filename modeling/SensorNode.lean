import SensorNode.Bus
import SensorNode.Cancellation
import SensorNode.Decimal.Layout
import SensorNode.Decimal.Reading
import SensorNode.Decimal.Shortest
import SensorNode.Device.Act
import SensorNode.Device.Basic
import SensorNode.Device.Procedure
import SensorNode.Device.Turns
import SensorNode.Duration
import SensorNode.Entity.Basic
import SensorNode.Entity.Change
import SensorNode.Entity.RecordId
import SensorNode.Entity.Wire
import SensorNode.Geofence
import SensorNode.Harvest.Cycle
import SensorNode.Harvest.Pipe
import SensorNode.Harvest.Play
import SensorNode.Identity
import SensorNode.Instant
import SensorNode.Json.Printer
import SensorNode.Json.Raw
import SensorNode.Json.Shape
import SensorNode.Json.Tree
import SensorNode.Keyed
import SensorNode.Ledger.Basic
import SensorNode.Ledger.Link
import SensorNode.Metric
import SensorNode.NearbyAssets
import SensorNode.Planner
import SensorNode.Proofs.Bus
import SensorNode.Proofs.Device.Activation
import SensorNode.Proofs.Device.Agenda
import SensorNode.Proofs.Device.Discovery
import SensorNode.Proofs.Device.Enrolment
import SensorNode.Proofs.Device.Identity
import SensorNode.Proofs.Device.Lifecycle
import SensorNode.Proofs.Device.Login
import SensorNode.Proofs.Device.Pool
import SensorNode.Proofs.Device.Preparation
import SensorNode.Proofs.Device.Procedures
import SensorNode.Proofs.Device.Release
import SensorNode.Proofs.Device.Removal
import SensorNode.Proofs.Device.Run
import SensorNode.Proofs.Device.WarmUp
import SensorNode.Proofs.Entity.Text
import SensorNode.Proofs.Entity.Wire
import SensorNode.Proofs.Handlers
import SensorNode.Proofs.Harvest.Arrival
import SensorNode.Proofs.Harvest.Finiteness
import SensorNode.Proofs.Harvest.Noise
import SensorNode.Proofs.Harvest.Outcome
import SensorNode.Proofs.Harvest.Play
import SensorNode.Proofs.Harvest.Rounds
import SensorNode.Proofs.Harvest.Schedule
import SensorNode.Proofs.Harvest.Span
import SensorNode.Proofs.Harvest.Timing
import SensorNode.Proofs.Intake.Convergence
import SensorNode.Proofs.Intake.Order
import SensorNode.Proofs.Intake.Run
import SensorNode.Proofs.Json.Scan
import SensorNode.Proofs.Json.Text
import SensorNode.Proofs.Keyed
import SensorNode.Proofs.Ledger.Mirror
import SensorNode.Proofs.Ledger.Patches
import SensorNode.Proofs.Numbers
import SensorNode.Proofs.Planning.Activation
import SensorNode.Proofs.Planning.Deadlines
import SensorNode.Proofs.Planning.Placement
import SensorNode.Proofs.Planning.Posting
import SensorNode.Proofs.Planning.Refusal
import SensorNode.Proofs.Planning.Replacement
import SensorNode.Proofs.Planning.Run
import SensorNode.Proofs.Planning.Subscriptions
import SensorNode.Proofs.Planning.Withdrawal
import SensorNode.Proofs.Reading.Besides
import SensorNode.Proofs.Reading.Cancellation
import SensorNode.Proofs.Reading.Chronicle
import SensorNode.Proofs.Reading.Delivery
import SensorNode.Proofs.Reading.Harvests
import SensorNode.Proofs.Reading.Jobs
import SensorNode.Proofs.Reading.Numbering
import SensorNode.Proofs.Reading.Once
import SensorNode.Proofs.Reading.Players
import SensorNode.Proofs.Reading.Run
import SensorNode.Proofs.Reading.Shutdown
import SensorNode.Proofs.Reading.Single
import SensorNode.Proofs.Reading.Standing
import SensorNode.Proofs.Reading.Timetable
import SensorNode.Proofs.Receivers
import SensorNode.Proofs.Reduction
import SensorNode.Proofs.Rounding
import SensorNode.Proofs.Settings.Overrides
import SensorNode.Proofs.Site.Assets
import SensorNode.Proofs.Site.Changes
import SensorNode.Proofs.Site.Devices
import SensorNode.Proofs.Site.Removals
import SensorNode.Proofs.Site.Requirements
import SensorNode.Proofs.Values
import SensorNode.Proofs.Watch.Gating
import SensorNode.Proofs.Watch.Run
import SensorNode.Proofs.Watch.Stopping
import SensorNode.Reading.Engine
import SensorNode.Reading.Step
import SensorNode.Reduction
import SensorNode.Request
import SensorNode.Sample
import SensorNode.Sensor.Basic
import SensorNode.Sensor.Instrument
import SensorNode.Settings.Basic
import SensorNode.Settings.Disk
import SensorNode.Settings.Load
import SensorNode.Site.Basic
import SensorNode.Site.Changes
import SensorNode.Site.Watch
import SensorNode.Text.Blank
import SensorNode.Toml.Document
import SensorNode.Toml.Lexeme
import SensorNode.Toml.Table
