import FirmwareRollout.Bench.Rig
import FirmwareRollout.Bench.Script
import FirmwareRollout.Bench.Server
import FirmwareRollout.Bridge.Http
import FirmwareRollout.Bridge.Message
import FirmwareRollout.Bridge.Target
import FirmwareRollout.Database.Row
import FirmwareRollout.Database.Session
import FirmwareRollout.Database.Statement
import FirmwareRollout.Deployment.Basic
import FirmwareRollout.Deployment.Json
import FirmwareRollout.Device.Participant
import FirmwareRollout.Error
import FirmwareRollout.Identity.DevEui
import FirmwareRollout.Identity.Rank
import FirmwareRollout.Identity.Uuid
import FirmwareRollout.Json.Record
import FirmwareRollout.Json.Token
import FirmwareRollout.Json.Value
import FirmwareRollout.Main
import FirmwareRollout.Program
import FirmwareRollout.Proofs.Bench.Cycle
import FirmwareRollout.Proofs.Bench.Polling
import FirmwareRollout.Proofs.Bench.Process
import FirmwareRollout.Proofs.Bridge.Answers
import FirmwareRollout.Proofs.Database.Aborting
import FirmwareRollout.Proofs.Database.Quarantine
import FirmwareRollout.Proofs.Database.RoundTrip
import FirmwareRollout.Proofs.Database.Validation
import FirmwareRollout.Proofs.Identity.DevEui
import FirmwareRollout.Proofs.Json.ReadBack
import FirmwareRollout.Proofs.Json.Text
import FirmwareRollout.Proofs.Program.Reaches
import FirmwareRollout.Proofs.Program.Transcript
import FirmwareRollout.Proofs.Rollout.Course
import FirmwareRollout.Proofs.Rollout.Delays
import FirmwareRollout.Proofs.Rollout.Ending
import FirmwareRollout.Proofs.Rollout.Moves
import FirmwareRollout.Proofs.Rollout.Step
import FirmwareRollout.Proofs.Rollout.Times
import FirmwareRollout.Proofs.Settings.Fields
import FirmwareRollout.Proofs.Settings.Layers
import FirmwareRollout.Proofs.Settings.Merge
import FirmwareRollout.Proofs.Settings.Names
import FirmwareRollout.Proofs.Store.Claiming
import FirmwareRollout.Proofs.Store.Creating
import FirmwareRollout.Proofs.Store.Effect
import FirmwareRollout.Proofs.Store.Exclusion
import FirmwareRollout.Proofs.Store.Interleaving
import FirmwareRollout.Proofs.Store.Messages
import FirmwareRollout.Proofs.Store.Onward
import FirmwareRollout.Proofs.Store.Paging
import FirmwareRollout.Proofs.Store.Savepoint
import FirmwareRollout.Proofs.Store.Staged
import FirmwareRollout.Proofs.Store.Twin
import FirmwareRollout.Proofs.Store.TwoMaps
import FirmwareRollout.Proofs.Store.Versions
import FirmwareRollout.Proofs.Text.Utf8
import FirmwareRollout.Proofs.Time.Micros
import FirmwareRollout.Proofs.Time.Rfc3339
import FirmwareRollout.Proofs.Toml.Rendered
import FirmwareRollout.Proofs.Toml.Written
import FirmwareRollout.Proofs.Worker.Accounts
import FirmwareRollout.Proofs.Worker.Asking
import FirmwareRollout.Proofs.Worker.Careful
import FirmwareRollout.Proofs.Worker.Crew
import FirmwareRollout.Proofs.Worker.Cycle
import FirmwareRollout.Proofs.Worker.Devices
import FirmwareRollout.Proofs.Worker.Discipline
import FirmwareRollout.Proofs.Worker.Isolation
import FirmwareRollout.Proofs.Worker.Mail
import FirmwareRollout.Proofs.Worker.Messages
import FirmwareRollout.Proofs.Worker.Orderly
import FirmwareRollout.Proofs.Worker.Overlap
import FirmwareRollout.Proofs.Worker.Receipts
import FirmwareRollout.Proofs.Worker.Refinement
import FirmwareRollout.Proofs.Worker.Reports
import FirmwareRollout.Proofs.Worker.Requests
import FirmwareRollout.Proofs.Worker.Rollouts
import FirmwareRollout.Proofs.Worker.Savepoints
import FirmwareRollout.Proofs.Worker.Settling
import FirmwareRollout.Proofs.Worker.Solo
import FirmwareRollout.Proofs.Worker.Undisturbed
import FirmwareRollout.Proofs.Worker.Within
import FirmwareRollout.Rollout.Transition
import FirmwareRollout.Settings.Basic
import FirmwareRollout.Settings.Datum
import FirmwareRollout.Settings.Environment
import FirmwareRollout.Settings.Load
import FirmwareRollout.Store.Basic
import FirmwareRollout.Store.Call
import FirmwareRollout.Store.Transaction
import FirmwareRollout.Table
import FirmwareRollout.Text.Decimal
import FirmwareRollout.Text.Hex
import FirmwareRollout.Text.Unicode
import FirmwareRollout.Time.Calendar
import FirmwareRollout.Time.Duration
import FirmwareRollout.Time.Instant
import FirmwareRollout.Time.Rfc3339
import FirmwareRollout.Toml.Document
import FirmwareRollout.Toml.Scalar
import FirmwareRollout.Toml.Text
import FirmwareRollout.Toml.Tree
import FirmwareRollout.Worker.Cycle
import FirmwareRollout.Worker.Serve
