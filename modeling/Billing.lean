import Billing.Amount
import Billing.Bus.Broadcast
import Billing.Bus.Listener
import Billing.Calendar.Clock
import Billing.Calendar.Date
import Billing.Calendar.DateReader
import Billing.Calendar.Instant
import Billing.Calendar.Rfc3339
import Billing.Completion.Call
import Billing.Completion.Context
import Billing.Completion.Desk
import Billing.Completion.Outcome
import Billing.Completion.Policy
import Billing.Completion.Registry
import Billing.Completion.Rehearsal
import Billing.Completion.Timing
import Billing.Completion.Waiter
import Billing.Config.LogFormat
import Billing.Config.Settings
import Billing.ControlTag
import Billing.DomainError
import Billing.Envelope
import Billing.Event
import Billing.Fetch.Aggregator
import Billing.Fetch.Basic
import Billing.Fetch.Mode
import Billing.Fetch.Parallel
import Billing.Fetch.Sequential
import Billing.Fetch.Token
import Billing.Http.Exchange
import Billing.Http.Form
import Billing.Http.MediaType
import Billing.Http.Outcome
import Billing.Http.Query
import Billing.Http.Request
import Billing.Http.Response
import Billing.Http.Route
import Billing.Http.Target
import Billing.Identifier
import Billing.Json.Basic
import Billing.Json.Decode
import Billing.Json.Double
import Billing.Json.Lexer
import Billing.Json.Parser
import Billing.Json.Reader
import Billing.Json.Token
import Billing.Network.Address
import Billing.Network.AddressReader
import Billing.Pipeline.Run
import Billing.Pipeline.Works
import Billing.Service.Command
import Billing.Service.Schedule
import Billing.Service.System
import Billing.Service.Timeline
import Billing.Store.Basic
import Billing.Store.Catalog
import Billing.Store.Records
import Billing.Store.Table
import Billing.Store.Vault
import Billing.Text.Ascii
import Billing.Text.Blank
import Billing.Text.Decimal
import Billing.Text.Percent
import Billing.Text.Pieces
import Billing.Uuid.Basic
import Billing.Uuid.Reader
import Billing.Wire.Event
import Billing.Wire.Records
import Billing.Wire.Scalar
import Billing.Proofs.Completion.Ownership
import Billing.Proofs.Pipeline.Settlement
import Billing.Proofs.Pipeline.Books
import Billing.Proofs.Pipeline.Works
import Billing.Proofs.Pipeline.Charges
import Billing.Proofs.Completion.Answers
import Billing.Proofs.Service.Stages
import Billing.Proofs.Pipeline.Interleaving
import Billing.Proofs.Service.Effects
import Billing.Proofs.Service.Sound
import Billing.Proofs.Service.Records
import Billing.Proofs.Service.Executions
import Billing.Proofs.Service.Flight
import Billing.Proofs.Service.Settling
import Billing.Proofs.Service.Punctual
import Billing.Proofs.Service.Steady
import Billing.Proofs.Service.Filing
import Billing.Proofs.Service.Progress
import Billing.Proofs.Service.Completed
import Billing.Proofs.Http.Demands
import Billing.Proofs.Fetch.Race
import Billing.Proofs.Fetch.Parallel
import Billing.Proofs.Fetch.Modes
import Billing.Proofs.Fetch.Observations
import Billing.Proofs.Fetch.Crashes
import Billing.Proofs.Fetch.Scope
import Billing.Proofs.Completion.Chronicle
import Billing.Proofs.Completion.Vigil
import Billing.Proofs.Completion.Stay
import Billing.Proofs.Table
import Billing.Proofs.Service.Submission
import Billing.Proofs.Service.Lifecycle
import Billing.Proofs.Service.Suppression
import Billing.Proofs.Service.Journey
import Billing.Proofs.Service.PlanChange
import Billing.Proofs.Service.Patience
import Billing.Proofs.Http.Refusals
import Billing.Proofs.Http.Effects
import Billing.Proofs.Http.Sessions
import Billing.Proofs.Http.Patience
import Billing.Proofs.Bus.Broadcast
import Billing.Proofs.Bus.Deliveries
import Billing.Proofs.Bus.Relay
import Billing.Proofs.Completion.Cells
import Billing.Proofs.Wire.Envelope
import Billing.Proofs.Calendar.Succession
import Billing.Proofs.Calendar.LocalDates
import Billing.Proofs.Store.Ledger
import Billing.Proofs.Service.Cancellation
import Billing.Proofs.Service.Provenance
import Billing.Proofs.Service.Isolation
import Billing.Proofs.Service.Timeline
import Billing.Proofs.Uuid.Grammar
import Billing.Proofs.Calendar.Clock
import Billing.Proofs.Config.Settings
import Billing.Proofs.Fetch.Progress
import Billing.Proofs.Wire.Records
