import SchemaRpc.App.Scripted
import SchemaRpc.App.Trace
import SchemaRpc.Main
import SchemaRpc.Notes.Server
import SchemaRpc.Typed.Samples
import SchemaRpc.Proofs.TypeDef.Nodes
import SchemaRpc.Proofs.Decimal.Digits
import SchemaRpc.Proofs.Timestamp.Calendar
import SchemaRpc.Proofs.Timestamp.Text
import SchemaRpc.Proofs.Value.Nodes
import SchemaRpc.Proofs.Codec.Success
import SchemaRpc.Proofs.Codec.Properties
import SchemaRpc.Proofs.Codec.Canonical
import SchemaRpc.Proofs.Codec.Scalars
import SchemaRpc.Proofs.Codec.RoundTrip
import SchemaRpc.Proofs.Introspection.Invariant
import SchemaRpc.Proofs.Introspection.Visit
import SchemaRpc.Proofs.Introspection.Checked
import SchemaRpc.Proofs.App.WireKeys
import SchemaRpc.Proofs.Introspection.Termination
import SchemaRpc.Proofs.Introspection.Correct
import SchemaRpc.Proofs.Introspection.Root
import SchemaRpc.Proofs.Json.Parts
import SchemaRpc.Proofs.Schema.Accepts
import SchemaRpc.Proofs.Codec.Accepts
import SchemaRpc.Proofs.Schema.Document
import SchemaRpc.Proofs.Schema.Valid
import SchemaRpc.Proofs.Schema.Wire
import SchemaRpc.Proofs.EventStream.Safety
import SchemaRpc.Proofs.Dispatch.Unary
import SchemaRpc.Proofs.Registry.Closed
import SchemaRpc.Proofs.Registry.Refused
import SchemaRpc.Proofs.Codec.Shadowed
import SchemaRpc.Proofs.Binary64.Finite
import SchemaRpc.Proofs.Codec.Lenient
import SchemaRpc.Proofs.Codec.Resent
import SchemaRpc.Proofs.Codec.Stable
import SchemaRpc.Proofs.Introspection.Refused
import SchemaRpc.Proofs.Registry.Typed
import SchemaRpc.Proofs.Typed.Reading
import SchemaRpc.Typed.Coding
import SchemaRpc.Proofs.Typed.Decoded
import SchemaRpc.Proofs.Typed.HasType
import SchemaRpc.Proofs.Typed.RoundTrip
import SchemaRpc.Proofs.EventStream.Channel
import SchemaRpc.Proofs.EventStream.Line
import SchemaRpc.Proofs.Session.Viewing
import SchemaRpc.Proofs.Session.Kept
import SchemaRpc.Proofs.Session.Rest
import SchemaRpc.Proofs.Session.Length
import SchemaRpc.Proofs.Session.Outcome
import SchemaRpc.Proofs.Dispatch.Stream
import SchemaRpc.Proofs.App.Routes
import SchemaRpc.Proofs.EventStream.Whole
import SchemaRpc.Proofs.Session.Loss
import SchemaRpc.Proofs.Dispatch.Loss
import SchemaRpc.Proofs.Dispatch.Panics
import SchemaRpc.Proofs.Query.Compatible
import SchemaRpc.Proofs.Query.Written
import SchemaRpc.Proofs.Codec.Recased
import SchemaRpc.Proofs.Codec.Widened
import SchemaRpc.Proofs.Notes.Feed
import SchemaRpc.Proofs.Dispatch.Agree
import SchemaRpc.Proofs.Notes.Guard
import SchemaRpc.Proofs.Introspection.Replay
import SchemaRpc.Proofs.Registry.Order
import SchemaRpc.Proofs.Introspection.Synthesized
import SchemaRpc.Proofs.App.SchemaRoute
import SchemaRpc.Proofs.Json.Written
import SchemaRpc.Proofs.Dispatch.Framing
import SchemaRpc.Proofs.Value.Depth
import SchemaRpc.Proofs.Codec.Nesting
import SchemaRpc.Proofs.Codec.Present
import SchemaRpc.Proofs.Codec.Places
import SchemaRpc.Proofs.Codec.Blame
import SchemaRpc.Proofs.Codec.Located
import SchemaRpc.Proofs.Typed.Answered
import SchemaRpc.Proofs.Typed.Lossless
import SchemaRpc.Proofs.Query.Sent
import SchemaRpc.Proofs.Binary64.Rounding
import SchemaRpc.Proofs.Decimal.Shortest
import SchemaRpc.Proofs.Json.Scaling
import SchemaRpc.Proofs.Json.Numbers
import SchemaRpc.Proofs.Json.Reread
import SchemaRpc.Proofs.Codec.Bytes
import SchemaRpc.Proofs.Definitions.Chains
import SchemaRpc.Proofs.Definitions.Changes
import SchemaRpc.Proofs.Casing.Ordinary
import SchemaRpc.Proofs.Procedure.Derived
import SchemaRpc.Proofs.Notes.Runs
import SchemaRpc.Proofs.Notes.Tagged
import SchemaRpc.Proofs.Registry.Documented
import SchemaRpc.Proofs.Json.Selected
import SchemaRpc.Proofs.Http.ErrorBody
import SchemaRpc.Proofs.Codec.Paths
import SchemaRpc.Proofs.Casing.Boundaries
import SchemaRpc.Proofs.Codec.RollOver
