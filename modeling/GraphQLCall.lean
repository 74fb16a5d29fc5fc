import GraphQLCall.Json.Writer
import GraphQLCall.Main
import GraphQLCall.Record.Derive
import GraphQLCall.Types.Decode
import GraphQLCall.Proofs.Call.Reading
import GraphQLCall.Proofs.Record.Names
import GraphQLCall.Proofs.Record.Refused
import GraphQLCall.Proofs.Json.Parts
import GraphQLCall.Proofs.Mismatch
import GraphQLCall.Proofs.Shape.Fit
import GraphQLCall.Proofs.Types.Decode
import GraphQLCall.Proofs.Types.Agreement
import GraphQLCall.Proofs.Types.Places
import GraphQLCall.Proofs.Response.Body
import GraphQLCall.Proofs.Response.Outcome
import GraphQLCall.Proofs.Types.Projection
import GraphQLCall.Proofs.Shape.Requested
import GraphQLCall.Proofs.Shape.Walk
import GraphQLCall.Proofs.Call.NonFinite
import GraphQLCall.Proofs.Call.Floats
import GraphQLCall.Proofs.Response.Independence
import GraphQLCall.Proofs.Call.Failure
import GraphQLCall.Proofs.Call.Envelope
import GraphQLCall.Proofs.Call.Order
import GraphQLCall.Proofs.Types.Lowered
import GraphQLCall.Proofs.Call.Removed
import GraphQLCall.Proofs.Command.Synthesize
import GraphQLCall.Proofs.Call.Held
import GraphQLCall.Proofs.Shape.Offence
import GraphQLCall.Proofs.Shape.Inferred
import GraphQLCall.Proofs.Selection.Layers
import GraphQLCall.Proofs.Call.Raw
import GraphQLCall.Proofs.Syntax.Delimited
import GraphQLCall.Proofs.Shape.Lookup
