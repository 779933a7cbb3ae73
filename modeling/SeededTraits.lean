import SeededTraits.Bytes
import SeededTraits.Cbor
import SeededTraits.Codec
import SeededTraits.Engine
import SeededTraits.FloatFormat
import SeededTraits.Interchange
import SeededTraits.Json.Document
import SeededTraits.Json.Number
import SeededTraits.KeyOrder
import SeededTraits.Mint
import SeededTraits.Proofs.Bytes
import SeededTraits.Proofs.Cbor.Persistence
import SeededTraits.Proofs.Cbor.RoundTrip
import SeededTraits.Proofs.Codec
import SeededTraits.Proofs.Deploy
import SeededTraits.Proofs.Engine
import SeededTraits.Proofs.Generator
import SeededTraits.Proofs.Interchange
import SeededTraits.Proofs.Json.Legible
import SeededTraits.Proofs.Json.Number
import SeededTraits.Proofs.Json.Persistence
import SeededTraits.Proofs.Json.Quoted
import SeededTraits.Proofs.Json.RoundTrip
import SeededTraits.Proofs.Json.Sequence
import SeededTraits.Proofs.Json.Skim
import SeededTraits.Proofs.KeyOrder
import SeededTraits.Proofs.Mint
import SeededTraits.Proofs.Resolution
import SeededTraits.Proofs.Resolved.Acceptance
import SeededTraits.Proofs.Resolved.Insertion
import SeededTraits.Proofs.Resolved.Members
import SeededTraits.Proofs.Resolved.Refusal
import SeededTraits.Proofs.Resolved.RoundTrip
import SeededTraits.Proofs.Resolved.Shortest
import SeededTraits.Proofs.Schema.Bounds
import SeededTraits.Proofs.Schema.Meaning
import SeededTraits.Proofs.Schema.ObjectForm
import SeededTraits.Proofs.Seed
import SeededTraits.Proofs.SeedRequest
import SeededTraits.Proofs.Session
import SeededTraits.Proofs.Value
import SeededTraits.ReferenceVector
import SeededTraits.Resolved
import SeededTraits.Schema
import SeededTraits.Seed
import SeededTraits.SeedRequest
import SeededTraits.Session
import SeededTraits.Text
import SeededTraits.Value
