import AerospikeCRuby.Aerospike.Operations
import AerospikeCRuby.Aerospike.Record
import AerospikeCRuby.Aerospike.Value
import AerospikeCRuby.Client.Background
import AerospikeCRuby.Client.Batch
import AerospikeCRuby.Client.BatchGet
import AerospikeCRuby.Client.Config
import AerospikeCRuby.Client.Contents
import AerospikeCRuby.Client.Header
import AerospikeCRuby.Client.Info
import AerospikeCRuby.Client.Jobs
import AerospikeCRuby.Client.Key
import AerospikeCRuby.Client.Lifecycle
import AerospikeCRuby.Client.Password
import AerospikeCRuby.Client.Policy
import AerospikeCRuby.Client.RegisterUdf
import AerospikeCRuby.Client.Runs
import AerospikeCRuby.Client.Serialise
import AerospikeCRuby.Client.Store
import AerospikeCRuby.Client.Tasks
import AerospikeCRuby.Codec.Acceptance
import AerospikeCRuby.Codec.BufferedRead
import AerospikeCRuby.Codec.Casts
import AerospikeCRuby.Codec.Copy
import AerospikeCRuby.Codec.Decode
import AerospikeCRuby.Codec.Denotation
import AerospikeCRuby.Codec.Encode
import AerospikeCRuby.Codec.Filling
import AerospikeCRuby.Codec.Forcing
import AerospikeCRuby.Codec.Integers
import AerospikeCRuby.Codec.Lending
import AerospikeCRuby.Codec.Meaning
import AerospikeCRuby.Codec.Put
import AerospikeCRuby.Codec.Readable
import AerospikeCRuby.Codec.Rewrite
import AerospikeCRuby.Codec.RoundTrip
import AerospikeCRuby.Codec.Survival
import AerospikeCRuby.Codec.WritePaths
import AerospikeCRuby.GeoJson.Circle
import AerospikeCRuby.GeoJson.Object
import AerospikeCRuby.GeoJson.Polygon
import AerospikeCRuby.Library.Acyclic
import AerospikeCRuby.Library.Aligned
import AerospikeCRuby.Library.AssocList
import AerospikeCRuby.Library.BoundedList
import AerospikeCRuby.Library.ExceptLoop
import AerospikeCRuby.Library.Fields
import AerospikeCRuby.Library.Interleaving
import AerospikeCRuby.Library.LinkedCells
import AerospikeCRuby.Library.Monitor
import AerospikeCRuby.Library.Postfix
import AerospikeCRuby.Library.RecursiveMutex
import AerospikeCRuby.Library.Refinement
import AerospikeCRuby.Library.Transition
import AerospikeCRuby.Operations.Builder
import AerospikeCRuby.Operations.Chain
import AerospikeCRuby.Operations.Malformed
import AerospikeCRuby.Operations.Meaning
import AerospikeCRuby.Operations.Operands
import AerospikeCRuby.Operations.Translate
import AerospikeCRuby.PredExp.Acceptance
import AerospikeCRuby.PredExp.Builder
import AerospikeCRuby.PredExp.Built
import AerospikeCRuby.PredExp.Compile
import AerospikeCRuby.PredExp.Correctness
import AerospikeCRuby.PredExp.GrowingArray
import AerospikeCRuby.PredExp.Machine
import AerospikeCRuby.PredExp.Meaning
import AerospikeCRuby.PredExp.Operands
import AerospikeCRuby.PredExp.Termination
import AerospikeCRuby.PredExp.Variables
import AerospikeCRuby.Query.Agreement
import AerospikeCRuby.Query.Answer
import AerospikeCRuby.Query.Builder
import AerospikeCRuby.Query.Execution
import AerospikeCRuby.Query.Translate
import AerospikeCRuby.Results.Append
import AerospikeCRuby.Results.AppendOrder
import AerospikeCRuby.Results.Blocking
import AerospikeCRuby.Results.CallbackMutex
import AerospikeCRuby.Results.Deadlock
import AerospikeCRuby.Results.Drain
import AerospikeCRuby.Results.Ensure
import AerospikeCRuby.Results.Streaming
import AerospikeCRuby.Ruby.Hash
import AerospikeCRuby.Ruby.Runtime
import AerospikeCRuby.Ruby.Text
import AerospikeCRuby.Ruby.Value
