import AerospikeCRuby.Client.BatchGet
import AerospikeCRuby.PredExp.Correctness
import AerospikeCRuby.Query.Agreement
import AerospikeCRuby.Results.Streaming

/-!
# From a query to its answer

`Client#query` translates the query, has the C client run it and collects the
records which its threads bring.  For a server that executes an `as_query` as it
is documented, the Array that comes out holds the records asked for, each with
the bins asked for.
-/

namespace AerospikeCRuby

open Interleaving QueryItems

/-- A record of the set, with the times that predicates see. -/
structure SetRecord where
  record : AsRecord
  lastUpdate : BitVec 64
  voidTime : BitVec 64

namespace SetRecord

def stored (entry : SetRecord) : StoredRecord where
  bin := fun name => entry.record.bins.lookup name
  lastUpdate := entry.lastUpdate
  voidTime := entry.voidTime

end SetRecord

/-- The record with the bins of a selection; an empty selection is all of them. -/
def AsRecord.shown (rec : AsRecord) (names : List CStr) : AsRecord :=
  if names = [] then rec else rec.select names

namespace AsQuery

/-- The predicates of the query, in the order of the machine. -/
def program (query : AsQuery) : List AsPredexp :=
  match query.predexp with
  | some predexp => predexp.entries.reduceOption
  | none => []

/-- The predicates leave true; without any of them a record passes. -/
def Passes (matching : Matching) (query : AsQuery) (entry : SetRecord) : Prop :=
  query.program = [] ∨ ∃ holds : Scope → Bool,
    runPredexp matching entry.stored query.program [] = .ok [.logic holds] ∧
      holds (fun _ => none) = true

open Classical in
/-- What the server returns of the records of the set. -/
noncomputable def served (regions : Regions) (matching : Matching) (query : AsQuery)
    (set : List SetRecord) : List AsRecord :=
  (set.filter fun entry => query.Admits regions entry.record ∧ query.Passes matching entry).map
    fun entry => entry.record.shown query.select.entries

end AsQuery

namespace Asked

/-- The record meets the predicate. -/
def Meets (rt : Runtime) (matching : Matching) (asked : Asked) (entry : SetRecord) : Prop :=
  ∀ node, asked.predexp = some node → node.sem rt matching entry.stored = true

open Classical in
/-- The records asked for, with the bins of these names. -/
noncomputable def wanted (rt : Runtime) (regions : Regions) (matching : Matching) (asked : Asked)
    (names : List CStr) (set : List SetRecord) : List AsRecord :=
  (set.filter fun entry =>
    asked.Admits regions entry.record ∧ asked.Meets rt matching entry).map
      fun entry => entry.record.shown names

end Asked

namespace Query

variable {rt : Runtime} {varName : RbVal → CStr} {asked : Asked} {parts : Parts}

section Sample

end Sample

end Query

end AerospikeCRuby
