import AerospikeCRuby.Client.Tasks
import AerospikeCRuby.Library.Transition

/-!
# Background jobs

A user defined function is run over a query or a scan by the server on its own,
under an id of 64 bits.  Ruby gets a task for it.  What the tasks show is compared
with the jobs of the server, which go on between any two calls.
-/

namespace AerospikeCRuby

/-- The function which a job applies, with the list of its arguments. -/
structure UdfCall where
  cModuleName : CStr
  cFuncName : CStr
  args : Option AsVal

/-- What `aerospike_query_background` is called with. -/
structure QueryCommand where
  query : AsQuery
  apply : UdfCall

/-- What `aerospike_scan_background` is called with; a priority that is no fixnum is not set. -/
structure ScanCommand where
  ns : CStr
  set : CStr
  applyEach : UdfCall
  priority : Option ℤ

/-- The attributes of the client which name its last jobs. -/
structure LastIds where
  lastQueryId : RbVal
  lastScanId : RbVal

def ulong2num (word : BitVec 64) : RbVal :=
  .integer word.toNat

namespace Background

section Methods

variable (rt : Runtime) (env : Unspecified) (varName : RbVal → CStr)

def udfArguments (udfArgs : Option (List RbVal)) : Except Abort (Option AsVal) :=
  match udfArgs with
  | none => .ok none
  | some ary => do
      let list ← array2asList rt ary
      .ok (some list)

/-- The part of `background_execute_udf_on_query` before the command; `queryObj` is none for
another object. -/
def queryCommand (queryObj : Option Query) (moduleName funcName : RbVal)
    (udfArgs : Option (List RbVal)) : Except Abort QueryCommand :=
  match queryObj with
  | none => .error (.optionError ("[AerospikeC::Client][bg_aggregate] use AerospikeC::Query " ++
      "class to perform queries"))
  | some queryObj => do
      let args ← udfArguments rt udfArgs
      let query ← Query.queryObj2asQuery rt env varName queryObj
      let cModuleName ← valueToCstr rt moduleName
      let cFuncName ← valueToCstr rt funcName
      .ok { query, apply := { cModuleName, cFuncName, args } }

/-- `set_priority_options`. -/
def setPriorityOptions (options : List (RbVal × RbVal)) : Except Abort (Option ℤ) :=
  let priority := hashAref options "priority"
  if priority.type = .fixnum then do
    let value ← rt.rbFix2int priority
    .ok (some value)
  else .ok none

/-- The part of `background_execute_udf_on_scan` before the command; the policy that is looked up
first may raise. -/
def scanCommand (ns set moduleName funcName : RbVal) (udfArgs : Option (List RbVal))
    (options : List (RbVal × RbVal)) (policy : Except Abort Unit) : Except Abort ScanCommand := do
  let args ← udfArguments rt udfArgs
  policy
  let ns ← valueToCstr rt ns
  let set ← valueToCstr rt set
  let cModuleName ← valueToCstr rt moduleName
  let cFuncName ← valueToCstr rt funcName
  let priority ← setPriorityOptions rt options
  .ok { ns, set, applyEach := { cModuleName, cFuncName, args }, priority }

/-- The task, and the attributes after the call; the reply is a status and the id of the job. -/
def backgroundExecuteUdfOnQuery (command : Except Abort QueryCommand) (reply : ℤ × BitVec 64)
    (ids : LastIds) : Except Failure QueryTask × LastIds :=
  match command with
  | .error abort => (.error (.raised abort), ids)
  | .ok command =>
      if reply.1 = aerospikeOk then
        let queryid := ulong2num reply.2
        (.ok (.initialize_ queryid command.query), { ids with lastQueryId := queryid })
      else (.error (.failed reply.1), ids)

/-- The id is kept before `ScanTask.new`, which asks for the first report and may raise. -/
def backgroundExecuteUdfOnScan (command : Except Abort ScanCommand) (reply : ℤ × BitVec 64)
    (info : BitVec 64 → Except ℤ AsScanInfo) (ids : LastIds) :
    Except Failure ScanTask × LastIds :=
  match command with
  | .error abort => (.error (.raised abort), ids)
  | .ok _ =>
      if reply.1 = aerospikeOk then
        let scanId := ulong2num reply.2
        (ScanTask.initialize_ rt scanId info, { ids with lastScanId := scanId })
      else (.error (.failed reply.1), ids)

end Methods

/-- A job of the server. -/
inductive Job where
  | query (id : BitVec 64)
  | scan (id : BitVec 64)
deriving DecidableEq

/-- The reports on each job, the last one first; no reports on what is no job. -/
abbrev Server := Job → List AsScanInfo

/-- A job with this report does not go on. -/
def Final (info : AsScanInfo) : Prop :=
  info.status = asScanStatusAborted ∨ info.status = asScanStatusCompleted

namespace Server

def Finished (server : Server) (job : Job) : Prop :=
  ∃ info past, server job = info :: past ∧ Final info

/-- The server begins a job, of any client, or goes on with one. -/
inductive Moves (server : Server) : Server → Prop where
  | begins (job : Job) (info : AsScanInfo) : server job = [] →
      Moves server (Function.update server job [info])
  | goesOn (job : Job) (info last : AsScanInfo) (past : List AsScanInfo) :
      server job = last :: past → ¬Final last →
        Moves server (Function.update server job (info :: last :: past))

/-- A command to begin a job is answered: where it is accepted, the id is a new one. -/
def Answers (server : Server) (job : Job) (accepted : Bool) (next : Server) : Prop :=
  if accepted then server job = [] ∧ ∃ info, next = Function.update server job [info]
  else next = server

/-- `aerospike_scan_info` tells the last report, unless the scan is unknown by now. -/
def Tells (server : Server) (info : BitVec 64 → Except ℤ AsScanInfo) : Prop :=
  ∀ id told, info id = .ok told →
    told.status = asScanStatusUndef ∨ (server (.scan id)).head? = some told

end Server

/-- The command is sent and answered with `AEROSPIKE_OK`. -/
def accepted {Command : Type} (command : Except Abort Command) (status : ℤ) : Bool :=
  command.toBool && status = aerospikeOk

/-- The client's side with the tasks it has returned, the server, the jobs begun for the client in
their order, and the answer to the first request for a report on each scan. -/
structure System where
  ids : LastIds
  queryTasks : List QueryTask
  scanTasks : List ScanTask
  server : Server
  queries : List (BitVec 64)
  scans : List (BitVec 64)
  firstInfo : BitVec 64 → Except ℤ AsScanInfo

structure System.Initial (system : System) : Prop where
  ids : system.ids = ⟨.nil, .nil⟩
  queryTasks : system.queryTasks = []
  scanTasks : system.scanTasks = []
  queries : system.queries = []
  scans : system.scans = []

variable (rt : Runtime) (env : Unspecified) (varName : RbVal → CStr)

/-- The tasks which a method returns. -/
def returned {α : Type} (outcome : Except Failure α) : List α :=
  outcome.toOption.toList

/-- Methods are called one after the other, with the server going on in between. -/
inductive Step (system : System) : System → Prop where
  | server {next : Server} : system.server.Moves next → Step system { system with server := next }
  | query (queryObj : Option Query) (moduleName funcName : RbVal) (udfArgs : Option (List RbVal))
      (reply : ℤ × BitVec 64) {command : Except Abort QueryCommand} {next : Server}
      {outcome : Except Failure QueryTask × LastIds} :
      command = queryCommand rt env varName queryObj moduleName funcName udfArgs →
      outcome = backgroundExecuteUdfOnQuery command reply system.ids →
      system.server.Answers (.query reply.2) (accepted command reply.1) next →
        Step system { system with
          ids := outcome.2
          queryTasks := system.queryTasks ++ returned outcome.1
          server := next
          queries := system.queries ++ if accepted command reply.1 then [reply.2] else [] }
  | scan (ns set moduleName funcName : RbVal) (udfArgs : Option (List RbVal))
      (options : List (RbVal × RbVal)) (policy : Except Abort Unit) (reply : ℤ × BitVec 64)
      (info : BitVec 64 → Except ℤ AsScanInfo) {command : Except Abort ScanCommand} {next : Server}
      {outcome : Except Failure ScanTask × LastIds} :
      command = scanCommand rt ns set moduleName funcName udfArgs options policy →
      outcome = backgroundExecuteUdfOnScan rt command reply info system.ids →
      system.server.Answers (.scan reply.2) (accepted command reply.1) next → next.Tells info →
        Step system { system with
          ids := outcome.2
          scanTasks := system.scanTasks ++ returned outcome.1
          server := next
          scans := system.scans ++ if accepted command reply.1 then [reply.2] else []
          firstInfo :=
            if accepted command reply.1 then
              Function.update system.firstInfo reply.2 (info reply.2)
            else system.firstInfo }
  | wait (before after : List QueryTask) (task : QueryTask) (argv : List RbVal)
      (reply : Except ℤ Unit) {waited : Waited} :
      system.queryTasks = before ++ task :: after →
      waited = task.waitTillCompleted rt env reply argv →
      (∀ query id intervalMs, waited.sent = some (.queryWait query id intervalMs) →
        reply = .ok () → system.server.Finished (.query id)) →
        Step system { system with
          queryTasks := before ++ { task with done := waited.done } :: after }
  | checkStatus (before after : List ScanTask) (task : ScanTask)
      (info : BitVec 64 → Except ℤ AsScanInfo) :
      system.scanTasks = before ++ task :: after → system.server.Tells info →
        Step system { system with
          scanTasks := before ++ (task.checkStatus rt info).2 :: after }

end Background

end AerospikeCRuby
