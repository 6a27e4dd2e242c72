import AerospikeCRuby.Client.Batch
import AerospikeCRuby.Library.Refinement
import AerospikeCRuby.Query.Translate

/-!
# Tasks

A job which the server runs on its own is seen from Ruby through a task.  The
classes `UdfTask`, `QueryTask` and `IndexTask` wait for the end of their job and
keep in `@done` that they have seen it; a `ScanTask` shows the last report on its
scan that it has asked for.
-/

namespace AerospikeCRuby

/-- A method raises before its command, or with `raise_as_error` for its status. -/
inductive Failure where
  | raised (abort : Abort)
  | failed (status : ℤ)

/-- `rb_scan_args` with the format "01". -/
def scanArgs01 : List RbVal → Except Abort RbVal
  | [] => .ok .nil
  | [first] => .ok first
  | _ => .error (.argumentError "wrong number of arguments")

/-- What is read of an `as_index_task`. -/
structure AsIndexTask where
  name : CStr
  done : Bool

/-- The commands of the C client which wait for the end of a job. -/
inductive WaitCommand where
  | udfPutWait (name : CStr) (intervalMs : BitVec 64)
  | queryWait (query : AsQuery) (queryId intervalMs : BitVec 64)
  | indexCreateWait (task : AsIndexTask) (intervalMs : BitVec 64)

/-- What a call of `wait_till_completed` answers and sends, and `@done` after it. -/
structure Waited where
  answer : Except Failure Bool
  sent : Option WaitCommand
  done : Bool

/-- The method `wait_till_completed`, by the command that it makes of the interval; to
`AEROSPIKE_OK` belongs what `@done` becomes. -/
def waitTillCompleted (env : Unspecified) (command : BitVec 64 → Except Abort WaitCommand)
    (reply : Except ℤ Bool) (done : Bool) (argv : List RbVal) : Waited :=
  if done then ⟨.ok true, none, true⟩
  else
    match waitCommand with
    | .error abort => ⟨.error (.raised abort), none, false⟩
    | .ok sent =>
        match reply with
        | .error status => ⟨.error (.failed status), some sent, false⟩
        | .ok done => ⟨.ok true, some sent, done⟩
where
  waitCommand : Except Abort WaitCommand := do
    let intervalMs ← scanArgs01 argv
    command (env.fix2long (if intervalMs.isNil then .integer 0 else intervalMs))

theorem waitCommand_nil (env : Unspecified)
    (command : BitVec 64 → Except Abort WaitCommand) :
    ∃ intervalMs, waitTillCompleted.waitCommand env command [] = command intervalMs :=
  ⟨_, rfl⟩

structure UdfTask where
  name : RbVal
  done : Bool

namespace UdfTask

def initialize_ (name : RbVal) : UdfTask where
  name := name
  done := false

def command (rt : Runtime) (task : UdfTask) (intervalMs : BitVec 64) :
    Except Abort WaitCommand := do
  let name ← valueToCstr rt task.name
  .ok (.udfPutWait name intervalMs)

def waitTillCompleted (rt : Runtime) (env : Unspecified) (task : UdfTask) (reply : Except ℤ Unit)
    (argv : List RbVal) : Waited :=
  AerospikeCRuby.waitTillCompleted env (task.command rt) (reply.map fun _ => true) task.done argv

end UdfTask

/-- A `QueryTask` wraps the query that runs. -/
structure QueryTask where
  queryId : RbVal
  query : AsQuery
  done : Bool

namespace QueryTask

def initialize_ (queryId : RbVal) (query : AsQuery) : QueryTask where
  queryId := queryId
  query := query
  done := false

def command (rt : Runtime) (task : QueryTask) (intervalMs : BitVec 64) :
    Except Abort WaitCommand := do
  let queryId ← rt.num2ulong task.queryId
  .ok (.queryWait task.query queryId intervalMs)

def waitTillCompleted (rt : Runtime) (env : Unspecified) (task : QueryTask)
    (reply : Except ℤ Unit) (argv : List RbVal) : Waited :=
  AerospikeCRuby.waitTillCompleted env (task.command rt) (reply.map fun _ => true) task.done argv

/-- A task that is done after a wait was done before, or the command about its job is answered with
`AEROSPIKE_OK`. -/
theorem done_cases {rt : Runtime} {env : Unspecified} {task : QueryTask} {reply : Except ℤ Unit}
    {argv : List RbVal} (finished : (task.waitTillCompleted rt env reply argv).done = true) :
    task.done = true ∨ reply = .ok () ∧ ∃ query id intervalMs,
      (task.waitTillCompleted rt env reply argv).sent = some (.queryWait query id intervalMs) ∧
        rt.num2ulong task.queryId = .ok id := by
  simp only [waitTillCompleted, AerospikeCRuby.waitTillCompleted] at finished ⊢
  split at finished
  case isTrue done => exact .inl done
  case isFalse running =>
    right
    split at finished
    case h_1 => cases finished
    case h_2 sent made =>
      rcases ExceptLoop.bind_eq_ok.mp made with ⟨intervalMs, _, commanded⟩
      rcases ExceptLoop.bind_eq_ok.mp commanded with ⟨id, converted, same⟩
      cases same
      cases reply with
      | error status => cases finished
      | ok =>
          refine ⟨rfl, task.query, id,
            env.fix2long (if intervalMs.isNil then .integer 0 else intervalMs), ?_, converted⟩
          rw [if_neg running]
          rfl

end QueryTask

structure IndexTask where
  task : AsIndexTask
  name : RbVal
  done : Bool

namespace IndexTask

def initialize_ (task : AsIndexTask) : IndexTask where
  task := task
  name := .string (rbStrNew2 task.name)
  done := task.done

def command (task : IndexTask) (intervalMs : BitVec 64) : Except Abort WaitCommand :=
  .ok (.indexCreateWait task.task intervalMs)

/-- Here `@done` becomes what the command has left in the `as_index_task`. -/
def waitTillCompleted (env : Unspecified) (task : IndexTask) (reply : Except ℤ Bool)
    (argv : List RbVal) : Waited :=
  AerospikeCRuby.waitTillCompleted env task.command reply task.done argv

end IndexTask

/-- What is read of an `as_scan_info`. -/
structure AsScanInfo where
  status : BitVec 32
  progressPct : BitVec 32
deriving DecidableEq, Repr

def asScanStatusUndef : BitVec 32 := 0

def asScanStatusInprogress : BitVec 32 := 1

def asScanStatusAborted : BitVec 32 := 2

def asScanStatusCompleted : BitVec 32 := 3

def status2rubyStr (status : BitVec 32) : Except Abort RbVal :=
  if status = asScanStatusUndef then .ok (rbStrLit "AS_SCAN_STATUS_UNDEF")
  else if status = asScanStatusInprogress then .ok (rbStrLit "AS_SCAN_STATUS_INPROGRESS")
  else if status = asScanStatusAborted then .ok (rbStrLit "AS_SCAN_STATUS_ABORTED")
  else if status = asScanStatusCompleted then .ok (rbStrLit "AS_SCAN_STATUS_COMPLETED")
  else .error (.parseError "[AerospikeC::ScanTask][status] undefined ScanTask status")

structure ScanTask where
  scanId : RbVal
  status : RbVal
  statusId : RbVal
  progress : RbVal

namespace ScanTask

variable (rt : Runtime)

/-- `NUM2ULONG` of the id, `aerospike_scan_info` and the three values made of its answer. -/
def scanInfo (scanId : RbVal) (info : BitVec 64 → Except ℤ AsScanInfo) :
    Except Failure ScanTask := do
  let id ← (rt.num2ulong scanId).mapError .raised
  let scanInfo ← (info id).mapError .failed
  let status ← (status2rubyStr scanInfo.status).mapError .raised
  .ok { scanId, status, statusId := .integer scanInfo.status.toNat,
        progress := .integer scanInfo.progressPct.toNat }

def initialize_ (scanId : RbVal) (info : BitVec 64 → Except ℤ AsScanInfo) :
    Except Failure ScanTask :=
  scanInfo rt scanId info

/-- The Hash with the status, and the task after the call. -/
def checkStatus (task : ScanTask) (info : BitVec 64 → Except ℤ AsScanInfo) :
    Except Failure StrHash × ScanTask :=
  match scanInfo rt task.scanId info with
  | .error failure => (.error failure, task)
  | .ok shown =>
      (.ok [(cstr (ascii "status"), shown.status), (cstr (ascii "status_id"), shown.statusId),
        (cstr (ascii "progress"), shown.progress)], shown)

/-- `completed?`; the status is a fixnum. -/
def isCompleted (task : ScanTask) : Except Abort Bool := do
  let status ← rt.rbFix2int task.statusId
  .ok (status = asScanStatusCompleted.toNat)

end ScanTask

/-- A task which can be waited for. -/
inductive Task where
  | udf (task : UdfTask)
  | query (task : QueryTask)
  | index (task : IndexTask)

namespace Task

def done : Task → Bool
  | udf task => task.done
  | query task => task.done
  | index task => task.done

def setDone (done : Bool) : Task → Task
  | udf task => udf { task with done }
  | query task => query { task with done }
  | index task => index { task with done }

def command (rt : Runtime) : Task → BitVec 64 → Except Abort WaitCommand
  | udf task => task.command rt
  | query task => task.command rt
  | index task => task.command

variable (rt : Runtime) (env : Unspecified)

def waitTillCompleted (reply : Except ℤ Bool) (argv : List RbVal) : Task → Waited
  | udf task => task.waitTillCompleted rt env (reply.map fun _ => ()) argv
  | query task => task.waitTillCompleted rt env (reply.map fun _ => ()) argv
  | index task => task.waitTillCompleted env reply argv

/-- A call of the method, with its arguments and what the C client answers. -/
def wait (task : Task) (call : List RbVal × Except ℤ Bool) : Waited × Task :=
  let waited := task.waitTillCompleted rt env call.2 call.1
  (waited, task.setDone waited.done)

variable {rt : Runtime} {env : Unspecified} {task : Task}

theorem setDone_done (task : Task) : task.setDone task.done = task := by
  cases task <;> rfl

/-- What the reply to the command is taken for. -/
def taken (reply : Except ℤ Bool) : Task → Except ℤ Bool
  | udf _ => reply.map fun _ => true
  | query _ => reply.map fun _ => true
  | index _ => reply

theorem waitTillCompleted_eq (reply : Except ℤ Bool) (argv : List RbVal) :
    task.waitTillCompleted rt env reply argv =
      AerospikeCRuby.waitTillCompleted env (task.command rt) (task.taken reply) task.done argv := by
  cases task <;> cases reply <;> rfl

theorem wait_of_done (finished : task.done = true) (call : List RbVal × Except ℤ Bool) :
    task.wait rt env call = (⟨.ok true, none, true⟩, task) := by
  have waited : task.waitTillCompleted rt env call.2 call.1 = ⟨.ok true, none, true⟩ := by
    rw [waitTillCompleted_eq, AerospikeCRuby.waitTillCompleted, if_pos finished]
  have same := task.setDone_done
  rw [finished] at same
  simp only [wait, waited, same]

/-- Nothing has been learnt: the call raised, or an index is not yet there. -/
def Open (task : Task) (waited : Waited) : Prop :=
  waited.done = false ∧ (waited.answer = .ok true → ∃ index, task = .index index)

/-- The call that learns of the end of the job, by a command about this job. -/
def Hits (rt : Runtime) (task : Task) (waited : Waited) : Prop :=
  ∃ sent intervalMs, waited = ⟨.ok true, some sent, true⟩ ∧ task.command rt intervalMs = .ok sent

theorem open_or_hits (running : task.done = false) (call : List RbVal × Except ℤ Bool) :
    task.Open (task.wait rt env call).1 ∨ task.Hits rt (task.wait rt env call).1 := by
  simp only [wait, waitTillCompleted_eq, AerospikeCRuby.waitTillCompleted, running,
    Bool.false_eq_true, if_false]
  split
  case h_1 => exact .inl ⟨rfl, nofun⟩
  case h_2 sent made =>
    rcases ExceptLoop.bind_eq_ok.mp made with ⟨intervalMs, _, commanded⟩
    split
    case h_1 => exact .inl ⟨rfl, nofun⟩
    case h_2 done taken =>
      cases done with
      | true => exact .inr ⟨sent, _, rfl, commanded⟩
      | false =>
          refine .inl ⟨rfl, fun _ => ?_⟩
          cases task with
          | index index => exact ⟨index, rfl⟩
          | _ => cases reply : call.2 <;> simp [Task.taken, reply, Except.map] at taken

theorem waits_of_done (finished : task.done = true) (calls : List (List RbVal × Except ℤ Bool)) :
    Refinement.answers (wait rt env) task calls =
      (calls.map fun _ => ⟨.ok true, none, true⟩, task) := by
  induction calls with
  | nil => rfl
  | cons call rest ih => simp only [Refinement.answers, wait_of_done finished, ih, List.map_cons]

/-- However often a task which is not done is waited for: until one call has learnt of the end of
the job nothing is recorded, and after that call nothing is asked any more. -/
theorem waits_of_running (running : task.done = false)
    (calls : List (List RbVal × Except ℤ Bool)) :
    ∃ waits final, Refinement.answers (wait rt env) task calls = (waits, final) ∧
      ((final = task ∧ ∀ waited ∈ waits, task.Open waited) ∨
        ∃ before hit after, waits = before ++ hit :: after ∧ (∀ waited ∈ before, task.Open waited) ∧
          task.Hits rt hit ∧ (∀ waited ∈ after, waited = ⟨.ok true, none, true⟩) ∧
          final = task.setDone true) := by
  induction calls with
  | nil => exact ⟨[], task, rfl, .inl ⟨rfl, by simp⟩⟩
  | cons call rest ih =>
      rcases @open_or_hits rt env task running call with stays | hits
      · have next : (task.wait rt env call).2 = task := by
          have same := task.setDone_done
          rw [running] at same
          change task.setDone (task.wait rt env call).1.done = task
          rw [stays.1, same]
        rcases ih with ⟨waits, final, answered, rest_⟩
        refine ⟨(task.wait rt env call).1 :: waits, final, ?_, ?_⟩
        · simp only [Refinement.answers, next, answered]
        · rcases rest_ with ⟨same, all⟩ | ⟨before, hit, after, split, all, tail⟩
          · exact .inl ⟨same, List.forall_mem_cons.mpr ⟨stays, all⟩⟩
          · exact .inr ⟨_ :: before, hit, after, congrArg _ split,
              List.forall_mem_cons.mpr ⟨stays, all⟩, tail⟩
      · have next : (task.wait rt env call).2 = task.setDone true := by
          rcases hits with ⟨sent, _, waited, _⟩
          change task.setDone (task.wait rt env call).1.done = _
          rw [waited]
        have finished : (task.setDone true).done = true := by cases task <;> rfl
        refine ⟨_ :: rest.map fun _ => ⟨.ok true, none, true⟩, task.setDone true, ?_, .inr
          ⟨[], _, _, rfl, by simp, hits, ?_, rfl⟩⟩
        · simp only [Refinement.answers, next, waits_of_done finished]
        · intro waited member
          rcases List.mem_map.mp member with ⟨_, _, rfl⟩
          rfl

/-- A task which is done at first, as one made of an `as_index_task` that is done, answers true to
every call and asks nothing.  Until one call has learnt of the end of the job no call of another
task answers true, unless it is about an index; that call has asked about this very job; and after
it every call answers true and asks nothing. -/
theorem waits_until_done (calls : List (List RbVal × Except ℤ Bool)) :
    ∃ waits final, Refinement.answers (wait rt env) task calls = (waits, final) ∧
      ((task.done = true ∧ final = task ∧ ∀ waited ∈ waits, waited = ⟨.ok true, none, true⟩) ∨
        (task.done = false ∧ final = task ∧ ∀ waited ∈ waits, task.Open waited) ∨
        ∃ before hit after, waits = before ++ hit :: after ∧ task.done = false ∧
          (∀ waited ∈ before, task.Open waited) ∧ task.Hits rt hit ∧
          (∀ waited ∈ after, waited = ⟨.ok true, none, true⟩) ∧ final = task.setDone true) := by
  cases finished : task.done with
  | true =>
      refine ⟨_, _, waits_of_done finished calls, .inl ⟨rfl, rfl, ?_⟩⟩
      intro waited member
      rcases List.mem_map.mp member with ⟨_, _, rfl⟩
      rfl
  | false =>
      rcases @waits_of_running rt env task finished calls with
        ⟨waits, final, answered, ⟨same, all⟩ | ⟨before, hit, after, split, tail⟩⟩
      · exact ⟨waits, final, answered, .inr (.inl ⟨rfl, same, all⟩)⟩
      · exact ⟨waits, final, answered, .inr (.inr ⟨before, hit, after, split, rfl, tail⟩)⟩

/-- The first call fails, the second succeeds, and the third asks nothing. -/
theorem waits_until_done_sample :
    ∃ hit, Task.Hits .sample (.udf (.initialize_ (.string ⟨ascii "jobs.lua", .utf8⟩))) hit := by
  have waits := @waits_until_done .sample .blank
    (.udf (.initialize_ (.string ⟨ascii "jobs.lua", .utf8⟩)))
    [([], .error 1), ([], .ok true), ([.integer 5], .ok true)]
  rcases waits with
    ⟨waits, final, answered, ⟨done, _⟩ | ⟨_, same, _⟩ | ⟨_, hit, _, _, _, _, hits, _⟩⟩
  · cases done
  · have finished := congrArg (fun answers => answers.2.done) answered
    rw [same] at finished
    cases finished
  · exact ⟨hit, hits⟩

end Task

end AerospikeCRuby
