import AerospikeCRuby.Client.Background

/-!
# What tasks tell about their jobs

Whatever the client calls and however far the server gets in between, a task that
is done names a job that has ended, a scan task shows one report on its own scan,
and no job begun for the client gets lost.
-/

namespace AerospikeCRuby.Background

theorem num2ulong_ulong2num (rt : Runtime) (word : BitVec 64) :
    rt.num2ulong (ulong2num word) = .ok word := by
  have bounds : -2 ^ 63 ≤ (word.toNat : ℤ) ∧ (word.toNat : ℤ) < 2 ^ 64 := by
    have := word.isLt
    omega
  rw [ulong2num, Runtime.num2ulong_integer, if_pos bounds]
  simp

theorem ulong2num_injective : Function.Injective ulong2num := by
  intro word other same
  have numbers : word.toNat = other.toNat := by simpa [ulong2num] using same
  exact BitVec.eq_of_toNat_eq numbers

namespace Server

variable {server next : Server} {job : Job}

/-- The reports that were there stay, and nothing follows a final one. -/
structure Extends (server next : Server) : Prop where
  kept : ∀ job, server job <:+ next job
  ended : ∀ job info past, server job = info :: past → Final info → next job = server job

theorem Extends.refl (server : Server) : server.Extends server where
  kept := fun _ => List.suffix_refl _
  ended := fun _ _ _ _ _ => rfl

theorem extends_begin (fresh : server job = []) (info : AsScanInfo) :
    server.Extends (Function.update server job [info]) where
  kept := by
    intro other
    by_cases same : other = job
    · rw [same, fresh]
      exact List.nil_suffix
    · rw [Function.update_of_ne same]
  ended := by
    intro other last past reports _
    by_cases same : other = job
    · rw [same, fresh] at reports
      cases reports
    · rw [Function.update_of_ne same]

theorem Moves.extends (moves : server.Moves next) : server.Extends next := by
  cases moves with
  | begins job info fresh => exact extends_begin fresh info
  | goesOn job info last past reports running =>
      constructor
      · intro other
        by_cases same : other = job
        · rw [same, reports, Function.update_self]
          exact List.suffix_cons _ _
        · rw [Function.update_of_ne same]
      · intro other info' past' reports' final
        by_cases same : other = job
        · rw [same, reports] at reports'
          cases reports'
          exact absurd final running
        · rw [Function.update_of_ne same]

theorem Extends.finished (extended : server.Extends next) (finished : server.Finished job) :
    next.Finished job := by
  rcases finished with ⟨info, past, reports, final⟩
  exact ⟨info, past, (extended.ended _ _ _ reports final).trans reports, final⟩

theorem Extends.head (extended : server.Extends next) {info : AsScanInfo}
    (head : (server job).head? = some info) (final : Final info) :
    (next job).head? = some info := by
  rcases List.head?_eq_some_iff.mp head with ⟨past, reports⟩
  rw [extended.ended _ _ _ reports final]
  exact head

end Server

/-- The task shows a report, in all three attributes. -/
def Shows (task : ScanTask) (info : AsScanInfo) : Prop :=
  status2rubyStr info.status = .ok task.status ∧ task.statusId = .integer info.status.toNat ∧
    task.progress = .integer info.progressPct.toNat

/-- What is shown is unknown to the server or one of its reports on the scan, and an end of the
scan is still the last of them. -/
def Reported (server : Server) (id : BitVec 64) (info : AsScanInfo) : Prop :=
  (info.status = asScanStatusUndef ∨ info ∈ server (.scan id)) ∧
    (Final info → (server (.scan id)).head? = some info)

theorem Reported.extend {server next : Server} {id : BitVec 64} {info : AsScanInfo}
    (reported : Reported server id info) (extended : server.Extends next) :
    Reported next id info := by
  refine ⟨reported.1.imp_right fun member => ?_, fun final =>
    extended.head (reported.2 final) final⟩
  exact (extended.kept (.scan id)).subset member

theorem reported_of_tells {server : Server} {info : BitVec 64 → Except ℤ AsScanInfo}
    (tells : server.Tells info) {id : BitVec 64} {told : AsScanInfo} (answer : info id = .ok told) :
    Reported server id told := by
  rcases tells id told answer with unknown | last
  · refine ⟨.inl unknown, ?_⟩
    rintro (aborted | completed)
    · rw [unknown] at aborted
      cases aborted
    · rw [unknown] at completed
      cases completed
  · exact ⟨.inr (List.mem_of_mem_head? last), fun _ => last⟩

theorem scanInfo_eq_ok {rt : Runtime} {scanId : RbVal} {info : BitVec 64 → Except ℤ AsScanInfo}
    {task : ScanTask} (made : ScanTask.scanInfo rt scanId info = .ok task) :
    task.scanId = scanId ∧ ∃ id told, rt.num2ulong scanId = .ok id ∧ info id = .ok told ∧
      Shows task told := by
  simp only [ScanTask.scanInfo, ExceptLoop.bind_eq_ok] at made
  rcases made with ⟨id, converted, told, answer, text, status, made⟩
  cases made
  refine ⟨rfl, id, told, ?_, ?_, ?_, rfl, rfl⟩
  · cases number : rt.num2ulong scanId <;> rw [number] at converted <;> cases converted
    rfl
  · cases reply : info id <;> rw [reply] at answer <;> cases answer
    rfl
  · cases shown : status2rubyStr told.status <;> rw [shown] at status <;> cases status
    rfl

/-- A report came, with one of the statuses that a scan may have. -/
def readable : Except ℤ AsScanInfo → Bool
  | .error _ => false
  | .ok told =>
      told.status = asScanStatusUndef || told.status = asScanStatusInprogress ||
        told.status = asScanStatusAborted || told.status = asScanStatusCompleted

/-- A task is made of a scan whose first report can be read. -/
theorem ids_of_initialize (rt : Runtime) (id : BitVec 64) (info : BitVec 64 → Except ℤ AsScanInfo) :
    (returned (ScanTask.initialize_ rt (ulong2num id) info)).map (·.scanId) =
      ([id].filter fun id => readable (info id)).map ulong2num := by
  rw [ScanTask.initialize_, ScanTask.scanInfo, num2ulong_ulong2num, List.filter_singleton]
  cases answer : info id with
  | error status => simp [Except.mapError, bind, Except.bind, readable, answer, returned]
  | ok told =>
      simp only [Except.mapError, bind, Except.bind, readable, answer, status2rubyStr]
      split_ifs <;> simp_all [returned]

/-- The last of the ids, as the attribute of the client shows it. -/
def lastId (ids : List (BitVec 64)) : RbVal :=
  match ids.getLast? with
  | none => .nil
  | some id => ulong2num id

structure Inv (system : System) : Prop where
  queryTasks : system.queryTasks.map (·.queryId) = system.queries.map ulong2num
  scanTasks : system.scanTasks.map (·.scanId) =
    (system.scans.filter fun id => readable (system.firstInfo id)).map ulong2num
  lastQueryId : system.ids.lastQueryId = lastId system.queries
  lastScanId : system.ids.lastScanId = lastId system.scans
  queriesBegun : ∀ id ∈ system.queries, system.server (.query id) ≠ []
  scansBegun : ∀ id ∈ system.scans, system.server (.scan id) ≠ []
  queriesDistinct : system.queries.Nodup
  scansDistinct : system.scans.Nodup
  done : ∀ task ∈ system.queryTasks, task.done = true →
    ∃ id, task.queryId = ulong2num id ∧ system.server.Finished (.query id)
  shown : ∀ task ∈ system.scanTasks, ∃ id info, task.scanId = ulong2num id ∧ Shows task info ∧
    Reported system.server id info

section Steps

variable {rt : Runtime} {env : Unspecified} {varName : RbVal → CStr} {system next : System}

theorem inv_initial (initial : system.Initial) : Inv system where
  queryTasks := by rw [initial.queryTasks, initial.queries]; rfl
  scanTasks := by rw [initial.scanTasks, initial.scans]; rfl
  lastQueryId := by rw [initial.ids, initial.queries]; rfl
  lastScanId := by rw [initial.ids, initial.scans]; rfl
  queriesBegun := by rw [initial.queries]; exact fun _ => nofun
  scansBegun := by rw [initial.scans]; exact fun _ => nofun
  queriesDistinct := by rw [initial.queries]; exact .nil
  scansDistinct := by rw [initial.scans]; exact .nil
  done := by rw [initial.queryTasks]; exact fun _ => nofun
  shown := by rw [initial.scanTasks]; exact fun _ => nofun

theorem Inv.serve (inv : Inv system) {server : Server} (extended : system.server.Extends server) :
    Inv { system with server } where
  queryTasks := inv.queryTasks
  scanTasks := inv.scanTasks
  lastQueryId := inv.lastQueryId
  lastScanId := inv.lastScanId
  queriesBegun := fun id member => (extended.kept _).ne_nil (inv.queriesBegun id member)
  scansBegun := fun id member => (extended.kept _).ne_nil (inv.scansBegun id member)
  queriesDistinct := inv.queriesDistinct
  scansDistinct := inv.scansDistinct
  done := by
    intro task member done
    rcases inv.done task member done with ⟨id, named, finished⟩
    exact ⟨id, named, extended.finished finished⟩
  shown := by
    intro task member
    rcases inv.shown task member with ⟨id, info, named, shows, reported⟩
    exact ⟨id, info, named, shows, reported.extend extended⟩

theorem lastId_concat (ids : List (BitVec 64)) (id : BitVec 64) :
    lastId (ids ++ [id]) = ulong2num id := by
  simp [lastId]

theorem forall_mem_replace {α : Type} {p : α → Prop} {before after : List α} {old new : α}
    (all : ∀ task ∈ before ++ old :: after, p task) (renewed : p new) :
    ∀ task ∈ before ++ new :: after, p task := by
  simp only [List.forall_mem_append, List.forall_mem_cons] at all ⊢
  exact ⟨all.1, renewed, all.2.2⟩

theorem begun_concat {server : Server} (job : BitVec 64 → Job) {ids : List (BitVec 64)}
    {id : BitVec 64} {info : AsScanInfo}
    (old : ∀ other ∈ ids, Function.update server (job id) [info] (job other) ≠ []) :
    ∀ other ∈ ids ++ [id], Function.update server (job id) [info] (job other) ≠ [] := by
  intro other member
  rcases List.mem_append.mp member with begun | same
  · exact old other begun
  · rw [List.mem_singleton.mp same, Function.update_self]
    exact List.cons_ne_nil _ _

theorem mem_returned {α : Type} {outcome : Except Failure α} {task : α} :
    task ∈ returned outcome ↔ outcome = .ok task := by
  cases outcome <;> simp [returned, Except.toOption, eq_comm]

theorem backgroundExecuteUdfOnQuery_cases (command : Except Abort QueryCommand)
    (reply : ℤ × BitVec 64) (ids : LastIds) :
    accepted command reply.1 = false ∧
        returned (backgroundExecuteUdfOnQuery command reply ids).1 = [] ∧
          (backgroundExecuteUdfOnQuery command reply ids).2 = ids ∨
      accepted command reply.1 = true ∧ ∃ query,
        backgroundExecuteUdfOnQuery command reply ids =
          (.ok (.initialize_ (ulong2num reply.2) query),
            { ids with lastQueryId := ulong2num reply.2 }) := by
  cases command with
  | error abort => exact .inl ⟨rfl, rfl, rfl⟩
  | ok command =>
      rw [backgroundExecuteUdfOnQuery]
      split
      case isTrue ok => exact .inr ⟨decide_eq_true ok, command.query, rfl⟩
      case isFalse failed => exact .inl ⟨decide_eq_false failed, rfl, rfl⟩

theorem backgroundExecuteUdfOnScan_cases (command : Except Abort ScanCommand)
    (reply : ℤ × BitVec 64) (info : BitVec 64 → Except ℤ AsScanInfo) (ids : LastIds) :
    accepted command reply.1 = false ∧
        returned (backgroundExecuteUdfOnScan rt command reply info ids).1 = [] ∧
          (backgroundExecuteUdfOnScan rt command reply info ids).2 = ids ∨
      accepted command reply.1 = true ∧
        backgroundExecuteUdfOnScan rt command reply info ids =
          (ScanTask.initialize_ rt (ulong2num reply.2) info,
            { ids with lastScanId := ulong2num reply.2 }) := by
  cases command with
  | error abort => exact .inl ⟨rfl, rfl, rfl⟩
  | ok command =>
      rw [backgroundExecuteUdfOnScan]
      split
      case isTrue ok => exact .inr ⟨decide_eq_true ok, rfl⟩
      case isFalse failed => exact .inl ⟨decide_eq_false failed, rfl, rfl⟩

theorem Inv.beginQuery (inv : Inv system) {id : BitVec 64}
    (fresh : system.server (.query id) = []) (info : AsScanInfo) (query : AsQuery) :
    Inv { system with
      ids := { system.ids with lastQueryId := ulong2num id }
      queryTasks := system.queryTasks ++ [.initialize_ (ulong2num id) query]
      server := Function.update system.server (.query id) [info]
      queries := system.queries ++ [id] } := by
  have served := inv.serve (Server.extends_begin fresh info)
  have new : id ∉ system.queries := fun member => inv.queriesBegun id member fresh
  constructor
  case queryTasks => simp [inv.queryTasks, QueryTask.initialize_]
  case scanTasks => exact served.scanTasks
  case lastQueryId => exact (lastId_concat system.queries id).symm
  case lastScanId => exact served.lastScanId
  case queriesBegun => exact begun_concat .query served.queriesBegun
  case scansBegun => exact served.scansBegun
  case queriesDistinct => simpa using inv.queriesDistinct.concat new
  case scansDistinct => exact served.scansDistinct
  case done =>
    intro task member done
    rcases List.mem_append.mp member with old | same
    · exact served.done task old done
    · rw [List.mem_singleton.mp same] at done
      cases done
  case shown => exact served.shown

theorem Inv.beginScan (inv : Inv system) {id : BitVec 64}
    (fresh : system.server (.scan id) = []) (first : AsScanInfo)
    {info : BitVec 64 → Except ℤ AsScanInfo}
    (tells : Server.Tells (Function.update system.server (.scan id) [first]) info) :
    Inv { system with
      ids := { system.ids with lastScanId := ulong2num id }
      scanTasks := system.scanTasks ++ returned (ScanTask.initialize_ rt (ulong2num id) info)
      server := Function.update system.server (.scan id) [first]
      scans := system.scans ++ [id]
      firstInfo := Function.update system.firstInfo id (info id) } := by
  have served := inv.serve (Server.extends_begin fresh first)
  have new : id ∉ system.scans := fun member => inv.scansBegun id member fresh
  constructor
  case queryTasks => exact served.queryTasks
  case scanTasks =>
    have old : ∀ other ∈ system.scans,
        readable (Function.update system.firstInfo id (info id) other) =
          readable (system.firstInfo other) := by
      intro other begun
      rw [Function.update_of_ne]
      rintro rfl
      exact new begun
    have own :
        readable (Function.update system.firstInfo id (info id) id) = readable (info id) := by
      rw [Function.update_self]
    rw [List.map_append, inv.scanTasks, ids_of_initialize, List.filter_append, List.map_append,
      List.filter_congr old, List.filter_singleton, List.filter_singleton, own]
  case lastQueryId => exact served.lastQueryId
  case lastScanId => exact (lastId_concat system.scans id).symm
  case queriesBegun => exact served.queriesBegun
  case scansBegun => exact begun_concat .scan served.scansBegun
  case queriesDistinct => exact served.queriesDistinct
  case scansDistinct => simpa using inv.scansDistinct.concat new
  case done => exact served.done
  case shown =>
    intro task member
    rcases List.mem_append.mp member with old | made
    · exact served.shown task old
    · rcases scanInfo_eq_ok (mem_returned.mp made) with
        ⟨named, asked, told, converted, answer, shows⟩
      cases (num2ulong_ulong2num rt id).symm.trans converted
      exact ⟨id, told, named, shows, reported_of_tells tells answer⟩

/-- A wait on one task leaves its id as it is, and is done only where the job has ended. -/
theorem Inv.wait (inv : Inv system) {before after : List QueryTask} {task : QueryTask}
    {argv : List RbVal} {reply : Except ℤ Unit}
    (listed : system.queryTasks = before ++ task :: after)
    (honest : ∀ query id intervalMs,
      (task.waitTillCompleted rt env reply argv).sent = some (.queryWait query id intervalMs) →
        reply = .ok () → system.server.Finished (.query id)) :
    Inv { system with queryTasks := before ++
      { task with done := (task.waitTillCompleted rt env reply argv).done } :: after } := by
  have all := inv.done
  have ids := inv.queryTasks
  rw [listed] at all ids
  constructor
  case queryTasks =>
    rw [← ids]
    simp
  case scanTasks => exact inv.scanTasks
  case lastQueryId => exact inv.lastQueryId
  case lastScanId => exact inv.lastScanId
  case queriesBegun => exact inv.queriesBegun
  case scansBegun => exact inv.scansBegun
  case queriesDistinct => exact inv.queriesDistinct
  case scansDistinct => exact inv.scansDistinct
  case done =>
    refine forall_mem_replace all fun done => ?_
    rcases QueryTask.done_cases done with already | ⟨ok, query, id, intervalMs, sent, named⟩
    · exact all task (List.mem_append_right _ List.mem_cons_self) already
    · have own : task.queryId ∈ system.queries.map (ulong2num ·) := by
        rw [← ids]
        simp
      rcases List.mem_map.mp own with ⟨id', _, same⟩
      rw [← same, num2ulong_ulong2num] at named
      cases named
      exact ⟨_, same.symm, honest query _ intervalMs sent ok⟩
  case shown => exact inv.shown

theorem Inv.checkStatus (inv : Inv system) {before after : List ScanTask} {task : ScanTask}
    {info : BitVec 64 → Except ℤ AsScanInfo} (listed : system.scanTasks = before ++ task :: after)
    (tells : system.server.Tells info) :
    Inv { system with scanTasks := before ++ (task.checkStatus rt info).2 :: after } := by
  have all := inv.shown
  have ids := inv.scanTasks
  rw [listed] at all ids
  rcases all task (List.mem_append_right _ List.mem_cons_self) with
    ⟨id, old, named, shows, reported⟩
  have kept : (task.checkStatus rt info).2.scanId = task.scanId ∧ ∃ told,
      Shows (task.checkStatus rt info).2 told ∧ Reported system.server id told := by
    cases asked : ScanTask.scanInfo rt task.scanId info with
    | error failure =>
        have stays : (task.checkStatus rt info).2 = task := by
          simp only [ScanTask.checkStatus, asked]
        rw [stays]
        exact ⟨rfl, old, shows, reported⟩
    | ok shown =>
        have renewed : (task.checkStatus rt info).2 = shown := by
          simp only [ScanTask.checkStatus, asked]
        rw [renewed]
        rcases scanInfo_eq_ok asked with ⟨same, id', told, converted, answer, shows⟩
        rw [named, num2ulong_ulong2num] at converted
        cases converted
        exact ⟨same, told, shows, reported_of_tells tells answer⟩
  constructor
  case queryTasks => exact inv.queryTasks
  case scanTasks => simpa [kept.1] using ids
  case lastQueryId => exact inv.lastQueryId
  case lastScanId => exact inv.lastScanId
  case queriesBegun => exact inv.queriesBegun
  case scansBegun => exact inv.scansBegun
  case queriesDistinct => exact inv.queriesDistinct
  case scansDistinct => exact inv.scansDistinct
  case done => exact inv.done
  case shown =>
    rcases kept with ⟨same, told, shows, reported⟩
    exact forall_mem_replace all ⟨id, told, same.trans named, shows, reported⟩

theorem Inv.step (inv : Inv system) (step : Step rt env varName system next) : Inv next := by
  cases step with
  | server moves => exact inv.serve moves.extends
  | @query _ _ _ _ reply command _ _ _ executed answers =>
      subst executed
      rcases backgroundExecuteUdfOnQuery_cases command reply system.ids with
        ⟨refused, none_, same⟩ | ⟨begun, query, made⟩
      · rw [refused] at answers ⊢
        cases answers
        rw [none_, same]
        simpa using inv
      · rw [begun] at answers ⊢
        rcases answers with ⟨fresh, info, rfl⟩
        rw [made]
        exact inv.beginQuery fresh info query
  | @scan _ _ _ _ _ _ _ reply info command _ _ _ executed answers tells =>
      subst executed
      rcases backgroundExecuteUdfOnScan_cases command reply info system.ids with
        ⟨refused, none_, same⟩ | ⟨begun, made⟩
      · rw [refused] at answers ⊢
        cases answers
        rw [none_, same]
        simpa using inv
      · rw [begun] at answers ⊢
        rcases answers with ⟨fresh, first, rfl⟩
        rw [made]
        exact inv.beginScan fresh first tells
  | wait before after task argv reply listed waits honest =>
      subst waits
      exact inv.wait listed honest
  | checkStatus before after task info listed tells => exact inv.checkStatus listed tells

theorem Inv.reachable
    (reachable : Transition.Reachable System.Initial (Step rt env varName) system) : Inv system :=
  reachable.invariant (fun _ => inv_initial) fun _ _ inv step => inv.step step

theorem Inv.id_of_queryTask (inv : Inv system) {task : QueryTask}
    (member : task ∈ system.queryTasks) : ∃ id ∈ system.queries, task.queryId = ulong2num id := by
  have listed : task.queryId ∈ system.queryTasks.map (·.queryId) := List.mem_map_of_mem member
  rw [inv.queryTasks] at listed
  rcases List.mem_map.mp listed with ⟨id, begun, same⟩
  exact ⟨id, begun, same.symm⟩

theorem Inv.id_of_scanTask (inv : Inv system) {task : ScanTask}
    (member : task ∈ system.scanTasks) : ∃ id ∈ system.scans, task.scanId = ulong2num id := by
  have listed : task.scanId ∈ system.scanTasks.map (·.scanId) := List.mem_map_of_mem member
  rw [inv.scanTasks] at listed
  rcases List.mem_map.mp listed with ⟨id, begun, same⟩
  exact ⟨id, (List.mem_filter.mp begun).1, same.symm⟩

theorem rbFix2int_of_lt {value : ℕ} (small : value < 2 ^ 31) :
    rt.rbFix2int (.integer value) = .ok (value : ℤ) := by
  have long : -2 ^ 63 ≤ (value : ℤ) ∧ (value : ℤ) < 2 ^ 63 := by omega
  have int : -2 ^ 31 ≤ (value : ℤ) ∧ (value : ℤ) < 2 ^ 31 := by omega
  have converted : rt.num2long (.integer value) = .ok (value : ℤ) := by
    rw [Runtime.num2long_integer, if_pos long]
  have kept : fix2int (value : ℤ) = .ok (value : ℤ) := by rw [fix2int, if_pos int]
  exact ExceptLoop.bind_eq_ok.mpr ⟨_, converted, kept⟩

theorem isCompleted_of_shows {task : ScanTask} {info : AsScanInfo} (shows : Shows task info) :
    task.isCompleted rt = .ok (decide (info.status = asScanStatusCompleted)) := by
  rcases shows with ⟨text, status, _⟩
  have known : info.status = asScanStatusUndef ∨ info.status = asScanStatusInprogress ∨
      info.status = asScanStatusAborted ∨ info.status = asScanStatusCompleted := by
    by_contra unknown
    simp only [not_or] at unknown
    rcases unknown with ⟨undef, inprogress, aborted, completed⟩
    rw [status2rubyStr, if_neg undef, if_neg inprogress, if_neg aborted, if_neg completed] at text
    cases text
  rw [ScanTask.isCompleted, status]
  have small : info.status.toNat < 2 ^ 31 := by
    rcases known with same | same | same | same <;> (rw [same]; decide)
  rw [rbFix2int_of_lt small]
  refine congrArg Except.ok (decide_eq_decide.mpr ?_)
  rw [Nat.cast_inj, BitVec.toNat_inj]

end Steps

section Sample

def allUsers : Query where
  namespace_ := .string ⟨ascii "test", .utf8⟩
  set := .string ⟨ascii "users", .utf8⟩
  bins := []
  filter := none
  order := []
  predexp := none

def quiet : System where
  ids := ⟨.nil, .nil⟩
  queryTasks := []
  scanTasks := []
  server := fun _ => []
  queries := []
  scans := []
  firstInfo := fun _ => .error 1

abbrev SampleStep : System → System → Prop :=
  Step .sample .blank fun _ => cstr []

theorem reachable_quiet : Transition.Reachable System.Initial SampleStep quiet :=
  .start ⟨rfl, rfl, rfl, rfl, rfl⟩

theorem queryCommand_allUsers : ∃ command, queryCommand .sample .blank (fun _ => cstr [])
    (some allUsers) (.string ⟨ascii "jobs", .utf8⟩) (.string ⟨ascii "count", .utf8⟩) none =
      .ok command :=
  ⟨_, rfl⟩

/-- A query begins under any id. -/
theorem query_begins (id : BitVec 64) : ∃ system query, SampleStep quiet system ∧
    system = { quiet with
      ids := ⟨ulong2num id, .nil⟩
      queryTasks := [.initialize_ (ulong2num id) query]
      server := Function.update quiet.server (.query id) [⟨asScanStatusInprogress, 0⟩]
      queries := [id] } := by
  rcases queryCommand_allUsers with ⟨command, prepared⟩
  exact ⟨_, _, @Step.query .sample .blank (fun _ => cstr []) quiet _ _ _ _ (0, id) _
    (Function.update quiet.server (.query id) [⟨asScanStatusInprogress, 0⟩]) _ prepared.symm
    rfl ⟨rfl, _, rfl⟩, rfl⟩

theorem command_of_begun (id : BitVec 64) (query : AsQuery) (intervalMs : BitVec 64) :
    (QueryTask.initialize_ (ulong2num id) query).command .sample intervalMs =
      .ok (.queryWait query id intervalMs) := by
  rw [QueryTask.command, QueryTask.initialize_, num2ulong_ulong2num]
  rfl

theorem waited_of_begun (id : BitVec 64) (query : AsQuery) : ∃ intervalMs,
    (QueryTask.initialize_ (ulong2num id) query).waitTillCompleted .sample .blank (.ok ()) [] =
      ⟨.ok true, some (.queryWait query id intervalMs), true⟩ := by
  rcases waitCommand_nil .blank ((QueryTask.initialize_ (ulong2num id) query).command .sample) with
    ⟨intervalMs, made⟩
  rw [command_of_begun] at made
  refine ⟨intervalMs, ?_⟩
  rw [QueryTask.waitTillCompleted, waitTillCompleted, made]
  rfl

/-- The server goes on with the query to its end, and the task is waited for. -/
theorem query_ends (id : BitVec 64) : ∃ system : System,
    Transition.Reachable System.Initial SampleStep system ∧
      ∃ task ∈ system.queryTasks, task.done = true := by
  rcases query_begins id with ⟨_, query, begins, rfl⟩
  have ended := (reachable_quiet.next begins).next (.server (.goesOn (.query id)
    ⟨asScanStatusCompleted, 100⟩ _ [] (Function.update_self ..) (by unfold Final; decide)))
  rcases waited_of_begun id query with ⟨intervalMs, waits⟩
  have waited := ended.next (.wait [] [] _ [] (.ok ()) rfl waits.symm ?_)
  · exact ⟨_, waited, _, .head _, rfl⟩
  · rintro _ _ _ ⟨⟩ _
    exact ⟨_, _, Function.update_self .., .inr rfl⟩

theorem scanCommand_allUsers : ∃ command, scanCommand .sample (.string ⟨ascii "test", .utf8⟩)
    (.string ⟨ascii "users", .utf8⟩) (.string ⟨ascii "jobs", .utf8⟩)
    (.string ⟨ascii "count", .utf8⟩) none [] (.ok ()) = .ok command :=
  ⟨_, rfl⟩

def completedInfo : AsScanInfo := ⟨asScanStatusCompleted, 100⟩

/-- The answer about this scan; of others nothing is known. -/
def completedOf (id other : BitVec 64) : Except ℤ AsScanInfo :=
  if other = id then .ok completedInfo else .error 1

theorem initialize_completed (id : BitVec 64) :
    ScanTask.initialize_ .sample (ulong2num id) (completedOf id) =
      .ok ⟨ulong2num id, rbStrLit "AS_SCAN_STATUS_COMPLETED", .integer 3, .integer 100⟩ := by
  have answer : completedOf id id = .ok completedInfo := if_pos rfl
  simp only [ScanTask.initialize_, ScanTask.scanInfo, num2ulong_ulong2num]
  change ((completedOf id id).mapError Failure.failed >>= _) = _
  rw [answer]
  rfl

theorem tells_completed (id : BitVec 64) :
    Server.Tells (Function.update quiet.server (.scan id) [completedInfo]) (completedOf id) := by
  intro other told answer
  unfold completedOf at answer
  split at answer
  case isTrue same =>
    cases answer
    rw [same, Function.update_self]
    exact .inr rfl
  case isFalse => cases answer

/-- A scan begins under any id, and the server tells of its end at once. -/
theorem scan_ends (id : BitVec 64) : ∃ system : System,
    Transition.Reachable System.Initial SampleStep system ∧
      ∃ task ∈ system.scanTasks, task.statusId = .integer 3 := by
  rcases scanCommand_allUsers with ⟨command, prepared⟩
  refine ⟨_, reachable_quiet.next (@Step.scan .sample .blank (fun _ => cstr []) quiet _ _ _ _ _ _ _
    (0, id) (completedOf id) _ (Function.update quiet.server (.scan id) [completedInfo]) _
    prepared.symm rfl ⟨rfl, _, rfl⟩ (tells_completed id)),
    ⟨ulong2num id, rbStrLit "AS_SCAN_STATUS_COMPLETED", .integer 3, .integer 100⟩, ?_, rfl⟩
  apply List.mem_append_right
  exact mem_returned.mpr (initialize_completed id)

end Sample

section Runs

variable {rt : Runtime} {env : Unspecified} {varName : RbVal → CStr} {system : System}

/-- In every run a task that is done names a job of this client which has ended. -/
theorem done_finished
    (reachable : Transition.Reachable System.Initial (Step rt env varName) system)
    {task : QueryTask} (member : task ∈ system.queryTasks) (done : task.done = true) :
    ∃ id ∈ system.queries, rt.num2ulong task.queryId = .ok id ∧
      system.server.Finished (.query id) := by
  have inv := Inv.reachable reachable
  rcases inv.id_of_queryTask member with ⟨id, begun, named⟩
  rcases inv.done task member done with ⟨id', named', finished⟩
  cases ulong2num_injective (named.symm.trans named')
  exact ⟨id, begun, by rw [named, num2ulong_ulong2num], finished⟩

theorem done_finished_sample : ∃ system : System, ∃ task ∈ system.queryTasks,
    ∃ id ∈ system.queries, Runtime.sample.num2ulong task.queryId = .ok id ∧
      system.server.Finished (.query id) := by
  rcases query_ends (2 ^ 63) with ⟨system, reachable, task, member, done⟩
  exact ⟨system, task, member, done_finished reachable member done⟩

/-- In every run the three attributes of a scan task come from one report on its scan, or the server
no longer knew the scan; and `completed?` tells that the scan has been completed. -/
theorem scanTask_shows_report
    (reachable : Transition.Reachable System.Initial (Step rt env varName) system)
    {task : ScanTask} (member : task ∈ system.scanTasks) :
    ∃ id ∈ system.scans, ∃ info, rt.num2ulong task.scanId = .ok id ∧ Shows task info ∧
      (info.status = asScanStatusUndef ∨ info ∈ system.server (.scan id)) ∧
      task.isCompleted rt = .ok (decide (info.status = asScanStatusCompleted)) ∧
      (info.status = asScanStatusCompleted →
        (system.server (.scan id)).head? = some info) := by
  have inv := Inv.reachable reachable
  rcases inv.id_of_scanTask member with ⟨id, begun, named⟩
  rcases inv.shown task member with ⟨id', info, named', shows, known, last⟩
  cases ulong2num_injective (named.symm.trans named')
  exact ⟨id, begun, info, by rw [named, num2ulong_ulong2num], shows, known,
    isCompleted_of_shows shows, fun completed => last (.inr completed)⟩

theorem scanTask_shows_report_sample : ∃ system : System, ∃ task ∈ system.scanTasks,
    ∃ id ∈ system.scans, task.isCompleted .sample = .ok true ∧
      (system.server (.scan id)).head?.map AsScanInfo.status = some asScanStatusCompleted := by
  rcases scan_ends (2 ^ 63) with ⟨system, reachable, task, member, status⟩
  rcases scanTask_shows_report reachable member with
    ⟨id, begun, info, _, shows, _, completed, last⟩
  have same : info.status = asScanStatusCompleted := by
    have number : (info.status.toNat : ℤ) = (3 : ℕ) :=
      RbVal.integer.inj (shows.2.1.symm.trans status)
    exact BitVec.eq_of_toNat_eq (Nat.cast_inj.mp number)
  rw [decide_eq_true same] at completed
  exact ⟨system, task, member, id, begun, completed, by rw [last same, Option.map_some, same]⟩

/-- In every run each query that was begun has one task, in the order of their beginning; of the
scans exactly those lack one whose first report could not be had or has no known status; and the
client keeps the ids of the last of both. -/
theorem jobs_kept
    (reachable : Transition.Reachable System.Initial (Step rt env varName) system) :
    (system.queries.Nodup ∧ system.queryTasks.map (·.queryId) = system.queries.map ulong2num ∧
      system.ids.lastQueryId = lastId system.queries) ∧
    (system.scans.Nodup ∧
      system.scanTasks.map (·.scanId) =
        (system.scans.filter fun id => readable (system.firstInfo id)).map ulong2num ∧
      system.ids.lastScanId = lastId system.scans) := by
  have inv := Inv.reachable reachable
  exact ⟨⟨inv.queriesDistinct, inv.queryTasks, inv.lastQueryId⟩,
    ⟨inv.scansDistinct, inv.scanTasks, inv.lastScanId⟩⟩

theorem jobs_kept_sample : ∃ system : System, system.queryTasks ≠ [] ∧
    system.queryTasks.map (·.queryId) = system.queries.map ulong2num ∧
    system.ids.lastQueryId = lastId system.queries := by
  rcases query_ends (2 ^ 63) with ⟨system, reachable, task, member, _⟩
  have kept := jobs_kept reachable
  exact ⟨system, List.ne_nil_of_mem member, kept.1.2⟩

end Runs

end AerospikeCRuby.Background
