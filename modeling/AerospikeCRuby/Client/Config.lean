import AerospikeCRuby.Client.Key
import AerospikeCRuby.Ruby.Hash

/-!
# The configuration of a client

`Client.new` reads its arguments into an `as_config`.  Each option is checked
for its type, and an option which is nil leaves what `as_config_init` has put
there.  The lengths of the texts, which `strcpy` does not look at, are not
followed.
-/

namespace AerospikeCRuby

/-- What is set in an `as_config`; none is the default of `as_config_init`. -/
structure AsConfig where
  hosts : List (CStr × ℤ) := []
  luaUserPath : Option CStr := none
  luaSystemPath : Option CStr := none
  password : Option CStr := none
  user : Option CStr := none
  tenderInterval : Option ℤ := none
  threadPoolSize : Option ℤ := none
  maxConnsPerNode : Option ℤ := none
  connTimeoutMs : Option ℤ := none
  failIfNotConnected : Option Bool := none
deriving DecidableEq

def optionRefused (name expected : String) : Abort :=
  .optionError ("[AerospikeC::Client][initialize] options :" ++ name ++ " must be " ++ expected)

def stringOption (name : String) : RbVal → Except Abort (Option CStr)
  | .nil => .ok none
  | .string text => do
      let value ← stringValueCStr text
      .ok (some value)
  | _ => .error (optionRefused name "string")

def integerOption (name : String) : RbVal → Except Abort (Option ℤ)
  | .nil => .ok none
  | .integer value =>
      if IsFixnum value then do
        let value ← fix2int value
        .ok (some value)
      else .error (optionRefused name "an integer")
  | _ => .error (optionRefused name "an integer")

def booleanOption (name : String) : RbVal → Except Abort (Option Bool)
  | .nil => .ok none
  | .bool value => .ok (some value)
  | _ => .error (optionRefused name "true/false")

variable (rt : Runtime) (misread : RbVal → String → Except Abort RbVal)

/-- `as_config_add_host` with its arguments. -/
def addHost (config : AsConfig) (host port : RbVal) : Except Abort AsConfig := do
  let address ← valueToCstr rt host
  let port ← rt.rbFix2int port
  .ok { config with hosts := config.hosts ++ [(address, port)] }

/-- The loop over `:hosts`. -/
def addHosts (config : AsConfig) : List RbVal → Except Abort AsConfig
  | [] => .ok config
  | hostInfo :: rest => do
      let host ← rbHashAref misread hostInfo "host"
      let port ← rbHashAref misread hostInfo "port"
      let config ← addHost rt config host port
      addHosts config rest

def hostsOption (config : AsConfig) : RbVal → Except Abort AsConfig
  | .nil => .ok config
  | .array hosts => do
      let _ ← rbAryLenInt hosts
      addHosts rt misread config hosts
  | _ => .error (optionRefused "hosts" "an array")

def options2config (config : AsConfig) (options : RbVal) : Except Abort AsConfig := do
  let optionTmp ← rbHashAref misread options "hosts"
  let config ← hostsOption rt misread config optionTmp
  let optionTmp ← rbHashAref misread options "lua_path"
  let luaUserPath ← stringOption "lua_path" optionTmp
  let optionTmp ← rbHashAref misread options "lua_system_path"
  let luaSystemPath ← stringOption "lua_system_path" optionTmp
  let optionTmp ← rbHashAref misread options "password"
  let password ← stringOption "password" optionTmp
  let optionTmp ← rbHashAref misread options "user"
  let user ← stringOption "user" optionTmp
  let optionTmp ← rbHashAref misread options "interval"
  let tenderInterval ← integerOption "interval" optionTmp
  let optionTmp ← rbHashAref misread options "thread_pool_size"
  let threadPoolSize ← integerOption "thread_pool_size" optionTmp
  let optionTmp ← rbHashAref misread options "max_threads"
  let maxConnsPerNode ← integerOption "max_threads" optionTmp
  let optionTmp ← rbHashAref misread options "conn_timeout"
  let connTimeoutMs ← integerOption "conn_timeout" optionTmp
  let optionTmp ← rbHashAref misread options "fail_not_connected"
  let failIfNotConnected ← booleanOption "fail_not_connected" optionTmp
  -- :logger is handed to AerospikeC.logger=, which takes any object
  let _ ← rbHashAref misread options "logger"
  let optionTmp ← rbHashAref misread options "ldt_proxy"
  let _ ← booleanOption "ldt_proxy" optionTmp
  .ok { config with
    luaUserPath, luaSystemPath, password, user, tenderInterval, threadPoolSize,
    maxConnsPerNode, connTimeoutMs, failIfNotConnected }

/-- `rb_scan_args` with the format "21". -/
def scanArgs21 : List RbVal → Except Abort (RbVal × RbVal × RbVal)
  | [first, second] => .ok (first, second, .nil)
  | [first, second, third] => .ok (first, second, third)
  | _ => .error (.argumentError "wrong number of arguments")

/-- The configuration which `client_initialize` hands to `aerospike_init`. -/
def clientConfig (argv : List RbVal) : Except Abort AsConfig := do
  let (host, port, options) ← scanArgs21 argv
  let options := if options.isNil then .hash [] else options
  let config ← addHost rt {} host port
  options2config rt misread config options

/-- The values `client_initialize` accepts for an option which is to be a String. -/
def IsStringOption (value : RbVal) : Prop :=
  value = .nil ∨ ∃ text, value = .string text ∧ text.Readable

/-- The values it accepts for an option which is to be an Integer. -/
def IsIntegerOption (value : RbVal) : Prop :=
  value = .nil ∨ ∃ number, value = .integer number ∧ -2 ^ 31 ≤ number ∧ number < 2 ^ 31

/-- The values it accepts for an option which is to be true or false. -/
def IsBooleanOption (value : RbVal) : Prop :=
  value = .nil ∨ ∃ flag, value = .bool flag

/-- A host and a port it accepts. -/
def IsAddress (host port : RbVal) : Prop :=
  (∃ text, valueToCstr rt host = .ok text) ∧
    ∃ number, rt.num2long port = .ok number ∧ -2 ^ 31 ≤ number ∧ number < 2 ^ 31

/-- The values it accepts for `:hosts`. -/
def IsHostsOption (value : RbVal) : Prop :=
  value = .nil ∨ ∃ hosts, value = .array hosts ∧ hosts.length < 2 ^ 31 ∧
    ∀ hostInfo ∈ hosts, ∃ host port, rbHashAref misread hostInfo "host" = .ok host ∧
      rbHashAref misread hostInfo "port" = .ok port ∧ IsAddress rt host port

/-- The options are readable and each has a value it may have. -/
structure OptionsAccepted (options : RbVal) : Prop where
  hosts : ∃ value, rbHashAref misread options "hosts" = .ok value ∧
    IsHostsOption rt misread value
  strings : ∀ name ∈ ["lua_path", "lua_system_path", "password", "user"],
    ∃ value, rbHashAref misread options name = .ok value ∧ IsStringOption value
  integers : ∀ name ∈ ["interval", "thread_pool_size", "max_threads", "conn_timeout"],
    ∃ value, rbHashAref misread options name = .ok value ∧ IsIntegerOption value
  booleans : ∀ name ∈ ["fail_not_connected", "ldt_proxy"],
    ∃ value, rbHashAref misread options name = .ok value ∧ IsBooleanOption value
  logger : ∃ value, rbHashAref misread options "logger" = .ok value

/-- The arguments of `Client.new` pass every check before `aerospike_init`. -/
def ArgumentsAccepted (argv : List RbVal) : Prop :=
  ∃ host port options, (argv = [host, port] ∧ options = .nil ∨ argv = [host, port, options]) ∧
    IsAddress rt host port ∧
      OptionsAccepted rt misread (if options.isNil then .hash [] else options)

variable {rt misread}

theorem stringOption_isOk {name : String} {value : RbVal} :
    (∃ result, stringOption name value = .ok result) ↔ IsStringOption value := by
  cases value with
  | string text =>
      simp only [stringOption, IsStringOption, ExceptLoop.bind_eq_ok, stringValueCStr_eq_ok_iff,
        Except.ok.injEq, reduceCtorEq, false_or, RbVal.string.injEq, exists_eq_left']
      constructor
      · rintro ⟨_, _, ⟨readable, _⟩, _⟩
        exact readable
      · intro readable
        exact ⟨_, _, ⟨readable, rfl⟩, rfl⟩
  | _ => simp [stringOption, IsStringOption]

theorem fix2int_eq_ok {value number : ℤ} :
    fix2int value = .ok number ↔ value = number ∧ -2 ^ 31 ≤ number ∧ number < 2 ^ 31 := by
  unfold fix2int
  split_ifs with fits
  · rw [Except.ok.injEq]
    constructor
    · rintro rfl
      exact ⟨rfl, fits⟩
    · exact And.left
  · apply iff_of_false
    · intro converted
      cases converted
    · rintro ⟨rfl, held⟩
      exact fits held

theorem integerOption_isOk {name : String} {value : RbVal} :
    (∃ result, integerOption name value = .ok result) ↔ IsIntegerOption value := by
  cases value with
  | integer number =>
      by_cases fits : -2 ^ 31 ≤ number ∧ number < 2 ^ 31
      · have fixnum : IsFixnum number := by
          constructor <;> omega
        refine iff_of_true ⟨some number, ?_⟩ (Or.inr ⟨number, rfl, fits⟩)
        rw [integerOption, if_pos fixnum, fix2int_eq_ok.mpr ⟨rfl, fits⟩]
        rfl
      · apply iff_of_false
        · rintro ⟨result, converted⟩
          rw [integerOption] at converted
          split_ifs at converted
          rcases ExceptLoop.bind_eq_ok.mp converted with ⟨other, held, _⟩
          rcases fix2int_eq_ok.mp held with ⟨rfl, within⟩
          exact fits within
        · rintro (impossible | ⟨_, same, held⟩)
          · cases impossible
          · cases same
            exact fits held
  | _ => simp [integerOption, IsIntegerOption]

theorem booleanOption_isOk {name : String} {value : RbVal} :
    (∃ result, booleanOption name value = .ok result) ↔ IsBooleanOption value := by
  cases value <;> simp [booleanOption, IsBooleanOption]

theorem addHost_isOk {config : AsConfig} {host port : RbVal} :
    (∃ result, addHost rt config host port = .ok result) ↔ IsAddress rt host port := by
  simp only [addHost, Runtime.rbFix2int, ExceptLoop.bind_eq_ok, fix2int_eq_ok, IsAddress]
  constructor
  · rintro ⟨_, text, converted, _, ⟨number, read, rfl, fits⟩, _⟩
    exact ⟨⟨text, converted⟩, number, read, fits⟩
  · rintro ⟨⟨text, converted⟩, number, read, fits⟩
    exact ⟨_, text, converted, number, ⟨number, read, rfl, fits⟩, rfl⟩

theorem addHosts_isOk {config : AsConfig} {hosts : List RbVal} :
    (∃ result, addHosts rt misread config hosts = .ok result) ↔
      ∀ hostInfo ∈ hosts, ∃ host port, rbHashAref misread hostInfo "host" = .ok host ∧
        rbHashAref misread hostInfo "port" = .ok port ∧ IsAddress rt host port := by
  induction hosts generalizing config with
  | nil => simp [addHosts]
  | cons hostInfo rest ih =>
      rw [List.forall_mem_cons]
      simp only [addHosts, ExceptLoop.bind_eq_ok]
      constructor
      · rintro ⟨result, host, hostRead, port, portRead, next, added, others⟩
        exact ⟨⟨host, port, hostRead, portRead, addHost_isOk.mp ⟨next, added⟩⟩,
          ih.mp ⟨result, others⟩⟩
      · rintro ⟨⟨host, port, hostRead, portRead, address⟩, others⟩
        rcases (@addHost_isOk rt config host port).mpr address with ⟨next, added⟩
        rcases (@ih next).mpr others with ⟨result, finished⟩
        exact ⟨result, host, hostRead, port, portRead, next, added, finished⟩

theorem hostsOption_isOk {config : AsConfig} {value : RbVal} :
    (∃ result, hostsOption rt misread config value = .ok result) ↔
      IsHostsOption rt misread value := by
  cases value with
  | array hosts =>
      simp only [hostsOption, ExceptLoop.bind_eq_ok, rbAryLenInt_eq_ok, IsHostsOption,
        reduceCtorEq, false_or, RbVal.array.injEq, exists_eq_left', ← @addHosts_isOk rt misread
          config hosts]
      constructor
      · rintro ⟨result, _, ⟨short, rfl⟩, finished⟩
        exact ⟨short, result, finished⟩
      · rintro ⟨short, result, finished⟩
        exact ⟨result, _, ⟨short, rfl⟩, finished⟩
  | _ => simp [hostsOption, IsHostsOption]

theorem options2config_isOk {config : AsConfig} {options : RbVal} :
    (∃ result, options2config rt misread config options = .ok result) ↔
      OptionsAccepted rt misread options := by
  constructor
  · rintro ⟨result, finished⟩
    simp only [options2config, ExceptLoop.bind_eq_ok] at finished
    rcases finished with ⟨_, hosts, _, hostsOk, _, luaPath, _, luaPathOk, _, systemPath, _,
      systemPathOk, _, password, _, passwordOk, _, user, _, userOk, _, interval, _, intervalOk, _,
      poolSize, _, poolSizeOk, _, threads, _, threadsOk, _, timeout, _, timeoutOk, _, failing, _,
      failingOk, logger, logged, _, proxy, _, proxyOk, _⟩
    refine ⟨⟨_, hosts, hostsOption_isOk.mp ⟨_, hostsOk⟩⟩, ?_, ?_, ?_, logger, logged⟩
    · simp only [List.forall_mem_cons, List.not_mem_nil, false_implies, implies_true, and_true]
      exact ⟨⟨_, luaPath, stringOption_isOk.mp ⟨_, luaPathOk⟩⟩,
        ⟨_, systemPath, stringOption_isOk.mp ⟨_, systemPathOk⟩⟩,
        ⟨_, password, stringOption_isOk.mp ⟨_, passwordOk⟩⟩,
        ⟨_, user, stringOption_isOk.mp ⟨_, userOk⟩⟩⟩
    · simp only [List.forall_mem_cons, List.not_mem_nil, false_implies, implies_true, and_true]
      exact ⟨⟨_, interval, integerOption_isOk.mp ⟨_, intervalOk⟩⟩,
        ⟨_, poolSize, integerOption_isOk.mp ⟨_, poolSizeOk⟩⟩,
        ⟨_, threads, integerOption_isOk.mp ⟨_, threadsOk⟩⟩,
        ⟨_, timeout, integerOption_isOk.mp ⟨_, timeoutOk⟩⟩⟩
    · simp only [List.forall_mem_cons, List.not_mem_nil, false_implies, implies_true, and_true]
      exact ⟨⟨_, failing, booleanOption_isOk.mp ⟨_, failingOk⟩⟩,
        ⟨_, proxy, booleanOption_isOk.mp ⟨_, proxyOk⟩⟩⟩
  · rintro ⟨⟨_, hosts, isHosts⟩, strings, integers, booleans, logger, logged⟩
    simp only [List.forall_mem_cons, List.not_mem_nil, false_implies, implies_true, and_true]
      at strings integers booleans
    rcases strings with ⟨⟨_, luaPath, isPath⟩, ⟨_, systemPath, isSystem⟩, ⟨_, password, isPass⟩,
      ⟨_, user, isUser⟩⟩
    rcases integers with ⟨⟨_, interval, isInterval⟩, ⟨_, poolSize, isPool⟩,
      ⟨_, threads, isThreads⟩, ⟨_, timeout, isTimeout⟩⟩
    rcases booleans with ⟨⟨_, failing, isFailing⟩, ⟨_, proxy, isProxy⟩⟩
    rcases (@hostsOption_isOk rt misread config _).mpr isHosts with ⟨_, hostsOk⟩
    rcases stringOption_isOk.mpr isPath with ⟨_, luaPathOk⟩
    rcases stringOption_isOk.mpr isSystem with ⟨_, systemPathOk⟩
    rcases stringOption_isOk.mpr isPass with ⟨_, passwordOk⟩
    rcases stringOption_isOk.mpr isUser with ⟨_, userOk⟩
    rcases integerOption_isOk.mpr isInterval with ⟨_, intervalOk⟩
    rcases integerOption_isOk.mpr isPool with ⟨_, poolSizeOk⟩
    rcases integerOption_isOk.mpr isThreads with ⟨_, threadsOk⟩
    rcases integerOption_isOk.mpr isTimeout with ⟨_, timeoutOk⟩
    rcases booleanOption_isOk.mpr isFailing with ⟨_, failingOk⟩
    rcases booleanOption_isOk.mpr isProxy with ⟨_, proxyOk⟩
    simp only [options2config, ExceptLoop.bind_eq_ok]
    exact ⟨_, _, hosts, _, hostsOk, _, luaPath, _, luaPathOk, _, systemPath, _, systemPathOk, _,
      password, _, passwordOk, _, user, _, userOk, _, interval, _, intervalOk, _, poolSize, _,
      poolSizeOk, _, threads, _, threadsOk, _, timeout, _, timeoutOk, _, failing, _, failingOk,
      logger, logged, _, proxy, _, proxyOk, rfl⟩

theorem scanArgs21_eq_ok {argv : List RbVal} {first second third : RbVal} :
    scanArgs21 argv = .ok (first, second, third) ↔
      argv = [first, second] ∧ third = .nil ∨ argv = [first, second, third] := by
  rcases argv with _ | ⟨a, _ | ⟨b, _ | ⟨c, _ | ⟨d, rest⟩⟩⟩⟩ <;>
    simp [scanArgs21, and_assoc, @eq_comm _ RbVal.nil]

/-- Exactly the accepted arguments give a configuration. -/
theorem clientConfig_isOk {argv : List RbVal} :
    (∃ config, clientConfig rt misread argv = .ok config) ↔
      ArgumentsAccepted rt misread argv := by
  simp only [clientConfig, ExceptLoop.bind_eq_ok, Prod.exists, scanArgs21_eq_ok]
  constructor
  · rintro ⟨config, host, port, options, given, first, added, finished⟩
    exact ⟨host, port, options, given, addHost_isOk.mp ⟨first, added⟩,
      options2config_isOk.mp ⟨config, finished⟩⟩
  · rintro ⟨host, port, options, given, address, accepted⟩
    rcases (@addHost_isOk rt {} host port).mpr address with ⟨first, added⟩
    rcases (@options2config_isOk rt misread first _).mpr accepted with ⟨config, finished⟩
    exact ⟨config, host, port, options, given, first, added, finished⟩

end AerospikeCRuby
