import Kedge.Files.SessionState
import Kedge.Library.ProgramOptions
import Kedge.Sheath.SessionInfo

/-
  The options of the program: `Option::init_from` of
  `include/option.hpp`, and `main` of `src/main.cpp` up to
  the start of its listener.

  The options come from the command line and, under the
  names of `mapper`, from the environment. All but two of
  them are bound to a member. `dht-bootstrap-nodes` is read
  from the stored values; `http-addr` is not read at all,
  and the member `httpAddr` that `main` listens on keeps its
  initial value.

  The branches of the source for platforms other than Apple
  are modelled.

  Key definitions include:
    * `Opt`
    * `configuration`
    * `initFrom`
    * `main`
    * `EveryOptionTakesEffect`

  Main theorems include:
    * `every_option_takes_effect_iff`
-/

------------------------------------------------------------
-- Directories
------------------------------------------------------------

namespace Kedge

/- What creating a directory comes to. -/
inductive CreateOutcome where
  | created
  | exists_
  | failed
  deriving DecidableEq, Repr

/- The settings of `lt::session_params` that are set here. -/
structure SettingsPack extends Sheath.SessionSettings where
  dhtBootstrapNodes : Str

/-
  What the program reads of its surroundings. `pwDir` is the
  home directory of the password file; `bdecode` together
  with `read_session_params`, and `lexical_cast`, may fail.
-/
structure Host where
  environ : List (Str × Str)
  pwDir : Option Str
  createDirectory : Str → CreateOutcome
  files : FileSystem
  defaultParams : SettingsPack
  readSessionParams : Bytes → Option SettingsPack
  lexicalCast : Str → Option UInt16

namespace Host

def certDir : Str := "certificates".toList

def appName : Str := "kedge".toList

/- `getEnvStr`. -/
def getEnvStr
    (host : Host)
    (key dft : Str) : Str :=
  (host.environ.lookup key).getD dft

def getHomeDir (host : Host) : Str :=
  match host.environ.lookup "HOME".toList with
  | some home => home
  | none => host.pwDir.getD []

def getConfDir (host : Host) : Str :=
  let xcfg := pathAppend host.getHomeDir ".config".toList
  pathAppend
    (host.getEnvStr "XDG_CONFIG_HOME".toList xcfg) appName

def getStoreDir (host : Host) : Str :=
  pathAppend host.getHomeDir "Downloads".toList

def getWebUI (host : Host) : Str :=
  pathAppend host.getConfDir "webui".toList

/- `prepare_dirs`: the first failure ends it. -/
def prepareDirs (host : Host) (cd : Str) : Bool :=
  [cd, pathAppend cd resumeDir, pathAppend cd watchDir,
    pathAppend cd certDir].all
    fun p => host.createDirectory p ≠ .failed

/-
  `load_sess_params`: what can be decoded of the session
  file replaces the parameters.
-/
def sessParams
    (host : Host)
    (cd : Str)
    (params : SettingsPack) : SettingsPack :=
  ((loadSessParams host.files cd).bind
    host.readSessionParams).getD params

end Host

end Kedge

------------------------------------------------------------
-- The Options
------------------------------------------------------------

namespace Kedge

open ProgramOptions

/- `Option` of the source. -/
structure Opt where
  peerID : Str
  listens : Str
  movedRoot : Str
  storeRoot : Str
  webuiRoot : Str
  httpAddr : Str
  httpPort : UInt16
  params : SettingsPack

/- The initial values of the members. -/
def Opt.initial (host : Host) : Opt where
  peerID := []
  listens := []
  movedRoot := []
  storeRoot := []
  webuiRoot := []
  httpAddr := "127.0.0.1".toList
  httpPort := 16180
  params := host.defaultParams

/- A value of type `std::string` or `uint_least16_t`. -/
inductive OptionValue where
  | text (s : Str)
  | number (n : UInt16)
  deriving DecidableEq, Repr

abbrev OptionDescription := Description OptionValue Opt

/- `po::value<std::string>`: exactly one token is needed. -/
def textOption
    (name : Str)
    (short : Option Char)
    (bound : Option (Str → Opt → Opt))
    (defaultValue : Option Str) : OptionDescription where
  name := name
  short := short
  validate := fun tokens =>
    match tokens with
    | [token] => some (.text token)
    | _ => none
  defaultValue := defaultValue.map .text
  bound := bound.map fun set v opt =>
    match v with
    | .text s => set s opt
    | .number _ => opt

/- An option without a value. -/
def helpOption : OptionDescription where
  name := "help".toList
  short := some 'h'
  validate := fun tokens =>
    match tokens with
    | [] => some (.text [])
    | [token] => some (.text token)
    | _ => none
  defaultValue := none
  bound := none

def listensOption : OptionDescription :=
  textOption "listens".toList (some 'l')
    (some fun s opt => { opt with listens := s })
    (some "0.0.0.0:16188".toList)

def movedRootOption : OptionDescription :=
  textOption "moved-root".toList none
    (some fun s opt => { opt with movedRoot := s }) none

def storeRootOption (host : Host) : OptionDescription :=
  textOption "store-root".toList (some 'd')
    (some fun s opt => { opt with storeRoot := s })
    (some host.getStoreDir)

def webuiRootOption (host : Host) : OptionDescription :=
  textOption "webui-root".toList none
    (some fun s opt => { opt with webuiRoot := s })
    (some host.getWebUI)

def peerIDOption : OptionDescription :=
  textOption "peer-id".toList none
    (some fun s opt => { opt with peerID := s })
    (some "-LT-".toList)

def bootstrapNodesOption : OptionDescription :=
  textOption "dht-bootstrap-nodes".toList none none
    (some "dht.transmissionbt.com:6881".toList)

/- No variable is bound to this option. -/
def httpAddrOption : OptionDescription :=
  textOption "http-addr".toList none none
    (some "127.0.0.1".toList)

def httpPortOption (host : Host) : OptionDescription where
  name := "http-port".toList
  short := none
  validate := fun tokens =>
    match tokens with
    | [token] => (host.lexicalCast token).map .number
    | _ => none
  defaultValue := some (.number 16180)
  bound := some fun v opt =>
    match v with
    | .number n => { opt with httpPort := n }
    | .text _ => opt

def configuration
    (host : Host) : Configuration OptionValue Opt where
  options :=
    [helpOption, listensOption, movedRootOption,
      storeRootOption host, webuiRootOption host,
      peerIDOption, bootstrapNodesOption, httpAddrOption,
      httpPortOption host]
  distinct :=
    show ["help".toList, "listens".toList,
        "moved-root".toList, "store-root".toList,
        "webui-root".toList, "peer-id".toList,
        "dht-bootstrap-nodes".toList, "http-addr".toList,
        "http-port".toList].Nodup by
      decide

/- The option that a variable of the environment sets. -/
def mapper (envVar : Str) : Str :=
  let envVar := envVar.map Char.toUpper
  if envVar = "LT_PEERID_PREFIX".toList ∨
      envVar = "TR_PEERID_PREFIX".toList then
    "peer-id".toList
  else if envVar = "DHT_BOOTSTRAP_NODES".toList then
    "dht-bootstrap-nodes".toList
  else if envVar = "KEDGE_MOVED_ROOT".toList then
    "moved-root".toList
  else if envVar = "KEDGE_STORE_ROOT".toList then
    "store-root".toList
  else if envVar = "KEDGE_WEBUI_ROOT".toList then
    "webui-root".toList
  else if envVar = "KEDGE_HTTP_ADDR".toList then
    "http-addr".toList
  else if envVar = "KEDGE_HTTP_PORT".toList then
    "http-port".toList
  else []

end Kedge

------------------------------------------------------------
-- Starting
------------------------------------------------------------

namespace Kedge

open ProgramOptions

variable (P : Library OptionValue Opt)

/- `vm.count(name)` is not zero. -/
def hasOption
    (vm : P.VariablesMap)
    (name : String) : Bool :=
  (P.find vm name.toList).isSome

/- `vm[name].as<std::string>()`. -/
def textOf
    (vm : P.VariablesMap)
    (name : String) : Option Str :=
  match P.find vm name.toList with
  | some ⟨.text s, _⟩ => some s
  | _ => none

/- The settings that `init_from` makes of the options. -/
def setParams
    (vm : P.VariablesMap)
    (opt : Opt)
    (params : SettingsPack) : Option SettingsPack := do
  let params :=
    if hasOption P vm "listens" then
      { params with listenInterfaces := opt.listens }
    else params
  let params :=
    if hasOption P vm "peer-id" then
      { params with peerFingerprint := opt.peerID }
    else params
  if hasOption P vm "dht-bootstrap-nodes" then
    let nodes ← textOf P vm "dht-bootstrap-nodes"
    return { params with dhtBootstrapNodes := nodes }
  else
    return params

/-
  `Option::init_from`: its result and the options behind it,
  or none when an exception leaves it.
-/
def initFrom
    (host : Host)
    (argv : List Str)
    (opt : Opt) : Option (Bool × Opt) := do
  let config := configuration host
  let parsed ← P.parseCommandLine config argv
  let vm ← P.store config P.empty parsed
  let vm ← P.store config vm
    (P.parseEnvironment mapper host.environ)
  let opt := P.notify vm opt
  if hasOption P vm "help" then
    return (false, opt)
  let confDir := host.getConfDir
  if !host.prepareDirs confDir then
    return (false, opt)
  let params ←
    setParams P vm opt (host.sessParams confDir opt.params)
  return (true, { opt with params := params })

/- How `main` goes on after reading the options. -/
inductive MainOutcome (Address : Type) where
  | failure
  | listening (address : Address) (port : UInt16) (opt : Opt)

/-
  `main` up to its listener, where `makeAddress` is
  `net::ip::make_address`. An exception of `init_from` ends
  the program.
-/
def main
    {Address : Type}
    (makeAddress : Str → Option Address)
    (host : Host)
    (argv : List Str) : Option (MainOutcome Address) := do
  let (accepted, opt) ←
    initFrom P host argv (Opt.initial host)
  if !accepted then
    return .failure
  match makeAddress opt.httpAddr with
  | none => return .failure
  | some address =>
      return .listening address opt.httpPort opt

/- The endpoint that the program listens on. -/
def MainOutcome.endpoint
    {Address : Type} :
    MainOutcome Address → Option (Address × UInt16)
  | .failure => none
  | .listening address port _ => some (address, port)

end Kedge

------------------------------------------------------------
-- The Configured Values
------------------------------------------------------------

namespace Kedge

open ProgramOptions

/-
  The value configured for an option: that of the command
  line, or else that of the environment, or else the default
  or the initial value of its member.
-/
def configured
    (host : Host)
    (parsed : Parsed)
    (d : OptionDescription)
    (initial : OptionValue) : Option OptionValue :=
  effective d initial
    [parsed, fromEnvironment mapper host.environ]

/- A member has the value configured for its option. -/
def TakesEffect
    (host : Host)
    (parsed : Parsed)
    (opt : Opt)
    (d : OptionDescription)
    (member : Opt → OptionValue) : Prop :=
  configured host parsed d (member (Opt.initial host)) =
    some (member opt)

/-
  Every member has the value configured for its option, and
  the program listens on the configured address and port.
-/
structure EveryOptionTakesEffect
    (P : Library OptionValue Opt)
    {Address : Type}
    (makeAddress : Str → Option Address)
    (host : Host)
    (argv : List Str)
    (parsed : Parsed)
    (opt : Opt) : Prop where
  listens :
    TakesEffect host parsed opt listensOption
      fun opt => .text opt.listens
  movedRoot :
    TakesEffect host parsed opt movedRootOption
      fun opt => .text opt.movedRoot
  storeRoot :
    TakesEffect host parsed opt (storeRootOption host)
      fun opt => .text opt.storeRoot
  webuiRoot :
    TakesEffect host parsed opt (webuiRootOption host)
      fun opt => .text opt.webuiRoot
  peerID :
    TakesEffect host parsed opt peerIDOption
      fun opt => .text opt.peerID
  httpAddr :
    TakesEffect host parsed opt httpAddrOption
      fun opt => .text opt.httpAddr
  httpPort :
    TakesEffect host parsed opt (httpPortOption host)
      fun opt => .number opt.httpPort
  endpoint :
    ∀ addr port,
      configured host parsed httpAddrOption
          (.text (Opt.initial host).httpAddr) =
        some (.text addr) →
      configured host parsed (httpPortOption host)
          (.number (Opt.initial host).httpPort) =
        some (.number port) →
      (main P makeAddress host argv).bind
          MainOutcome.endpoint =
        (makeAddress addr).map (·, port)

/- The members that options are bound to. -/
def bindings
    (host : Host) :
    List (OptionDescription × (Opt → OptionValue)) :=
  [(listensOption, fun opt => .text opt.listens),
    (movedRootOption, fun opt => .text opt.movedRoot),
    (storeRootOption host, fun opt => .text opt.storeRoot),
    (webuiRootOption host, fun opt => .text opt.webuiRoot),
    (peerIDOption, fun opt => .text opt.peerID),
    (httpPortOption host, fun opt => .number opt.httpPort)]

variable {host : Host}

/- The values of an option with a text are texts. -/
theorem exists_text_of_admits
    {name : Str}
    {short : Option Char}
    {bound : Option (Str → Opt → Opt)}
    {defaultValue : Option Str}
    {v : OptionValue}
    (hAdmits :
      Admits (textOption name short bound defaultValue) v) :
    ∃ s, v = .text s := by
  rcases hAdmits with ⟨tokens, hValid⟩ | hDefault
  · dsimp only [textOption] at hValid
    split at hValid
    · next token => exact ⟨token, (Option.some.inj hValid).symm⟩
    · cases hValid
  · rcases Option.map_eq_some_iff.mp hDefault with
      ⟨s, _, hText⟩
    exact ⟨s, hText.symm⟩

/- An option with a text is bound to what its setter sets. -/
theorem writes_textOption
    {set : Str → Opt → Opt}
    {get : Opt → Str}
    (hSet : ∀ s opt, get (set s opt) = s)
    (name : Str)
    (short : Option Char)
    (defaultValue : Option Str) :
    Writes (fun opt => .text (get opt))
      (textOption name short (some set) defaultValue) := by
  refine ⟨_, rfl, ?_⟩
  intro v target hAdmits
  rcases exists_text_of_admits hAdmits with ⟨s, rfl⟩
  exact congrArg OptionValue.text (hSet s target)

theorem writes_httpPortOption :
    Writes (fun opt => .number opt.httpPort)
      (httpPortOption host) := by
  refine ⟨_, rfl, ?_⟩
  intro v target hAdmits
  cases v with
  | number n => rfl
  | text s =>
      exfalso
      rcases hAdmits with ⟨tokens, hValid⟩ | hDefault
      · dsimp only [httpPortOption] at hValid
        split at hValid
        · rcases Option.map_eq_some_iff.mp hValid with
            ⟨n, _, hNumber⟩
          cases hNumber
        · cases hValid
      · cases hDefault

/- Each of the bindings is one. -/
theorem writes_of_mem_bindings
    {binding : OptionDescription × (Opt → OptionValue)}
    (hBinding : binding ∈ bindings host) :
    binding.1 ∈ (configuration host).options ∧
      Writes binding.2 binding.1 := by
  simp only [bindings, List.mem_cons, List.not_mem_nil,
    or_false] at hBinding
  rcases hBinding with
    rfl | rfl | rfl | rfl | rfl | rfl
  · exact ⟨by simp [configuration],
      writes_textOption (fun _ _ => rfl) _ _ _⟩
  · exact ⟨by simp [configuration],
      writes_textOption (fun _ _ => rfl) _ _ _⟩
  · exact ⟨by simp [configuration],
      writes_textOption (fun _ _ => rfl) _ _ _⟩
  · exact ⟨by simp [configuration],
      writes_textOption (fun _ _ => rfl) _ _ _⟩
  · exact ⟨by simp [configuration],
      writes_textOption (fun _ _ => rfl) _ _ _⟩
  · exact ⟨by simp [configuration], writes_httpPortOption⟩

/- The parameters are not one of the members. -/
theorem member_of_mem_bindings
    {binding : OptionDescription × (Opt → OptionValue)}
    (hBinding : binding ∈ bindings host)
    (params : SettingsPack)
    (opt : Opt) :
    binding.2 { opt with params := params } =
      binding.2 opt := by
  simp only [bindings, List.mem_cons, List.not_mem_nil,
    or_false] at hBinding
  rcases hBinding with
    rfl | rfl | rfl | rfl | rfl | rfl <;> rfl

/-
  No option writes the member of another one: it writes
  another member or none, unless it has the same name.
-/
theorem leaves_of_mem_bindings
    {binding : OptionDescription × (Opt → OptionValue)}
    (hBinding : binding ∈ bindings host)
    {e : OptionDescription}
    (hE : e ∈ (configuration host).options)
    (hName : e.name ≠ binding.1.name) :
    Leaves binding.2 e := by
  intro bound hBound v target
  simp only [bindings, List.mem_cons, List.not_mem_nil,
    or_false] at hBinding
  simp only [configuration, List.mem_cons,
    List.not_mem_nil, or_false] at hE
  rcases hE with
      rfl | rfl | rfl | rfl | rfl | rfl | rfl | rfl | rfl <;>
    rcases hBinding with
      rfl | rfl | rfl | rfl | rfl | rfl <;>
    first
    | cases hBound <;> cases v <;> rfl
    | exact absurd rfl hName

/- No option at all writes `httpAddr`. -/
theorem leaves_httpAddr
    {e : OptionDescription}
    (hE : e ∈ (configuration host).options) :
    Leaves (fun opt => .text opt.httpAddr) e := by
  intro bound hBound v target
  simp only [configuration, List.mem_cons,
    List.not_mem_nil, or_false] at hE
  rcases hE with
      rfl | rfl | rfl | rfl | rfl | rfl | rfl | rfl | rfl <;>
    cases hBound <;> cases v <;> rfl

end Kedge

------------------------------------------------------------
-- Which Options Take Effect
------------------------------------------------------------

namespace Kedge

open ProgramOptions

variable {P : Library OptionValue Opt}
variable {host : Host}
variable {argv : List Str}
variable {parsed : Parsed}
variable {opt : Opt}

/-
  When `init_from` returns true it has stored both sources
  and notified. Behind that it only sets the parameters.
-/
theorem initFrom_cases
    (hP : P.Documented)
    (hParsed :
      P.parseCommandLine (configuration host) argv =
        some parsed)
    {initial : Opt}
    (hInit :
      initFrom P host argv initial = some (true, opt)) :
    ∃ vm params,
      Run.exec (P.store (configuration host)) P.empty
          [parsed, fromEnvironment mapper host.environ] =
        some vm ∧
      setParams P vm (P.notify vm initial)
          (host.sessParams host.getConfDir
            (P.notify vm initial).params) =
        some params ∧
      opt = { P.notify vm initial with params := params } := by
  simp only [initFrom, hParsed, hP.environment,
    Option.bind_eq_bind, Option.bind_some,
    Option.bind_eq_some_iff] at hInit
  rcases hInit with ⟨first, hFirst, vm, hStore, hRest⟩
  have hExec :
      Run.exec (P.store (configuration host)) P.empty
          [parsed, fromEnvironment mapper host.environ] =
        some vm := by
    simp [hFirst, hStore]
  split at hRest
  · cases hRest
  · split at hRest
    · cases hRest
    · rcases Option.bind_eq_some_iff.mp hRest with
        ⟨params, hParams, hOpt⟩
      cases hOpt
      exact ⟨vm, params, hExec, hParams, rfl⟩

/- The options that are bound take effect. -/
theorem takesEffect_of_mem_bindings
    (hP : P.Documented)
    (hParsed :
      P.parseCommandLine (configuration host) argv =
        some parsed)
    (hInit :
      initFrom P host argv (Opt.initial host) =
        some (true, opt))
    {binding : OptionDescription × (Opt → OptionValue)}
    (hBinding : binding ∈ bindings host) :
    TakesEffect host parsed opt binding.1 binding.2 := by
  rcases initFrom_cases hP hParsed hInit with
    ⟨vm, params, hExec, _, rfl⟩
  rcases writes_of_mem_bindings hBinding with ⟨hD, hWrites⟩
  have hKept :=
    member_of_mem_bindings hBinding params
      (P.notify vm (Opt.initial host))
  rw [TakesEffect, hKept]
  exact effective_notify hP hD hWrites
    (fun _ hE hName =>
      leaves_of_mem_bindings hBinding hE hName)
    (List.cons_ne_nil _ _) hExec (Opt.initial host)

/- The address is the initial one whatever is configured. -/
theorem httpAddr_of_initFrom
    (hP : P.Documented)
    (hParsed :
      P.parseCommandLine (configuration host) argv =
        some parsed)
    (hInit :
      initFrom P host argv (Opt.initial host) =
        some (true, opt)) :
    opt.httpAddr = "127.0.0.1".toList := by
  rcases initFrom_cases hP hParsed hInit with
    ⟨vm, params, hExec, _, rfl⟩
  have hLeft :=
    notify_of_leaves hP
      (fun _ hE => leaves_httpAddr hE) hExec
      (Opt.initial host)
  exact OptionValue.text.inj hLeft

/- An option with a default is always counted. -/
theorem hasOption_of_exec
    (hP : P.Documented)
    {d : OptionDescription}
    (hD : d ∈ (configuration host).options)
    {value : OptionValue}
    (hDefault : d.defaultValue = some value)
    {name : String}
    (hName : d.name = name.toList)
    {sources : List Parsed}
    (hSources : sources ≠ [])
    {vm : P.VariablesMap}
    (hExec :
      Run.exec (P.store (configuration host)) P.empty
          sources =
        some vm) :
    hasOption P vm name = true := by
  rw [hasOption, ← hName]
  exact Option.isSome_iff_exists.mpr
    (exists_find_of_exec hP hD hDefault hSources hExec)

/-
  The settings of the session are the configured listen
  interfaces, fingerprint and bootstrap nodes.
-/
theorem settings_of_initFrom
    (hP : P.Documented)
    (hParsed :
      P.parseCommandLine (configuration host) argv =
        some parsed)
    (hInit :
      initFrom P host argv (Opt.initial host) =
        some (true, opt)) :
    opt.params.listenInterfaces = opt.listens ∧
      opt.params.peerFingerprint = opt.peerID ∧
      configured host parsed bootstrapNodesOption
          (.text []) =
        some (.text opt.params.dhtBootstrapNodes) := by
  rcases initFrom_cases hP hParsed hInit with
    ⟨vm, params, hExec, hParams, rfl⟩
  have hSources := List.cons_ne_nil parsed
    [fromEnvironment mapper host.environ]
  have hNodesMem :
      bootstrapNodesOption ∈ (configuration host).options := by
    simp [configuration]
  have hListens : hasOption P vm "listens" = true :=
    hasOption_of_exec (d := listensOption) hP
      (by simp [configuration]) rfl rfl hSources hExec
  have hPeer : hasOption P vm "peer-id" = true :=
    hasOption_of_exec (d := peerIDOption) hP
      (by simp [configuration]) rfl rfl hSources hExec
  have hCount : hasOption P vm "dht-bootstrap-nodes" = true :=
    hasOption_of_exec hP hNodesMem rfl rfl hSources hExec
  rcases exists_find_of_exec hP hNodesMem rfl hSources hExec
    with ⟨⟨v, defaulted⟩, hFind⟩
  rcases exists_text_of_admits
      (admits_of_find hP hNodesMem hExec hFind) with
    ⟨nodes, hNodes⟩
  dsimp only at hNodes
  subst hNodes
  have hText :
      textOf P vm "dht-bootstrap-nodes" = some nodes := by
    rw [textOf, show P.find vm "dht-bootstrap-nodes".toList =
      some ⟨.text nodes, defaulted⟩ from hFind]
  have hEffective :=
    effective_of_exec hP hNodesMem (.text [])
      (Or.inl ⟨hP.empty _, hSources⟩) hExec
  rw [held, hFind] at hEffective
  simp only [setParams, hListens, hPeer, hCount, hText,
    if_true, Option.bind_eq_bind, Option.bind_some] at hParams
  cases hParams
  exact ⟨rfl, rfl, hEffective⟩

/-
  Every option takes effect exactly when the address that is
  configured is the initial one. The other options take
  effect in any case.
-/
theorem every_option_takes_effect_iff
    (hP : P.Documented)
    {Address : Type}
    (makeAddress : Str → Option Address)
    (hParsed :
      P.parseCommandLine (configuration host) argv =
        some parsed)
    (hInit :
      initFrom P host argv (Opt.initial host) =
        some (true, opt)) :
    EveryOptionTakesEffect P makeAddress host argv parsed
        opt ↔
      configured host parsed httpAddrOption
          (.text "127.0.0.1".toList) =
        some (.text "127.0.0.1".toList) := by
  have hBound (binding) (hBinding : binding ∈ bindings host) :=
    takesEffect_of_mem_bindings hP hParsed hInit hBinding
  have hAddress := httpAddr_of_initFrom hP hParsed hInit
  constructor
  · intro hEvery
    have hTakes := hEvery.httpAddr
    rw [TakesEffect, hAddress] at hTakes
    exact hTakes
  · intro hConfigured
    simp only [bindings, List.forall_mem_cons] at hBound
    rcases hBound with
      ⟨hListens, hMoved, hStore, hWebui, hPeer, hPort, _⟩
    refine ⟨hListens, hMoved, hStore, hWebui, hPeer, ?_,
      hPort, ?_⟩
    · rw [TakesEffect, hAddress]
      exact hConfigured
    · intro addr port hAddr hPortValue
      have hAddrEq : opt.httpAddr = addr := by
        rw [hAddress]
        exact OptionValue.text.inj
          (Option.some.inj (hConfigured.symm.trans hAddr))
      have hPortEq : opt.httpPort = port :=
        OptionValue.number.inj
          (Option.some.inj (hPort.symm.trans hPortValue))
      rw [← hAddrEq, ← hPortEq]
      cases hMake : makeAddress opt.httpAddr with
      | none => simp [main, hInit, hMake, MainOutcome.endpoint]
      | some address =>
          simp [main, hInit, hMake, MainOutcome.endpoint]

/- A host with empty directories and one port to parse. -/
def plainHost (environ : List (Str × Str)) : Host where
  environ := environ
  pwDir := some "/root".toList
  createDirectory := fun _ => .created
  files := fun _ => none
  defaultParams :=
    { peerFingerprint := "-LT1240-".toList
      listenInterfaces := "0.0.0.0:6881".toList
      dhtBootstrapNodes := [] }
  readSessionParams := fun _ => none
  lexicalCast := fun s =>
    if s = "8080".toList then some 8080 else none

theorem every_option_takes_effect_iff_port :
    ∃ opt,
      initFrom plain
          (plainHost
            [("KEDGE_STORE_ROOT".toList, "/data".toList)])
          ["kedge".toList, "--http-port".toList,
            "8080".toList]
          (Opt.initial (plainHost
            [("KEDGE_STORE_ROOT".toList, "/data".toList)])) =
        some (true, opt) ∧
      opt.httpPort = 8080 ∧
      opt.storeRoot = "/data".toList ∧
      EveryOptionTakesEffect plain some
        (plainHost
          [("KEDGE_STORE_ROOT".toList, "/data".toList)])
        ["kedge".toList, "--http-port".toList,
          "8080".toList]
        [("http-port".toList, ["8080".toList])] opt :=
  ⟨_, rfl, rfl, rfl,
    (every_option_takes_effect_iff plain_documented some
      rfl rfl).mpr rfl⟩

/- The address given on the command line is not used. -/
theorem http_addr_ignored :
    ∃ opt,
      initFrom plain (plainHost [])
          ["kedge".toList, "--http-addr".toList,
            "0.0.0.0".toList]
          (Opt.initial (plainHost [])) =
        some (true, opt) ∧
      configured (plainHost [])
          [("http-addr".toList, ["0.0.0.0".toList])]
          httpAddrOption (.text "127.0.0.1".toList) =
        some (.text "0.0.0.0".toList) ∧
      (main plain some (plainHost [])
          ["kedge".toList, "--http-addr".toList,
            "0.0.0.0".toList]).bind
          MainOutcome.endpoint =
        some ("127.0.0.1".toList, 16180) ∧
      ¬ EveryOptionTakesEffect plain some (plainHost [])
        ["kedge".toList, "--http-addr".toList,
          "0.0.0.0".toList]
        [("http-addr".toList, ["0.0.0.0".toList])] opt := by
  refine ⟨_, rfl, rfl, rfl, ?_⟩
  intro hEvery
  have hTexts :
      "0.0.0.0".toList = "127.0.0.1".toList :=
    OptionValue.text.inj (Option.some.inj hEvery.httpAddr)
  exact absurd hTexts (by decide)

end Kedge
