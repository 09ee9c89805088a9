import PageSpeed.Spec.HostAliases

/-!
# The shared configuration file

The worker publishes its settings in `pagespeed-shared.conf`, and the front end reads them back
(`src/worker/shared_config.cc`). Files can be opened, read and replaced.
-/

namespace PageSpeed

open Wire Inet

/-- What the worker tells the web server's module. -/
structure SharedConfig where
  socketPath : Bytes := lit "/run/pagespeed-optimizer/notify.sock"
  disableHtml : Bool := false
  agentOptimizeEntitled : Bool := false
  agentOptimizeLlmsTxtEnabled : Bool := false
  webBotAuth : Bool := false
  webBotAuthVerifiedBots : Bytes := []
  webBotAuthDirectoryHosts : Bytes := []
  webBotAuthPublicCounter : Bytes := lit "off"
  rslCapEnforcement : Bool := false
  rslCapDirectoryHosts : Bytes := []
  rslCapRequestedLicense : Bytes := []
  rslCapRequestedScope : Bytes := []
  rslCapIssuer : Bytes := []
  volumeSize : UInt64 := 0
  cacheDirGeneration : Int32 := 0
  cacheMode : Bytes := []
  stripQueryExtensions : Bytes := []
  stripQueryParams : Bytes := []
  deriving DecidableEq

/-- The keys of the settings, in the order in which they are written. -/
inductive SharedKey
  | socketPath
  | disableHtml
  | agentOptimizeEntitled
  | agentOptimizeLlmsTxtEnabled
  | webBotAuth
  | webBotAuthVerifiedBots
  | webBotAuthDirectoryHosts
  | webBotAuthPublicCounter
  | rslCapEnforcement
  | rslCapDirectoryHosts
  | rslCapRequestedLicense
  | rslCapRequestedScope
  | rslCapIssuer
  | volumeSize
  | cacheDirGeneration
  | cacheMode
  | stripQueryExtensions
  | stripQueryParams
  deriving DecidableEq

namespace SharedKey

/-- The keys in the order in which they are written. -/
def all : List SharedKey :=
  [socketPath, disableHtml, agentOptimizeEntitled, agentOptimizeLlmsTxtEnabled, webBotAuth,
    webBotAuthVerifiedBots, webBotAuthDirectoryHosts, webBotAuthPublicCounter, rslCapEnforcement,
    rslCapDirectoryHosts, rslCapRequestedLicense, rslCapRequestedScope, rslCapIssuer, volumeSize,
    cacheDirGeneration, cacheMode, stripQueryExtensions, stripQueryParams]

/-- A key as it is written. -/
def text : SharedKey → Bytes
  | socketPath => lit "socket_path"
  | disableHtml => lit "disable_html"
  | agentOptimizeEntitled => lit "agent_optimize_entitled"
  | agentOptimizeLlmsTxtEnabled => lit "agent_optimize_llms_txt_enabled"
  | webBotAuth => lit "web_bot_auth"
  | webBotAuthVerifiedBots => lit "web_bot_auth_verified_bots"
  | webBotAuthDirectoryHosts => lit "web_bot_auth_directory_hosts"
  | webBotAuthPublicCounter => lit "web_bot_auth_public_counter"
  | rslCapEnforcement => lit "rsl_cap_enforcement"
  | rslCapDirectoryHosts => lit "rsl_cap_directory_hosts"
  | rslCapRequestedLicense => lit "rsl_cap_requested_license"
  | rslCapRequestedScope => lit "rsl_cap_requested_scope"
  | rslCapIssuer => lit "rsl_cap_issuer"
  | volumeSize => lit "volume_size"
  | cacheDirGeneration => lit "cache_dir_generation"
  | cacheMode => lit "cache_mode"
  | stripQueryExtensions => lit "strip_query_extensions"
  | stripQueryParams => lit "strip_query_params"

/-- The comparisons with the names of the keys, one after the other. -/
def ofText? (t : Bytes) : Option SharedKey := all.find? (·.text = t)

end SharedKey

/-- The version that is written and read. -/
def kSharedConfigVersion : ℤ := 1

/-- `std::to_string` of an `int`. -/
def intText (v : ℤ) : Bytes := if v < 0 then ch '-' :: decimal v.natAbs else decimal v.natAbs

/-- A flag as it is written. -/
def boolText (b : Bool) : Bytes := if b then lit "true" else lit "false"

namespace SharedConfig

/-! ## The worker -/

/-- What is written for a key; a size, a generation or a mode that is not stated is left out. -/
def written (config : SharedConfig) : SharedKey → Option Bytes
  | .socketPath => some config.socketPath
  | .disableHtml => some (boolText config.disableHtml)
  | .agentOptimizeEntitled => some (boolText config.agentOptimizeEntitled)
  | .agentOptimizeLlmsTxtEnabled => some (boolText config.agentOptimizeLlmsTxtEnabled)
  | .webBotAuth => some (boolText config.webBotAuth)
  | .webBotAuthVerifiedBots => some config.webBotAuthVerifiedBots
  | .webBotAuthDirectoryHosts => some config.webBotAuthDirectoryHosts
  | .webBotAuthPublicCounter => some config.webBotAuthPublicCounter
  | .rslCapEnforcement => some (boolText config.rslCapEnforcement)
  | .rslCapDirectoryHosts => some config.rslCapDirectoryHosts
  | .rslCapRequestedLicense => some config.rslCapRequestedLicense
  | .rslCapRequestedScope => some config.rslCapRequestedScope
  | .rslCapIssuer => some config.rslCapIssuer
  | .volumeSize => if config.volumeSize ≠ 0 then some (decimal config.volumeSize.toNat) else none
  | .cacheDirGeneration =>
    if config.cacheDirGeneration > 0 then some (intText config.cacheDirGeneration.toInt) else none
  | .cacheMode => if config.cacheMode ≠ [] then some config.cacheMode else none
  | .stripQueryExtensions => some config.stripQueryExtensions
  | .stripQueryParams => some config.stripQueryParams

/-- The values that the writer looks for line breaks in. -/
def checked (config : SharedConfig) : List Bytes :=
  [config.socketPath, config.cacheMode, config.stripQueryExtensions, config.stripQueryParams,
    config.webBotAuthVerifiedBots, config.webBotAuthDirectoryHosts, config.webBotAuthPublicCounter,
    config.rslCapDirectoryHosts, config.rslCapRequestedLicense, config.rslCapRequestedScope,
      config.rslCapIssuer]

/-- A line of the file. -/
def line (key value : Bytes) : Bytes := key ++ ch '=' :: value

/-- The lines of the file. -/
def lines (config : SharedConfig) (pid : Int32) : List Bytes :=
  lit "# Written by pagespeed-worker. Do not edit." ::
    line (lit "version") (intText kSharedConfigVersion) :: line (lit "pid") (intText pid.toInt) ::
    SharedKey.all.filterMap fun key => (config.written key).map (line key.text)

/-- The file. -/
def content (config : SharedConfig) (pid : Int32) : Bytes :=
  (config.lines pid).flatMap (· ++ [ch '\n'])

/-- `WriteSharedConfigFile`: the file it leaves when it succeeds. -/
def writeSharedConfigFile (path : Bytes) (config : SharedConfig) (pid getpid : Int32) :
    Option Bytes :=
  if path = [] then none
  else
    let pid := if pid = 0 then getpid else pid
    if config.checked.any hasNewline then none else some (config.content pid)

/-! ## The front end -/

/-- What a `std::from_chars` that succeeds leaves behind. -/
def behindInt (s : Bytes) : Bytes :=
  (if s.head? = some (ch '-') then s.tail else s).dropWhile isDigit

/-- `std::from_chars` for a `uint64_t`. -/
def fromCharsUInt64 (s : Bytes) : Option UInt64 :=
  let digits := s.takeWhile isDigit
  if digits = [] then none
  else if numeral 10 digits < 2 ^ 64 then some (UInt64.ofNat (numeral 10 digits))
  else none

/-- The texts that set a flag. -/
def isTrue (value : Bytes) : Bool := value = lit "true" ∨ value = lit "1"

/-- The branch of a key. -/
def assign (config : SharedConfig) (value : Bytes) : SharedKey → SharedConfig
  | .socketPath =>
    if value ≠ [] ∧ value.length ≤ 107 then { config with socketPath := value } else config
  | .disableHtml => { config with disableHtml := isTrue value }
  | .agentOptimizeEntitled => { config with agentOptimizeEntitled := isTrue value }
  | .agentOptimizeLlmsTxtEnabled => { config with agentOptimizeLlmsTxtEnabled := isTrue value }
  | .webBotAuth => { config with webBotAuth := isTrue value }
  | .webBotAuthVerifiedBots => { config with webBotAuthVerifiedBots := value }
  | .webBotAuthDirectoryHosts => { config with webBotAuthDirectoryHosts := value }
  | .webBotAuthPublicCounter =>
    if value = lit "off" ∨ value = lit "private" ∨ value = lit "public" then
      { config with webBotAuthPublicCounter := value }
    else config
  | .rslCapEnforcement => { config with rslCapEnforcement := isTrue value }
  | .rslCapDirectoryHosts => { config with rslCapDirectoryHosts := value }
  | .rslCapRequestedLicense => { config with rslCapRequestedLicense := value }
  | .rslCapRequestedScope => { config with rslCapRequestedScope := value }
  | .rslCapIssuer => { config with rslCapIssuer := value }
  | .volumeSize =>
    match fromCharsUInt64 value with
    | some v => if value.dropWhile isDigit = [] then { config with volumeSize := v } else config
    | none => config
  | .cacheDirGeneration =>
    match fromCharsInt value with
    | some v =>
      if behindInt value = [] ∧ v > 0 then
        { config with cacheDirGeneration := Int32.ofInt v } else config
    | none => config
  | .cacheMode =>
    if value = lit "safe" ∨ value = lit "aggressive" then
      { config with cacheMode := value } else config
  | .stripQueryExtensions => { config with stripQueryExtensions := value }
  | .stripQueryParams => { config with stripQueryParams := value }

/-- Key and value of a line, if it has them. -/
def splitLine (line : Bytes) : Option (Bytes × Bytes) :=
  let line := stripTrailingCr line
  if line = [] ∨ line.head? = some (ch '#') then none
  else
    match find [ch '='] line with
    | none => none
    | some eq => if 0 ∈ line.drop (eq + 1) then none else some (line.take eq, line.drop (eq + 1))

/-- The loop over the lines. A file of a later version is not read at all. -/
def parseLines : List Bytes → ℤ → SharedConfig → SharedConfig
  | [], _, config => config
  | line :: lines, version, config =>
    match splitLine line with
    | none => parseLines lines version config
    | some (key, value) =>
      if key = lit "version" then
        let version := (fromCharsInt value).getD version
        if version > kSharedConfigVersion then {} else parseLines lines version config
      else
        match SharedKey.ofText? key with
        | some k => parseLines lines version (config.assign value k)
        -- "pid", or a key that is not known
        | none => parseLines lines version config

/-- Behind the last line feed the source has no further line; here there is an empty one, which is
skipped. -/
def parseSharedConfig (content : Bytes) : SharedConfig :=
  parseLines (content.splitOn (ch '\n')) (-1) {}

/-- A larger file is not read. -/
def kMaxSharedConfigSize : ℕ := 64 * 1024

/-- `ReadSharedConfigFile` of a file, if there is one at the path. -/
def readSharedConfigFile (path : Bytes) (file : Option Bytes) : SharedConfig :=
  if path = [] then {}
  else
    match file with
    | none => {}
    | some content =>
      if content.length > kMaxSharedConfigSize then {} else parseSharedConfig content

end SharedConfig

end PageSpeed
