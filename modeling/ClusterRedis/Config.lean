import Mathlib.Data.List.TakeWhile
import ClusterRedis.Json

/-!
# The configuration, and what is shown of it

A configuration is a JSON record. It is accepted when it can be read and its
values pass a few checks; of the url only the scheme is checked.

The url may carry a credential before an `@`. Whatever shows the url – a
log line, a panic message, the address a node registers, the `Debug` print –
shows it through `redactRedisUrl`, which looks for the `@` in front of the
first `/`, `?` or `#`. So what is shown is free of a credential exactly when
the credential is free of these three (`redactRedisUrl_eq_iff`).
-/

/-! ## Reading -/

/-- `char::is_whitespace`. -/
def isWhitespace (c : Char) : Bool :=
  decide (0x09 ≤ c.toNat ∧ c.toNat ≤ 0x0D) || decide (0x2000 ≤ c.toNat ∧ c.toNat ≤ 0x200A)
    || [0x20, 0x85, 0xA0, 0x1680, 0x2028, 0x2029, 0x202F, 0x205F, 0x3000].contains c.toNat

/-- `s.trim().is_empty()`. -/
def isBlank (s : String) : Bool := s.toList.all isWhitespace

/-- `str::starts_with`. -/
def startsWith (s start : String) : Bool := start.toList.isPrefixOf s.toList

/-- The TLS settings. -/
structure TlsConfig where
  caCert : Option String
  deriving DecidableEq

/-- **The configuration.** -/
structure RedisBackendConfig where
  url : String
  username : Option String
  password : Option String
  tls : Option TlsConfig
  keyPrefix : String
  leaseTtlMs : ℕ
  peerTtlMs : ℕ
  nodeId : Option String
  leaseRenewBeforeExpiryPercent : ℕ
  peerRefreshIntervalMs : Option ℕ
  subscribePatternBuffer : ℕ
  serviceName : String
  kvSweepIntervalMs : ℕ
  deriving DecidableEq

def defaultKeyPrefix : String := "mcpg:cluster:"
def defaultLeaseTtlMs : ℕ := 30000
def defaultPeerTtlMs : ℕ := 60000
def defaultRenewPct : ℕ := 80
def defaultSubscribePatternBuffer : ℕ := 256
def defaultServiceName : String := "mcpg"
def defaultKvSweepIntervalMs : ℕ := 30000

/-- Why a configuration is refused. -/
inductive ConfigError where
  | invalidJson
  | emptyUrl
  | invalidUrlScheme
  | tlsRequiresTlsScheme
  | emptyKeyPrefix
  | invalidLeaseTtl
  | invalidPeerTtl
  | emptyServiceName
  | invalidBuffer
  deriving DecidableEq

/-- An unsigned integer of so many bits. -/
def readUnsigned (bits : ℕ) : Json → Option ℕ
  | .num n => if n < 2 ^ bits then some n else none
  | _ => none

/-- A value that may be missing or `null`. -/
def readOption {α : Type} (read : Json → Option α) : Option Json → Option (Option α)
  | none | some .null => some none
  | some j => (read j).map some

/-- A value that may be missing. -/
def readOr {α : Type} (read : Json → Option α) (default : α) : Option Json → Option α
  | none => some default
  | some j => read j

/-- **The members of a record**, by their names; of an array, its elements in
the order of the names. An unknown name and one element too many are
refused. -/
def members (names : List String) : Json → Option (String → Option (Option Json))
  | .obj ms => if ms.all (fun m => names.contains m.1) then some (Json.member ms) else none
  | .arr l => if l.length ≤ names.length then some (fun name => some l[names.idxOf name]?)
    else none
  | _ => none

/-- The TLS settings of a JSON value. -/
def TlsConfig.ofJson (j : Json) : Option TlsConfig := do
  let get ← members ["ca_cert"] j
  let caCert ← readOption Json.readStr (← get "ca_cert")
  some ⟨caCert⟩

namespace RedisBackendConfig

/-- The names of the fields, in order. -/
def fieldNames : List String :=
  ["url", "username", "password", "tls", "key_prefix", "lease_ttl_ms", "peer_ttl_ms", "node_id",
    "lease_renew_before_expiry_percent", "peer_refresh_interval_ms", "subscribe_pattern_buffer",
    "service_name", "kv_sweep_interval_ms"]

/-- A configuration of a JSON value. -/
def ofJson (j : Json) : Option RedisBackendConfig := do
  let get ← members fieldNames j
  let url ← (← get "url").bind Json.readStr
  let username ← readOption Json.readStr (← get "username")
  let password ← readOption Json.readStr (← get "password")
  let tls ← readOption TlsConfig.ofJson (← get "tls")
  let keyPrefix ← readOr Json.readStr defaultKeyPrefix (← get "key_prefix")
  let leaseTtlMs ← readOr (readUnsigned 64) defaultLeaseTtlMs (← get "lease_ttl_ms")
  let peerTtlMs ← readOr (readUnsigned 64) defaultPeerTtlMs (← get "peer_ttl_ms")
  let nodeId ← readOption Json.readStr (← get "node_id")
  let leaseRenewBeforeExpiryPercent ← readOr (readUnsigned 32) defaultRenewPct
    (← get "lease_renew_before_expiry_percent")
  let peerRefreshIntervalMs ← readOption (readUnsigned 64) (← get "peer_refresh_interval_ms")
  let subscribePatternBuffer ← readOr (readUnsigned 64) defaultSubscribePatternBuffer
    (← get "subscribe_pattern_buffer")
  let serviceName ← readOr Json.readStr defaultServiceName (← get "service_name")
  let kvSweepIntervalMs ← readOr (readUnsigned 64) defaultKvSweepIntervalMs
    (← get "kv_sweep_interval_ms")
  some { url, username, password, tls, keyPrefix, leaseTtlMs, peerTtlMs, nodeId,
         leaseRenewBeforeExpiryPercent, peerRefreshIntervalMs, subscribePatternBuffer,
         serviceName, kvSweepIntervalMs }

/-- The checks of a configuration. -/
def validate (cfg : RedisBackendConfig) : Except ConfigError Unit :=
  if isBlank cfg.url then .error .emptyUrl
  else if !startsWith cfg.url "redis://" && !startsWith cfg.url "rediss://" then
    .error .invalidUrlScheme
  else if cfg.tls.isSome && !startsWith cfg.url "rediss://" then .error .tlsRequiresTlsScheme
  else if cfg.keyPrefix.isEmpty then .error .emptyKeyPrefix
  else if cfg.leaseTtlMs = 0 then .error .invalidLeaseTtl
  else if cfg.peerTtlMs = 0 then .error .invalidPeerTtl
  else if isBlank cfg.serviceName then .error .emptyServiceName
  else if cfg.subscribePatternBuffer = 0 then .error .invalidBuffer
  else .ok ()

/-- **What is checked.** -/
theorem validate_eq_ok_iff {cfg : RedisBackendConfig} :
    cfg.validate = .ok () ↔ isBlank cfg.url = false
      ∧ (startsWith cfg.url "redis://" = true ∨ startsWith cfg.url "rediss://" = true)
      ∧ (cfg.tls.isSome = true → startsWith cfg.url "rediss://" = true)
      ∧ cfg.keyPrefix ≠ "" ∧ cfg.leaseTtlMs ≠ 0 ∧ cfg.peerTtlMs ≠ 0
      ∧ isBlank cfg.serviceName = false ∧ cfg.subscribePatternBuffer ≠ 0 := by
  unfold validate
  split_ifs with hblank hscheme htls hprefix hlease hpeer hname hbuffer
  · simp [hblank]
  · simp_all
  · simp_all
  · simp [String.isEmpty_iff.mp hprefix]
  · simp [hlease]
  · simp [hpeer]
  · simp [hname]
  · simp [hbuffer]
  · simp only [Bool.and_eq_true, Bool.not_eq_true', not_and, Bool.not_eq_false] at hscheme htls
    refine iff_of_true rfl ⟨Bool.eq_false_iff.mpr hblank, ?_, ?_,
      fun h => hprefix (String.isEmpty_iff.mpr h), hlease, hpeer, Bool.eq_false_iff.mpr hname,
      hbuffer⟩
    · exact (Bool.eq_false_or_eq_true _).imp_right hscheme
    · exact htls

/-- **`RedisBackendConfig::parse`.** -/
def parse (s : String) : Except ConfigError RedisBackendConfig :=
  match (Json.parse s).bind ofJson with
  | none => .error .invalidJson
  | some cfg => cfg.validate.map (fun _ => cfg)

end RedisBackendConfig

/-- A configuration of a url alone. -/
abbrev configOf (url : String) : RedisBackendConfig where
  url := url
  username := none
  password := none
  tls := none
  keyPrefix := defaultKeyPrefix
  leaseTtlMs := defaultLeaseTtlMs
  peerTtlMs := defaultPeerTtlMs
  nodeId := none
  leaseRenewBeforeExpiryPercent := defaultRenewPct
  peerRefreshIntervalMs := none
  subscribePatternBuffer := defaultSubscribePatternBuffer
  serviceName := defaultServiceName
  kvSweepIntervalMs := defaultKvSweepIntervalMs

/-- **The prefixes that are accepted** are those that are not empty. -/
theorem exists_parse_keyPrefix_iff {p : String} :
    (∃ text cfg, RedisBackendConfig.parse text = .ok cfg ∧ cfg.keyPrefix = p) ↔ p ≠ "" := by
  constructor
  · rintro ⟨text, cfg, h, rfl⟩ hp
    unfold RedisBackendConfig.parse at h
    split at h
    · exact nomatch h
    · next cfg' _ =>
      have hvalid : cfg'.validate = .ok () ∧ cfg' = cfg := by
        cases hv : cfg'.validate with
        | error e =>
          rw [hv] at h
          exact nomatch h
        | ok u =>
          rw [hv] at h
          exact ⟨rfl, Except.ok.inj h⟩
      obtain ⟨hv, rfl⟩ := hvalid
      exact (RedisBackendConfig.validate_eq_ok_iff.mp hv).2.2.2.1 hp
  · intro hp
    refine ⟨String.ofList (Json.render (.obj [("url", .str "redis://h"), ("key_prefix", .str p)])),
      { configOf "redis://h" with keyPrefix := p }, ?_, rfl⟩
    have hfits : Json.Fits 127 (.obj [("url", .str "redis://h"), ("key_prefix", .str p)]) := by
      simp [Json.Fits, Json.FitsMembers]
    have hread : RedisBackendConfig.ofJson
        (.obj [("url", .str "redis://h"), ("key_prefix", .str p)])
        = some { configOf "redis://h" with keyPrefix := p } := rfl
    have hvalid : ({ configOf "redis://h" with keyPrefix := p }
        : RedisBackendConfig).validate = .ok () := by
      have hurl : isBlank "redis://h" = false ∧ startsWith "redis://h" "redis://" = true := by
        decide
      have hname : isBlank defaultServiceName = false := by decide
      refine RedisBackendConfig.validate_eq_ok_iff.mpr ⟨hurl.1, Or.inl hurl.2, ?_, hp, ?_, ?_,
        hname, ?_⟩
      · exact fun h => nomatch (h : (none : Option TlsConfig).isSome = true)
      · exact (by decide : defaultLeaseTtlMs ≠ 0)
      · exact (by decide : defaultPeerTtlMs ≠ 0)
      · exact (by decide : defaultSubscribePatternBuffer ≠ 0)
    rw [RedisBackendConfig.parse, Json.parse_render hfits, Option.bind_some, hread]
    dsimp only
    rw [hvalid]
    rfl

/-! ## Redaction -/

/-- `str::find` of a text: where it first begins. -/
def findText (word : List Char) (l : List Char) : Option ℕ :=
  l.tails.findIdx? (fun t => word.isPrefixOf t)

/-- `str::rfind` of a character: where it last stands. -/
def rfindChar (c : Char) (l : List Char) : Option ℕ :=
  (l.reverse.findIdx? (fun d => d == c)).map (fun i => l.length - 1 - i)

/-- A character that ends the authority of a url. -/
def endsAuthority (c : Char) : Bool := c == '/' || c == '?' || c == '#'

/-- `redact_redis_url`, on characters. -/
def redactChars (url : List Char) : List Char :=
  match findText [':', '/', '/'] url with
  | none => url
  | some schemeEnd =>
    let authorityStart := schemeEnd + 3
    let authority := (url.drop authorityStart).takeWhile (fun c => !endsAuthority c)
    match rfindChar '@' authority with
    | some relAt => url.take authorityStart ++ url.drop (authorityStart + relAt + 1)
    | none => url

/-- **`redact_redis_url`.** -/
def redactRedisUrl (url : String) : String := String.ofList (redactChars url.toList)

/-- A character at its last place. -/
theorem rfindChar_append {c : Char} (l : List Char) {r : List Char} (h : c ∉ r) :
    rfindChar c (l ++ c :: r) = some l.length := by
  have hr : r.reverse.findIdx? (fun d => d == c) = none := by
    rw [List.findIdx?_eq_none_iff]
    intro d hd
    rw [beq_eq_false_iff_ne]
    rintro rfl
    exact h (List.mem_reverse.mp hd)
  rw [rfindChar, List.reverse_append, List.reverse_cons, List.append_assoc, List.findIdx?_append,
    hr, Option.none_or, List.singleton_append, List.findIdx?_cons, beq_self_eq_true, if_pos rfl]
  simp only [List.length_append, List.length_cons, List.length_reverse, Option.map_some]
  congr 1
  omega

theorem rfindChar_lt {c : Char} {l : List Char} {i : ℕ} (h : rfindChar c l = some i) :
    i < l.length := by
  obtain ⟨j, hj, rfl⟩ := Option.map_eq_some_iff.mp h
  have hlt : j < l.reverse.length := by
    rw [List.findIdx?_eq_some_iff_getElem] at hj
    exact hj.1
  rw [List.length_reverse] at hlt
  omega

/-- The scheme of a url ends at its first colon. -/
theorem findText_scheme {scheme : List Char} (h : ':' ∉ scheme) (r : List Char) :
    findText [':', '/', '/'] (scheme ++ ':' :: '/' :: '/' :: r) = some scheme.length := by
  unfold findText
  induction scheme with
  | nil => rfl
  | cons c scheme ih =>
    have hc : ¬ ':' = c := fun he => h (he ▸ List.mem_cons_self)
    have hno : ([':', '/', '/'].isPrefixOf (c :: scheme ++ ':' :: '/' :: '/' :: r)) = false := by
      rw [List.cons_append, List.isPrefixOf_cons_cons, beq_eq_false_iff_ne.mpr hc, Bool.false_and]
    show ((c :: scheme ++ ':' :: '/' :: '/' :: r) :: _).findIdx? _ = _
    rw [List.findIdx?_cons, hno, if_neg Bool.false_ne_true]
    exact congrArg (Option.map (· + 1)) (ih (fun hm => h (List.mem_cons_of_mem c hm)))

/-- A url of a scheme, a credential and the rest. -/
def urlChars (scheme userinfo rest : List Char) : List Char :=
  scheme ++ ':' :: '/' :: '/' :: (userinfo ++ '@' :: rest)

/-- **A credential is taken out of a url exactly when nothing in it ends
the authority.** -/
theorem redactChars_eq_iff {scheme userinfo rest : List Char} (hs : ':' ∉ scheme)
    (hr : '@' ∉ rest) :
    redactChars (urlChars scheme userinfo rest) = scheme ++ ':' :: '/' :: '/' :: rest
      ↔ ∀ c ∈ userinfo, endsAuthority c = false := by
  have hfront : (scheme ++ [':', '/', '/']).length = scheme.length + 3 := List.length_append
  have hsplit : ∀ t, scheme ++ ':' :: '/' :: '/' :: t = (scheme ++ [':', '/', '/']) ++ t :=
    fun t => (List.append_assoc scheme [':', '/', '/'] t).symm
  have hdrop : ∀ n, (urlChars scheme userinfo rest).drop (scheme.length + 3 + n)
      = (userinfo ++ '@' :: rest).drop n := by
    intro n
    rw [urlChars, hsplit, ← hfront, List.drop_length_add_append]
  have htake : (urlChars scheme userinfo rest).take (scheme.length + 3)
      = scheme ++ [':', '/', '/'] := by
    rw [urlChars, hsplit, ← hfront, List.take_left]
  unfold redactChars
  rw [urlChars, findText_scheme hs, ← urlChars]
  dsimp only
  rw [← Nat.add_zero (scheme.length + 3), hdrop 0, List.drop_zero, Nat.add_zero]
  by_cases hplain : ∀ c ∈ userinfo, endsAuthority c = false
  · refine iff_of_true ?_ hplain
    have hauthority : (userinfo ++ '@' :: rest).takeWhile (fun c => !endsAuthority c)
        = userinfo ++ '@' :: rest.takeWhile (fun c => !endsAuthority c) := by
      rw [List.takeWhile_append_of_pos (fun c hc => by rw [hplain c hc]; rfl),
        List.takeWhile_cons_of_pos (by decide)]
    have hat : '@' ∉ rest.takeWhile (fun c => !endsAuthority c) :=
      fun h => hr ((List.takeWhile_sublist _).subset h)
    rw [hauthority, rfindChar_append userinfo hat]
    dsimp only
    rw [htake, Nat.add_assoc, hdrop, List.drop_length_add_append, hsplit rest]
    rfl
  · refine iff_of_false (fun h => ?_) hplain
    -- the authority ends within the credential, so the `@` behind it stays
    have hauthority : (userinfo ++ '@' :: rest).takeWhile (fun c => !endsAuthority c)
        = userinfo.takeWhile (fun c => !endsAuthority c) := by
      rw [List.takeWhile_append, if_neg]
      intro hlen
      refine hplain (fun c hc => ?_)
      have hall := (List.takeWhile_sublist _).eq_of_length hlen
      simpa using List.takeWhile_eq_self_iff.mp hall c hc
    have hlen := congrArg List.length h
    rw [hauthority] at hlen
    cases hat : rfindChar '@' (userinfo.takeWhile (fun c => !endsAuthority c)) with
    | none =>
      rw [hat] at hlen
      simp only [urlChars, List.length_append, List.length_cons] at hlen
      omega
    | some k =>
      rw [hat] at hlen
      have hk := lt_of_lt_of_le (rfindChar_lt hat) (List.takeWhile_sublist _).length_le
      simp only [htake, Nat.add_assoc _ k 1, hdrop, List.length_append, List.length_cons,
        List.length_drop, List.length_nil] at hlen
      omega

/-! ## What is shown -/

section Shown

-- `<str as Debug>::fmt`
variable (debugStr : String → String)

/-- The `Debug` print of an option. -/
def debugOption {α : Type} (print : α → String) : Option α → String
  | none => "None"
  | some a => "Some(" ++ print a ++ ")"

/-- The `Debug` print of a record. -/
def debugStruct (name : String) (fields : List (String × String)) : String :=
  name ++ " \x7b " ++ ", ".intercalate (fields.map (fun f => f.1 ++ ": " ++ f.2)) ++ " \x7d"

def TlsConfig.debug (tls : TlsConfig) : String :=
  debugStruct "TlsConfig" [("ca_cert", debugOption debugStr tls.caCert)]

namespace RedisBackendConfig

/-- **The `Debug` print of a configuration.** -/
def debug (cfg : RedisBackendConfig) : String :=
  debugStruct "RedisBackendConfig"
    [("url", debugStr (redactRedisUrl cfg.url)),
     ("username", debugOption debugStr cfg.username),
     ("password", debugOption debugStr (cfg.password.map (fun _ => "***"))),
     ("tls", debugOption (TlsConfig.debug debugStr) cfg.tls),
     ("key_prefix", debugStr cfg.keyPrefix),
     ("lease_ttl_ms", toString cfg.leaseTtlMs),
     ("peer_ttl_ms", toString cfg.peerTtlMs),
     ("node_id", debugOption debugStr cfg.nodeId),
     ("lease_renew_before_expiry_percent", toString cfg.leaseRenewBeforeExpiryPercent),
     ("peer_refresh_interval_ms", debugOption toString cfg.peerRefreshIntervalMs),
     ("subscribe_pattern_buffer", toString cfg.subscribePatternBuffer),
     ("service_name", debugStr cfg.serviceName),
     ("kv_sweep_interval_ms", toString cfg.kvSweepIntervalMs)]

/-- The url of the `configured` log line. -/
def urlForLog (cfg : RedisBackendConfig) : String := redactRedisUrl cfg.url

/-- The address a node registers and reports. -/
def address (cfg : RedisBackendConfig) : String := redactRedisUrl cfg.url

/-- The panic at a url that the client library does not take, and why. -/
def invalidUrlPanic (cfg : RedisBackendConfig) (err : String) : String :=
  "redis cluster: invalid url `" ++ redactRedisUrl cfg.url ++ "`: " ++ err

/-- The panic at a client that cannot be opened, and why. -/
def openFailedPanic (cfg : RedisBackendConfig) (err : String) : String :=
  "redis cluster: failed to open client `" ++ redactRedisUrl cfg.url ++ "`: " ++ err

/-- **What is shown of a configuration**, with the library's reason `err`
in the panics. -/
def shown (err : String) (cfg : RedisBackendConfig) : List String :=
  [cfg.debug debugStr, cfg.urlForLog, cfg.address, cfg.invalidUrlPanic err,
    cfg.openFailedPanic err]

end RedisBackendConfig

end Shown

/-- A url with a credential. -/
def urlOf (scheme userinfo rest : String) : String := scheme ++ "://" ++ userinfo ++ "@" ++ rest

/-- A configuration whose url carries a credential, and whose password, if
it has one, is another. -/
def RedisBackendConfig.withCredential (cfg : RedisBackendConfig)
    (scheme userinfo rest password : String) : RedisBackendConfig :=
  { cfg with
    url := urlOf scheme userinfo rest
    password := cfg.password.map (fun _ => password) }

/-- Nothing in the credential ends the authority of a url. -/
def PlainUserinfo (userinfo : String) : Prop := ∀ c ∈ userinfo.toList, endsAuthority c = false

instance (userinfo : String) : Decidable (PlainUserinfo userinfo) := List.decidableBAll _ _

theorem redactRedisUrl_eq_iff {scheme userinfo rest : String} (hs : ':' ∉ scheme.toList)
    (hr : '@' ∉ rest.toList) :
    redactRedisUrl (urlOf scheme userinfo rest) = scheme ++ "://" ++ rest
      ↔ PlainUserinfo userinfo := by
  have hurl : (urlOf scheme userinfo rest).toList
      = urlChars scheme.toList userinfo.toList rest.toList := by
    simp [urlOf, urlChars]
  have hred : (scheme ++ "://" ++ rest).toList
      = scheme.toList ++ ':' :: '/' :: '/' :: rest.toList := by
    simp
  rw [← String.toList_inj, redactRedisUrl, String.toList_ofList, hurl, hred]
  exact redactChars_eq_iff hs hr

/-- What is shown of two configurations that differ only in what is not
shown. -/
theorem shown_congr {cfg : RedisBackendConfig} {scheme userinfo userinfo' rest : String}
    (h : redactRedisUrl (urlOf scheme userinfo rest) = redactRedisUrl (urlOf scheme userinfo' rest))
    (debugStr : String → String) (err password password' : String) :
    (cfg.withCredential scheme userinfo rest password).shown debugStr err
      = (cfg.withCredential scheme userinfo' rest password').shown debugStr err := by
  have hpass : ∀ p : String, (cfg.password.map (fun _ => p)).map (fun _ => "***")
      = cfg.password.map (fun _ => "***") := by
    intro p
    cases cfg.password with
    | none => rfl
    | some _ => rfl
  have hdebug : (cfg.withCredential scheme userinfo rest password).debug debugStr
      = (cfg.withCredential scheme userinfo' rest password').debug debugStr := by
    unfold RedisBackendConfig.debug RedisBackendConfig.withCredential
    dsimp only
    rw [h, hpass password, hpass password']
  unfold RedisBackendConfig.shown
  rw [hdebug]
  unfold RedisBackendConfig.urlForLog RedisBackendConfig.address
    RedisBackendConfig.invalidUrlPanic RedisBackendConfig.openFailedPanic
    RedisBackendConfig.withCredential
  dsimp only
  rw [h]

/-- **What is shown of a configuration is free of the credential** exactly
when nothing in the credential ends the authority of a url. For every
scheme, rest without an `@`, two credentials and two passwords: the redacted
urls are the url without a credential, and all that is shown is the same for
the two, if and only if neither credential has a `/`, `?` or `#`. -/
theorem redaction_hides_iff (cfg : RedisBackendConfig) {scheme rest : String}
    (hs : ':' ∉ scheme.toList) (hr : '@' ∉ rest.toList)
    (userinfo userinfo' password password' : String) :
    (redactRedisUrl (cfg.withCredential scheme userinfo rest password).url
          = scheme ++ "://" ++ rest
        ∧ redactRedisUrl (cfg.withCredential scheme userinfo' rest password').url
          = scheme ++ "://" ++ rest
        ∧ ∀ debugStr err, (cfg.withCredential scheme userinfo rest password).shown debugStr err
          = (cfg.withCredential scheme userinfo' rest password').shown debugStr err)
      ↔ PlainUserinfo userinfo ∧ PlainUserinfo userinfo' := by
  have hiff := fun u => @redactRedisUrl_eq_iff scheme u rest hs hr
  constructor
  · rintro ⟨h, h', -⟩
    exact ⟨(hiff userinfo).mp h, (hiff userinfo').mp h'⟩
  · rintro ⟨h, h'⟩
    have hred := (hiff userinfo).mpr h
    have hred' := (hiff userinfo').mpr h'
    exact ⟨hred, hred', fun debugStr err =>
      shown_congr (hred.trans hred'.symm) debugStr err password password'⟩

/-- Two passwords without any of the three. -/
theorem redaction_hides_password :
    ((configOf "").withCredential "redis" "u:p@ss" "h" "").shown id "refused"
      = ((configOf "").withCredential "redis" "u:other" "h" "").shown id "refused" :=
  ((redaction_hides_iff (configOf "") (by decide) (by decide) "u:p@ss" "u:other" "" "").mpr
    ⟨by decide, by decide⟩).2.2 id "refused"

/-- **A password with a `/`**: two configurations that are accepted show it,
in the redacted url and in all that is shown. -/
theorem redaction_shows_password :
    RedisBackendConfig.parse "\x7b\"url\":\"redis://:p/s@h\"\x7d"
        = .ok (configOf (urlOf "redis" ":p/s" "h"))
      ∧ RedisBackendConfig.parse "\x7b\"url\":\"redis://:q/s@h\"\x7d"
        = .ok (configOf (urlOf "redis" ":q/s" "h"))
      ∧ redactRedisUrl (urlOf "redis" ":p/s" "h") = "redis://:p/s@h"
      ∧ (configOf (urlOf "redis" ":p/s" "h")).shown id "invalid port number"
        ≠ (configOf (urlOf "redis" ":q/s" "h")).shown id "invalid port number" := by
  refine ⟨by decide +kernel, by decide +kernel, by decide +kernel, ?_⟩
  decide +kernel
