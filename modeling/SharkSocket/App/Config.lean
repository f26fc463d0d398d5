import SharkSocket.Plugin.Blacklist
import SharkSocket.Plugin.RateLimit

/-!
# `app/config.go`: a configuration and its check

`Config.validate` goes through the fields in the source's order and returns the
first complaint.  `protocolName` is the name a protocol is known under: what is
between the white space, in lower case.

`strings.ToLower` and `time.ParseDuration` are parameters (`StdLib`), so the results
hold for any text the library may make lower case and any duration format.
-/

namespace SharkSocket.App

open Lib Plugin

/-- The two functions of the standard library that are not written out here. -/
structure StdLib where
  toLower : Bytes → Bytes
  parseDuration : Bytes → Except (List Piece) Int

/-! ### `core.ParseLevel` -/

inductive Level
  | debug
  | info
  | warn
  | error
  deriving DecidableEq, Repr

def parseLevel (std : StdLib) (name : Bytes) : Except (List Piece) Level :=
  let level := std.toLower (trimSpace name)
  if level = [] ∨ level = ascii "info" then .ok .info
  else if level = ascii "debug" then .ok .debug
  else if level = ascii "warn" ∨ level = ascii "warning" then .ok .warn
  else if level = ascii "error" then .ok .error
  else .error
    [.text "unknown log level ", .quoted name, .text " (want debug, info, warn or error)"]

/-! ### The configuration -/

structure RateLimitConfig where
  perSecond : Int
  window : Bytes
  deriving DecidableEq, Repr

/-- A nil slice and an empty one are different values for `reflect.DeepEqual`, as are
a nil pointer and one to `true`. -/
structure ProtocolConfig where
  name : Bytes
  enabled : Option Bool
  addr : Bytes
  path : Bytes
  mode : Bytes
  maxMessageBytes : Int
  tlsCertFile : Bytes
  tlsKeyFile : Bytes
  tlsClientCAFile : Bytes
  tlsClientAuth : Bytes
  tlsMinVersion : Bytes
  allowedOrigins : Option (List Bytes)
  deriving DecidableEq, Repr

structure Config where
  shutdownTimeout : Bytes
  healthAddr : Bytes
  metricsAddr : Bytes
  logLevel : Bytes
  blacklist : List Bytes
  rateLimit : Option RateLimitConfig
  protocols : List ProtocolConfig
  deriving DecidableEq, Repr

def ProtocolConfig.isEnabled (p : ProtocolConfig) : Bool := p.enabled = none ∨ p.enabled = some true

/-- An entry with a name and an address and no other setting. -/
def ProtocolConfig.plain (name addr : Bytes) : ProtocolConfig :=
  ⟨name, none, addr, [], [], 0, [], [], [], [], [], none⟩

def defaultConfig : Config where
  shutdownTimeout := ascii "10s"
  healthAddr := ascii "127.0.0.1:18081"
  metricsAddr := ascii "127.0.0.1:18080"
  logLevel := ascii "info"
  blacklist := []
  rateLimit := none
  protocols := [.plain (ascii "tcp") (ascii "127.0.0.1:18000")]

/-! ### The check -/

variable (std : StdLib)

/-- A duration that has to be positive; `field` is how the messages call it. -/
def positiveDuration (field : String) (value : Bytes) : Except (List Piece) Int :=
  match std.parseDuration value with
  | .error e => .error ([.text ("invalid " ++ field ++ " "), .quoted value, .text ": "] ++ e)
  | .ok d => if d ≤ 0 then .error [.text (field ++ " must be positive")] else .ok d

def RateLimitConfig.windowDuration (r : RateLimitConfig) : Except (List Piece) Int :=
  if trimSpace r.window = [] then .ok second
  else positiveDuration std "rate_limit.window" r.window

def Config.shutdownDuration (c : Config) : Except (List Piece) Int :=
  if c.shutdownTimeout = [] then .ok (10 * second)
  else positiveDuration std "shutdown_timeout" c.shutdownTimeout

inductive ClientAuthType
  | noClientCert
  | requestClientCert
  | requireAnyClientCert
  | verifyClientCertIfGiven
  | requireAndVerifyClientCert
  deriving DecidableEq, Repr

def parseTLSClientAuth (value : Bytes) : Except (List Piece) ClientAuthType :=
  let mode := std.toLower (trimSpace value)
  if [[], ascii "none", ascii "no_client_cert"].contains mode then .ok .noClientCert
  else if [ascii "request", ascii "request_client_cert"].contains mode then .ok .requestClientCert
  else if [ascii "require_any", ascii "require_any_client_cert"].contains mode then
    .ok .requireAnyClientCert
  else if [ascii "verify_if_given", ascii "verify_client_cert_if_given"].contains mode then
    .ok .verifyClientCertIfGiven
  else if [ascii "require_and_verify", ascii "require_and_verify_client_cert"].contains mode then
    .ok .requireAndVerifyClientCert
  else .error [.text "invalid tls_client_auth ", .quoted value]

def protocolName (proto : ProtocolConfig) : Bytes := std.toLower (trimSpace proto.name)

def tlsProtocols : List Bytes := [ascii "tcp", ascii "quic", ascii "coap", ascii "udp"]

def supportedProtocols : List Bytes :=
  [ascii "tcp", ascii "udp", ascii "http", ascii "websocket", ascii "coap", ascii "grpc-web",
    ascii "quic"]

/-- A complaint about the protocol `name`. -/
def protocolError (name : Bytes) (text : String) : List Piece :=
  [.text "protocol ", .quoted name, .text text]

/-- The body of the loop of `Validate` for an enabled protocol: the name to remember. -/
def checkProtocol (seen : List Bytes) (proto : ProtocolConfig) : Except (List Piece) Bytes := do
  let name := protocolName std proto
  if name = [] then throw [.text "protocol name is required"]
  if seen.contains name then throw [.text "duplicate protocol ", .quoted name]
  if proto.addr = [] then throw (protocolError name " addr is required")
  if proto.maxMessageBytes < 0 then
    throw (protocolError name " max_message_bytes must not be negative")
  if proto.tlsCertFile = [] ↔ proto.tlsKeyFile ≠ [] then
    throw (protocolError name " tls_cert_file and tls_key_file must be supplied together")
  if proto.tlsCertFile ≠ [] ∧ tlsProtocols.contains name = false then
    throw (protocolError name " does not support tls_cert_file")
  if proto.tlsClientCAFile ≠ [] ∧ tlsProtocols.contains name = false then
    throw (protocolError name " does not support tls_client_ca_file")
  if proto.tlsClientAuth ≠ [] ∧ tlsProtocols.contains name = false then
    throw (protocolError name " does not support tls_client_auth")
  if proto.tlsClientCAFile ≠ [] ∧ proto.tlsCertFile = [] then
    throw (protocolError name " tls_client_ca_file requires tls_cert_file and tls_key_file")
  if proto.tlsClientAuth ≠ [] then
    match parseTLSClientAuth std proto.tlsClientAuth with
    | .error e => throw (protocolError name " " ++ e)
    | .ok _ => pure ()
    if proto.tlsCertFile = [] then
      throw (protocolError name " tls_client_auth requires tls_cert_file and tls_key_file")
  if name = ascii "quic" ∧ (proto.tlsCertFile = [] ∨ proto.tlsKeyFile = []) then
    throw (protocolError name " tls_cert_file and tls_key_file are required")
  if supportedProtocols.contains name = false then
    throw [.text "unsupported protocol ", .quoted proto.name]
  return name

/-- The loop of `Validate`: how many protocols are enabled. -/
def checkProtocols : List ProtocolConfig → List Bytes → Nat → Except (List Piece) Nat
  | [], _, enabled => .ok enabled
  | proto :: rest, seen, enabled =>
    if proto.isEnabled then
      match checkProtocol std seen proto with
      | .error e => .error e
      | .ok name => checkProtocols rest (name :: seen) (enabled + 1)
    else checkProtocols rest seen enabled

/-- The part of `Validate` about `rate_limit`. -/
def checkRateLimit : Option RateLimitConfig → Except (List Piece) Unit
  | none => .ok ()
  | some r =>
    if r.perSecond ≤ 0 then .error [.text "rate_limit.per_second must be positive"]
    else (r.windowDuration std).map fun _ => ()

def Config.validate (c : Config) : Except (List Piece) Unit := do
  let _ ← c.shutdownDuration std
  let _ ← parseLevel std c.logLevel
  validateBlacklist c.blacklist
  checkRateLimit std c.rateLimit
  let enabled ← checkProtocols std c.protocols [] 0
  if enabled = 0 then throw [.text "at least one protocol must be enabled"]

end SharkSocket.App
