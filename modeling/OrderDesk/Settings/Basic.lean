import OrderDesk.Settings.Conversion
import OrderDesk.Ingest.Source
import OrderDesk.Http.Address

/-! # Settings of the server

* `Settings`: all settings, with their defaults;
* `Settings.ofValue`: the settings of a raw tree;
* `Settings.validate`: settings that the server cannot run with are refused. -/

namespace OrderDesk

structure ServerSettings where
  host : String := "0.0.0.0"
  portNumber : Nat := 8080
  deriving DecidableEq, Repr

structure CacheSettings where
  backend : CacheBackend := .lru
  capacity : Nat := 1000
  /-- How many of the last orders the cache starts with. -/
  warmupLimit : Nat := 100
  /-- The seconds after which an unused entry of the `moka` backend expires. -/
  timeToIdle : Option Nat := none
  deriving DecidableEq, Repr

/-- Times are in milliseconds. -/
structure IngestSettings where
  maxRetries : Nat := 3
  retryCapacity : Nat := 1024
  backoff : Nat := 5000
  pollInterval : Nat := 500
  errorBackoff : Nat := 1000
  /-- How many dead letters are kept; with `0` they are only logged. -/
  deadLetterCapacity : Nat := 1000
  channelCapacity : Nat := 1024
  deriving DecidableEq, Repr

structure Settings where
  server : ServerSettings := {}
  cache : CacheSettings := {}
  ingest : IngestSettings := {}
  /-- How many seconds the pipeline has to stop. -/
  shutdownTimeout : Nat := 10
  deriving DecidableEq, Repr

def ServerSettings.address? (s : ServerSettings) : Option Address :=
  Address.parse? s!"{s.host}:{s.portNumber}"

def IngestSettings.retryPolicy (s : IngestSettings) : RetryPolicy where
  maxRetries := s.maxRetries
  capacity := s.retryCapacity
  backoff := s.backoff

namespace Settings

/-! ## Reading -/

def serverOf (l : Located) : Except ConversionError ServerSettings := do
  l.checkSection "ServerSettings"
  let d : ServerSettings := {}
  return {
    host := ← readOr d.host Located.text (l.field? 0 "host")
    portNumber := ← readOr d.portNumber (Located.narrow 16) (l.field? 1 "port") }

def cacheOf (l : Located) : Except ConversionError CacheSettings := do
  l.checkSection "CacheSettings"
  let d : CacheSettings := {}
  return {
    backend := ← readOr d.backend Located.backend (l.field? 0 "backend")
    capacity := ← readOr d.capacity Located.unsigned (l.field? 1 "capacity")
    warmupLimit := ← readOr d.warmupLimit Located.unsigned (l.field? 2 "warmup_limit")
    timeToIdle :=
      ← readOr d.timeToIdle (Located.optional Located.unsigned) (l.field? 3 "time_to_idle_secs") }

def ingestOf (l : Located) : Except ConversionError IngestSettings := do
  l.checkSection "IngestSettings"
  let d : IngestSettings := {}
  return {
    maxRetries := ← readOr d.maxRetries (Located.narrow 32) (l.field? 0 "max_retries")
    retryCapacity := ← readOr d.retryCapacity Located.unsigned (l.field? 1 "retry_capacity")
    backoff := ← readOr d.backoff Located.unsigned (l.field? 2 "fixed_backoff_ms")
    pollInterval := ← readOr d.pollInterval Located.unsigned (l.field? 3 "poll_interval_ms")
    errorBackoff := ← readOr d.errorBackoff Located.unsigned (l.field? 4 "error_backoff_ms")
    deadLetterCapacity :=
      ← readOr d.deadLetterCapacity Located.unsigned (l.field? 5 "dead_letter_capacity")
    channelCapacity :=
      ← readOr d.channelCapacity Located.unsigned (l.field? 6 "channel_capacity") }

/-- The settings of a tree. What it does not set has its default, and what is no setting is
ignored. -/
def ofValue (root : Value) : Except ConversionError Settings := do
  let field? (name : String) : Option Located :=
    (root.asTable.2.lookup name).map fun v => ⟨name, v⟩
  let d : Settings := {}
  return {
    server := ← readOr d.server serverOf (field? "server")
    cache := ← readOr d.cache cacheOf (field? "cache")
    ingest := ← readOr d.ingest ingestOf (field? "ingest")
    shutdownTimeout :=
      ← readOr d.shutdownTimeout Located.unsigned (field? "shutdown_timeout_secs") }

/-! ## Rules -/

inductive Rule where
  | cacheCapacity
  | timeToIdle
  | retryCapacity
  | channelCapacity
  | pollInterval
  | host
  deriving DecidableEq, Repr

namespace Rule

def all : List Rule :=
  [.cacheCapacity, .timeToIdle, .retryCapacity, .channelCapacity, .pollInterval, .host]

def holds (s : Settings) : Rule → Bool
  | .cacheCapacity => s.cache.capacity != 0
  | .timeToIdle => s.cache.timeToIdle != some 0
  | .retryCapacity => s.ingest.retryCapacity != 0
  | .channelCapacity => s.ingest.channelCapacity != 0
  | .pollInterval => s.ingest.pollInterval != 0
  | .host => s.server.address?.isSome

def key : Rule → String
  | .cacheCapacity => "cache.capacity"
  | .timeToIdle => "cache.time_to_idle_secs"
  | .retryCapacity => "ingest.retry_capacity"
  | .channelCapacity => "ingest.channel_capacity"
  | .pollInterval => "ingest.poll_interval_ms"
  | .host => "server.host"

/-- What is wrong with a setting that breaks the rule. -/
def reason : Rule → String
  | .cacheCapacity | .retryCapacity | .channelCapacity => "must be at least 1"
  | .timeToIdle | .pollInterval => "must be greater than 0"
  | .host => "invalid socket address syntax"

end Rule

/-- Settings that satisfy every rule pass, others break a first one. -/
def validate (s : Settings) : Except Rule Unit :=
  match Rule.all.find? fun r => !r.holds s with
  | some r => .error r
  | none => .ok ()

end Settings

end OrderDesk
