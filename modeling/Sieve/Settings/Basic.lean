import Sieve.Cache
import Sieve.Decode
import Sieve.Retry

/-!
# Settings

What a service may be told about its work, in sections; every setting has a built-in default.

* `Settings`: all of them, and the sections `RetrySettings`, `CacheSettings` and
  `ObservabilitySettings`;
* `RetrySettings.read`, `CacheSettings.read`: the decoders of a section given in JSON;
* `RetryPolicy.ofSettings`, `Cache.ofSettings`: what the settings mean.
-/

namespace Sieve

/-- How a failed execution is retried: how often at most, and after pauses between two bounds, in
milliseconds. -/
structure RetrySettings where
  limit : Nat := 2
  initial : Nat := 100
  cap : Nat := 5000
  deriving DecidableEq, Repr

/-- Whether results are kept, for how many seconds (without end if `0`), and how many. -/
structure CacheSettings where
  enabled : Bool := true
  seconds : Nat := 300
  capacity : Nat := 1024
  deriving DecidableEq, Repr

/-- How a service makes itself heard. -/
structure ObservabilitySettings where
  serviceName : String := "unknown-service"
  logLevel : String := "info"
  jsonLogs : Bool := false
  metricsEnabled : Bool := true
  deriving DecidableEq, Repr

/-- The settings of a service. -/
structure Settings where
  serviceName : String := ""
  environment : String := ""
  retry : RetrySettings := {}
  cache : CacheSettings := {}
  observability : ObservabilitySettings := {}
  deriving DecidableEq, Repr

/-- Whether a service runs in production. -/
def Settings.isProduction (s : Settings) : Bool := s.environment = "production"

/-- Sets the name that a service goes by in its logs. -/
def ObservabilitySettings.withServiceName (o : ObservabilitySettings) (name : String) :
    ObservabilitySettings := { o with serviceName := name }

/-! ### Meaning -/

/-- The policy of retry settings: pauses that double up to a cap. -/
def RetryPolicy.ofSettings (s : RetrySettings) : RetryPolicy :=
  ⟨s.limit, s.initial, s.cap, doubling⟩

/-- How long results are kept, in seconds; `none` means without end. -/
def CacheSettings.lifetime (s : CacheSettings) : Option Nat :=
  if s.seconds = 0 then none else some s.seconds

/-- The empty cache of cache settings. -/
def Cache.ofSettings {α : Type} (s : CacheSettings) : Cache α :=
  .ofBounds (s.lifetime.map (· * 10 ^ 9)) s.capacity

/-! ### Sections in JSON -/

open Decode

/-- Retry settings of which some members have been read. -/
structure RetryParts where
  limit : Option Nat := none
  initial : Option Nat := none
  cap : Option Nat := none

/-- Decodes retry settings; a member that is missing has its default. -/
def RetrySettings.read : Decoder RetrySettings :=
  readRecord (α := RetryParts)
    [⟨"max_retries", (·.limit.isSome),
       fun _ s a => do return { a with limit := ← readUnsigned (2 ^ 32) s }⟩,
     ⟨"initial_delay_ms", (·.initial.isSome),
       fun _ s a => do return { a with initial := ← readUnsigned (2 ^ 64) s }⟩,
     ⟨"max_delay_ms", (·.cap.isSome),
       fun _ s a => do return { a with cap := ← readUnsigned (2 ^ 64) s }⟩]
    {} fun _ a =>
      let d : RetrySettings := {}
      .ok ⟨a.limit.getD d.limit, a.initial.getD d.initial, a.cap.getD d.cap⟩

/-- Cache settings of which some members have been read. -/
structure CacheParts where
  enabled : Option Bool := none
  seconds : Option Nat := none
  capacity : Option Nat := none

/-- Decodes cache settings; a member that is missing has its default. -/
def CacheSettings.read : Decoder CacheSettings :=
  readRecord (α := CacheParts)
    [⟨"enabled", (·.enabled.isSome), fun _ s a => do return { a with enabled := ← readBool s }⟩,
     ⟨"ttl_secs", (·.seconds.isSome),
       fun _ s a => do return { a with seconds := ← readUnsigned (2 ^ 64) s }⟩,
     ⟨"max_entries", (·.capacity.isSome),
       fun _ s a => do return { a with capacity := ← readUnsigned (2 ^ 64) s }⟩]
    {} fun _ a =>
      let d : CacheSettings := {}
      .ok ⟨a.enabled.getD d.enabled, a.seconds.getD d.seconds, a.capacity.getD d.capacity⟩

end Sieve
