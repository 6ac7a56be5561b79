import BinaryLog.Binary64.Shortest

namespace BinaryLog

/-!
# How a log is replayed

A replay may stop after a number of messages, and it turns cycles into time at a rate that is either
given or taken from the checkpoints it meets. The main definitions are

* `TimeConversion` and `ReplayConfig`;
* `ReplayConfig.check`, which refuses a limit of no messages and a rate that no time can be computed
  with.
-/

/-- Where the cycles per second come from. -/
inductive TimeConversion where
  /-- The rate is given, and checkpoints do not change it. -/
  | fixed (rate : Binary64)
  /-- The rate is that of the last checkpoint that has a usable one, and `fallback` before the
      first. -/
  | checkpoints (fallback : Binary64)
deriving DecidableEq

namespace TimeConversion

/-- The rate before the first checkpoint. -/
def initialRate : TimeConversion → Binary64
  | .fixed rate => rate
  | .checkpoints fallback => fallback

/-- Do checkpoints change the rate? -/
def followsCheckpoints : TimeConversion → Bool
  | .fixed _ => false
  | .checkpoints _ => true

end TimeConversion

/-- Why a configuration is refused. -/
inductive ConfigError where
  | zeroLimit
  | unusableRate (rate : Binary64)
deriving DecidableEq

/-- The wording of a configuration error. -/
def ConfigError.message : ConfigError → String
  | .zeroLimit => "message limit must be positive (use no limit to replay everything)"
  | .unusableRate rate => s!"cycles per second must be finite and positive, got {rate.toShortest}"

/-- Cycles per second where nothing else is said: one cycle a nanosecond. -/
def defaultRate : Binary64 := Binary64.ofNat 1000000000

/-- The settings of a replay. -/
structure ReplayConfig where
  /-- The number of messages to stop after. -/
  limit : Option Nat := none
  conversion : TimeConversion := .fixed defaultRate
deriving DecidableEq

namespace ReplayConfig

/-- Refuses settings that cannot be replayed with. The limit is looked at first. -/
def check (config : ReplayConfig) : Except ConfigError Unit :=
  if config.limit = some 0 then .error .zeroLimit
  else if config.conversion.initialRate.isPositiveFinite then .ok ()
  else .error (.unusableRate config.conversion.initialRate)

end ReplayConfig

end BinaryLog
