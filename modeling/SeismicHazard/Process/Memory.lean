import SeismicHazard.Decimal.Reader
import SeismicHazard.Decimal.Rounded
import SeismicHazard.Process.Environment

/-!
# The memory limit

The environment can set a limit to the memory of the process, in units of 2^20 or of 2^30 bytes. A
process above its limit is warned of, not stopped.
-/

namespace SeismicHazard.Memory

/-- The limit in bytes that a variable gives in units, at most the largest 64-bit count. -/
def inUnits? (env : Environment) (name : String) (unit : Nat) : Option Nat := do
  let count ← Decimal.count? (Text.trim (← env.raw? name))
  return min (count * unit) Scalar.maxCount

/-- The limit in bytes. The variable with the smaller unit counts first. -/
def limit? (env : Environment) : Option Nat :=
  (inUnits? env "DISAGG_MAX_RSS_MB" (1 <<< 20)).orElse
    (fun _ => inUnits? env "DISAGG_MAX_RSS_GB" (1 <<< 30))

/-- Bytes in units of 2^30 of them, with two decimal places. -/
def gibibytes (bytes : Nat) : String :=
  Decimal.fixed 2 (Float.ofNat bytes / Float.ofNat (1 <<< 30))

/-- The limit in words, if a process of a size is above it. -/
def warning? (env : Environment) (resident : Nat) : Option String := do
  let limit ← limit? env
  guard (limit < resident)
  return gibibytes limit

end SeismicHazard.Memory
