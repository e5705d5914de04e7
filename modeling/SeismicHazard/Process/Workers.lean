import SeismicHazard.Decimal.Reader
import SeismicHazard.Process.Environment

/-!
# The number of workers

The number of workers can be given by several environment variables, of which the first that holds a
positive count decides.
-/

namespace SeismicHazard.Workers

/-- The variables that can give the number of workers, the more specific ones first. -/
def hintNames : List String :=
  ["DISAGG_THREADS", "RAYON_NUM_THREADS", "SLURM_CPUS_PER_TASK", "SLURM_CPUS_ON_NODE", "PBS_NP",
   "OMP_NUM_THREADS"]

/-- The positive count that a variable holds. -/
def positive? (env : Environment) (name : String) : Option Nat := do
  let count ← Decimal.count? (Text.trim (← env.raw? name))
  guard (0 < count)
  return count

/-- The variable that decides, and the number of workers that it gives. -/
def hint? (env : Environment) : Option (String × Nat) :=
  hintNames.findSome? (fun name => (positive? env name).map (fun count => (name, count)))

end SeismicHazard.Workers
