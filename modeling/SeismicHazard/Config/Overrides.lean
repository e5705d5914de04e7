import SeismicHazard.Config
import SeismicHazard.Decimal.Reader
import SeismicHazard.Process.Environment

/-!
# Settings from the environment

Scalar settings and the targets of a job can be set by environment variables. The first variable
that cannot be read is a failure.
-/

namespace SeismicHazard

namespace Config

variable {R : Type} [ReadScalar R]

/-- A target among those that a variable lists. -/
def readTarget (text : String) : Except (Error R) R :=
  match ReadScalar.read? (Text.trim text) with
  | some poe => .ok poe
  | none => .error (.config (.unreadableTarget text))

/-- The targets that a variable lists between commas. -/
def environmentTargets (env : Environment) (previous : List R) : Except (Error R) (List R) :=
  match env.value? "DISAGG_POES" with
  | none => .ok previous
  | some text => (text.splitOn ",").mapM readTarget

/-- The settings after those of the environment have been taken over. -/
def withEnvironment (cfg : Config R) (env : Environment) : Except (Error R) (Config R) := do
  let number := fun name previous => env.setting name (ReadScalar.read? (R := R)) previous
  let magBinWidth ← number "DISAGG_MAG_BIN_WIDTH" cfg.magBinWidth
  let distanceBinWidth ← number "DISAGG_DISTANCE_BIN_WIDTH" cfg.distanceBinWidth
  let coordinateBinWidth ← number "DISAGG_COORDINATE_BIN_WIDTH" cfg.coordinateBinWidth
  let truncationLevel ← number "DISAGG_TRUNCATION_LEVEL" cfg.truncationLevel
  let epsilonBins ← env.setting "DISAGG_NUM_EPSILON_BINS" Decimal.count? cfg.epsilonBins
  let maximumDistance ← number "DISAGG_MAXIMUM_DISTANCE" cfg.maximumDistance
  let sourcesPerTask ← env.setting "DISAGG_SOURCES_PER_TASK" Decimal.count? cfg.sourcesPerTask
  let extrapolation ← env.setting "DISAGG_CURVE_EXTRAPOLATION"
    (fun word => (Extrapolation.ofWord (R := R) word).toOption) cfg.extrapolation
  let targets ← environmentTargets env cfg.targets
  return { cfg with
    magBinWidth, distanceBinWidth, coordinateBinWidth, truncationLevel, epsilonBins,
    maximumDistance, sourcesPerTask, extrapolation, targets }

end Config

end SeismicHazard
