import SeismicHazard.Archive
import SeismicHazard.Config.Overrides
import SeismicHazard.Error.Message
import SeismicHazard.Files.Path
import SeismicHazard.Files.FileSystem
import SeismicHazard.Numeric.ErrorFunction

/-!
# The command line

`disagg <inputs.npz> [results.npz]` reads a job from a bundle, takes over the settings of the
environment, runs the disaggregation and writes the results as an archive. Without a second
argument the results go to the path that `DISAGG_RESULTS_PATH` names, or else beside the inputs.
-/

namespace SeismicHazard.CommandLine

/-- What a run of the program leaves for its caller. -/
structure Outcome where
  exitCode : Nat
  stdout : String
  stderr : String
deriving DecidableEq, Repr

/-- What failed, and why, from the outside in. -/
structure Report where
  context : String
  causes : List String

namespace Report

/-- A cause under its heading; further lines of it are indented like the first. -/
def indented (lead : String) (cause : String) : String :=
  let blank := String.ofList (List.replicate lead.length ' ')
  lead ++ String.intercalate ("\n" ++ blank) (cause.splitOn "\n")

/-- The text of a report. Causes are numbered when there is more than one. -/
def text (report : Report) : String :=
  let lines := match report.causes with
    | [] => []
    | [cause] => [indented "    " cause]
    | causes => causes.zipIdx.map (fun (cause, n) => indented s!"    {n}: " cause)
  let body := if lines.isEmpty then "" else "\n\nCaused by:\n" ++ String.intercalate "\n" lines
  "Error: " ++ report.context ++ body ++ "\n"

/-- A failure of the computation in a context. The words of the system are given once more on their
own. -/
def ofError (context : String) (e : Error Float) : Report :=
  match e.source, e.fault with
  | none, .system words => ⟨context, [e.message, words]⟩
  | _, _ => ⟨context, [e.message]⟩

end Report

/-- The environment variables that a run depends on. -/
def environmentNames : List String :=
  ["DISAGG_MAG_BIN_WIDTH", "DISAGG_DISTANCE_BIN_WIDTH", "DISAGG_COORDINATE_BIN_WIDTH",
   "DISAGG_TRUNCATION_LEVEL", "DISAGG_NUM_EPSILON_BINS", "DISAGG_MAXIMUM_DISTANCE",
   "DISAGG_SOURCES_PER_TASK", "DISAGG_CURVE_EXTRAPOLATION", "DISAGG_POES", "DISAGG_RESULTS_PATH"]

/-- How to call the program. -/
def usage : Outcome := ⟨1, "", "usage: disagg <inputs.npz> [results.npz]\n"⟩

/-- The path beside the inputs to which results go by default. -/
def defaultResultsPath (input : String) : String :=
  let parent := match Path.parent? input with
    | some "" => "."
    | some parent => parent
    | none => "."
  Path.join parent ((Path.stem? input).getD "results" ++ "_disagg.npz")

/-- The path to which results go. -/
def resultsPath (input : String) (rest : List String) (env : Environment) : String :=
  match rest with
  | path :: _ => path
  | [] => (env.raw? "DISAGG_RESULTS_PATH").getD (defaultResultsPath input)

/-- Reads the job of a bundle and runs it with the settings of the environment. -/
def compute (file : InputFile Float) (input : String) (env : Environment) :
    Except Report (Run Float) := do
  let stored ← (file.load input Config.standard).mapError (Report.ofError s!"load {input}")
  let cfg ← (stored.cfg.withEnvironment env).mapError
    (Report.ofError "apply DISAGG_* overrides")
  ((stored.job cfg).run .parallel).mapError (Report.ofError "disaggregation failed")

variable {m : Type → Type} [Monad m]

/-- Writes the archive of a run, in a directory that is made if need be. -/
def store (files : FileSystem m) (output : String) (run : Run Float) : ExceptT Report m Unit := do
  match Path.parent? output with
  | none | some "" => pure ()
  | some parent =>
      match ← files.makeDirectories parent with
      | .ok () => pure ()
      | .error fault => throw ⟨s!"create dir {parent}", [fault.message]⟩
  match ← files.writeArrays output (Archive.ofRun run) with
  | .ok () => pure ()
  | .error fault =>
      throw (Report.ofError s!"write {output}" (.system fault.message))

/-- Runs a job from its input path to its archive. -/
def execute (files : FileSystem m) (input : String) (rest : List String) (env : Environment) :
    ExceptT Report m Unit := do
  if !(← files.present input) then
    throw ⟨s!"input {Text.quoted input} does not exist", []⟩
  let file ← files.input input
  match compute file input env with
  | .error report => throw report
  | .ok run => store files (resultsPath input rest env) run

/-- Runs the program with its arguments. -/
def run (files : FileSystem m) (args : List String) (env : Environment) : m Outcome :=
  match args with
  | [] => pure usage
  | input :: rest =>
      if input == "-h" || input == "--help" then pure usage
      else do
        match ← (execute files input rest env).run with
        | .ok () => return ⟨0, "", ""⟩
        | .error report => return ⟨1, "", report.text⟩

end SeismicHazard.CommandLine
