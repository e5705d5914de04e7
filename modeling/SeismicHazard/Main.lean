import SeismicHazard.CommandLine
import SeismicHazard.Npz

/-!
# The program

The command line on the files and the environment of a process. Everything it decides is decided in
`CommandLine.run`.
-/

namespace SeismicHazard

/-- The fault that an error of the system stands for, by its number. -/
def SystemFault.ofNumber (number : UInt32) (details : String) : SystemFault :=
  if number == 2 then notFound
  else if number == 17 then alreadyExists
  else if number == 20 then notDirectory
  else if number == 21 then isDirectory
  else if number == 36 then nameTooLong
  else other s!"{details} (os error {number})"

/-- The fault that an error stands for. -/
def SystemFault.ofError : IO.Error → SystemFault
  | .noFileOrDirectory _ number details => ofNumber number details
  | .alreadyExists _ number details => ofNumber number details
  | .inappropriateType _ number details => ofNumber number details
  | .permissionDenied _ number details => ofNumber number details
  | .invalidArgument _ number details => ofNumber number details
  | .resourceExhausted _ number details => ofNumber number details
  | .resourceBusy number details => ofNumber number details
  | .unsupportedOperation number details => ofNumber number details
  | e => other (toString e)

/-- An action with its fault as an answer. -/
def faultOf (action : IO Unit) : IO (Except SystemFault Unit) :=
  return (← action.toBaseIO).mapError SystemFault.ofError

/-- Whether a path leads to a directory. -/
def leadsToDirectory (path : String) : IO Bool := do
  match ← (IO.FS.Handle.mk (path ++ "/.") .read).toBaseIO with
  | .ok _ => return true
  | .error _ => return false

/-- The files of the system. -/
def systemFiles : FileSystem IO where
  present path := do
    match ← (IO.FS.Handle.mk path .read).toBaseIO with
    | .ok _ => return true
    | .error e =>
        let fault := SystemFault.ofError e
        return fault != .notFound && fault != .notDirectory && fault != .nameTooLong
  input path := do
    match ← (do (← IO.FS.Handle.mk path .read).readBinToEnd : IO ByteArray).toBaseIO with
    | .error e => return if SystemFault.ofError e == .isDirectory then .directory else .absent
    | .ok content => return (Npz.decode? content).elim .notAnArchive .archive
  makeDirectories path := faultOf do
    match ← (IO.FS.createDir path).toBaseIO with
    | .ok () => pure ()
    | .error (.noFileOrDirectory ..) => IO.FS.createDirAll path
    | .error e => if !(← leadsToDirectory path) then throw e
  writeArrays path arrays := faultOf (IO.FS.writeBinFile path (Npz.encode arrays))

/-- The variables of the process that the program reads, as far as they are set. -/
def processEnvironment : IO Environment :=
  CommandLine.environmentNames.filterMapM (fun name => do
    return (← IO.getEnv name).map (fun value => (name, value)))

end SeismicHazard

/-- The program: prints what a run leaves and ends with its exit code. -/
def main (args : List String) : IO UInt32 := do
  let outcome ← SeismicHazard.CommandLine.run SeismicHazard.systemFiles args
    (← SeismicHazard.processEnvironment)
  IO.print outcome.stdout
  IO.eprint outcome.stderr
  return UInt32.ofNat outcome.exitCode
