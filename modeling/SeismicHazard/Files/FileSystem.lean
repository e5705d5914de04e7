import SeismicHazard.Bundle.Load

/-!
# File systems

What a program asks of the system that keeps its files, and what it is told when the answer is no.
-/

namespace SeismicHazard

/-- Why the system refuses. -/
inductive SystemFault where
  | notFound
  | alreadyExists
  | notDirectory
  | isDirectory
  | nameTooLong
  | nulByte
  | other (text : String)
deriving DecidableEq, Repr

/-- The words of the system. -/
def SystemFault.message : SystemFault → String
  | notFound => "No such file or directory (os error 2)"
  | alreadyExists => "File exists (os error 17)"
  | notDirectory => "Not a directory (os error 20)"
  | isDirectory => "Is a directory (os error 21)"
  | nameTooLong => "File name too long (os error 36)"
  | nulByte => "file name contained an unexpected NUL byte"
  | other text => text

/-- The files of a program that runs in `m`. -/
structure FileSystem (m : Type → Type) where
  /-- Whether there is anything at a path. -/
  present : String → m Bool
  /-- What is found at a path. -/
  input : String → m (InputFile Float)
  /-- Makes a directory and the ones that it lies in. -/
  makeDirectories : String → m (Except SystemFault Unit)
  /-- Writes named arrays to a file. -/
  writeArrays : String → List (String × StoredArray Float) → m (Except SystemFault Unit)

end SeismicHazard
