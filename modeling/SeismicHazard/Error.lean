import SeismicHazard.Bundle.ElementType
import SeismicHazard.Text.Utf8

/-!
# Failures of a computation

A failure is a fault, told apart by its cause, and possibly the id of the seismic source that was
being processed when it arose. Faults carry the values that they are about; how they are worded is
the business of `Error.message`. Leaving out what does not contribute (a site without curves, a
source out of range) is no failure.
-/

namespace SeismicHazard

/-- Inconsistent settings, or a model whose parts do not fit together. -/
inductive ConfigFault (R : Type) where
  | notPositive (setting : String) (value : R)
  | truncationLevel (value : R)
  | lessThanOne (setting : String)
  | noTargets
  | targetOutOfRange (poe : R)
  | noMeasures
  | unreadable (variable_ text : String)
  | unreadableTarget (text : String)
  | unknownExtrapolation (word : String)
  | noCoefficients (imt : String)
  | spreadNotPositive (stddev : R)
  | repeatedRegion (name : String)
  | unknownRegion (name : String)
  | noModel (realization : Nat) (region : String)
  | nonParametricRupture
  | nonParametricSource (id : String) (branch : Nat)
  | repeatedRealization (id : Nat)
  | occurrenceRate (rate mag : R)
  | regionIndex (index count : Nat)
  | stated (text : String)
deriving DecidableEq

/-- A hazard curve, or a level read off one, that cannot be used. -/
inductive CurveFault (R : Type) where
  | lengths (levels poes : Nat)
  | levelsNotIncreasing
  | poesOutOfRange
  | poesIncreasing
  | levelsNotPositive
  | notBracketed (poe lowest highest : R)
  | levelNotPositive (level : R)
  | stated (text : String)
deriving DecidableEq

/-- Coordinates and distances that cannot be placed. -/
inductive GeometryFault (R : Type) where
  | lengths (lons lats : Nat)
  | longitudesOutOfRange (west east : R)
  | tooWide
  | effectiveDistance (effective distance offset : R)
  | coordinateNaN
  | tooFewEdges (count : Nat)
  | longitudeNaN
  | noLongitudeEdges
  | stated (text : String)
deriving DecidableEq

/-- Why a named array cannot be read as what is wanted. -/
inductive ArrayFault where
  | absent
  | elementType (found : ElementType)
  | dimensions (found wanted : Nat)
deriving DecidableEq

/-- An archive that does not describe a job. -/
inductive ArchiveFault where
  | notAnArchive
  | isDirectory
  | unreadable (name : String) (fault : ArrayFault)
  | emptyScalar (name : String)
  | siteLengths
  | sourceLengths
  | regionOfSource (source : Nat) (index : Int)
  | magnitudeBins (source : Nat)
  | coefficientShape (sizes : List Nat)
  | weights
  | nameRange (group : String)
  | nameText (fault : Text.Utf8Fault)
  | stated (text : String)
deriving DecidableEq

/-- What a computation needs without checking it. Nothing is answered where one of these does not
hold. -/
inductive Precondition where
  /-- The index after the last edge has to be a 64-bit integer. Integer arithmetic is taken to be
  checked for overflow. -/
  | edgeIndex
  /-- The edges or cells asked for have to fit in the address space. -/
  | capacity
  /-- Every axis has to have an edge. -/
  | someEdge
  /-- A cell has to lie within the shape of its matrix. -/
  | cellInShape
  /-- The values of a matrix have to be as many as its shape has cells. -/
  | valuesFitShape
  /-- The number of ruptures taken in has to be an unsigned 64-bit integer. -/
  | ruptureCount
  /-- A probability that is sought on a curve of one level has to be a number. -/
  | targetIsNumber
deriving DecidableEq

/-- The cause of a failure. -/
inductive Fault (R : Type) where
  | config (fault : ConfigFault R)
  | curve (fault : CurveFault R)
  | geometry (fault : GeometryFault R)
  /-- A value that is no probability reached a product of non-exceedances. -/
  | mergeRule (value : R)
  | shapeMismatch (left right : List Nat)
  | archive (path : String) (fault : ArchiveFault)
  | system (text : String)
  /-- A failure of a source, told by the source itself. -/
  | reported (text : String)
  | broken (precondition : Precondition)
deriving DecidableEq

/-- A failure: its cause, and the source in which it arose if that is known. -/
structure Error (R : Type) where
  source : Option String
  fault : Fault R
deriving DecidableEq

namespace Error

variable {R : Type}

/-- A failure that belongs to no source. -/
def of (fault : Fault R) : Error R := ⟨none, fault⟩

def config (fault : ConfigFault R) : Error R := of (.config fault)

def curve (fault : CurveFault R) : Error R := of (.curve fault)

def geometry (fault : GeometryFault R) : Error R := of (.geometry fault)

def mergeRule (value : R) : Error R := of (.mergeRule value)

def shapeMismatch (left right : List Nat) : Error R := of (.shapeMismatch left right)

def archive (path : String) (fault : ArchiveFault) : Error R := of (.archive path fault)

def system (text : String) : Error R := of (.system text)

def broken (precondition : Precondition) : Error R := of (.broken precondition)

/-- Names the source in which a failure arose. A failure that names one already keeps it, and a
broken precondition belongs to no source. -/
def inSource (id : String) (e : Error R) : Error R :=
  match e.fault with
  | .broken _ => e
  | _ => { e with source := some (e.source.getD id) }

/-- The innermost source is the one that is named. -/
@[simp] theorem inSource_inSource (inner outer : String) (e : Error R) :
    (e.inSource inner).inSource outer = e.inSource inner := by
  cases e with
  | mk source fault => cases fault <;> simp [inSource]

end Error

/-- Names a source in the failure of a computation. -/
def Except.inSource {R α : Type} (id : String) (result : Except (Error R) α) :
    Except (Error R) α :=
  result.mapError (Error.inSource id)

end SeismicHazard
