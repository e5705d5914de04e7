import SeismicHazard.Error
import SeismicHazard.Decimal.Shortest
import SeismicHazard.Text.Quoted

/-!
# The words for a failure

Numbers in messages are written in their shortest form, names that may hold any character between
quotes.
-/

namespace SeismicHazard

open Decimal (shortest)
open Text (quoted bracketed)

def ConfigFault.message : ConfigFault Float → String
  | notPositive setting value => s!"{setting} must be positive, got {shortest value}"
  | truncationLevel value =>
      s!"disaggregation needs a positive truncation_level, got {shortest value}"
  | lessThanOne setting => s!"{setting} must be at least 1"
  | noTargets => "poes_disagg is empty"
  | targetOutOfRange poe => s!"poes_disagg entry {shortest poe} is outside (0, 1]"
  | noMeasures => "no intensity measure types configured"
  | unreadable variable_ text => s!"cannot parse {variable_}={quoted text}"
  | unreadableTarget text => s!"bad poe {quoted text} in DISAGG_POES"
  | unknownExtrapolation word =>
      s!"unknown curve extrapolation {quoted word} (expected clamp|reject)"
  | noCoefficients imt => s!"no coefficients for imt {imt}"
  | spreadNotPositive stddev =>
      s!"ground-motion stddev must be positive, got {shortest stddev}"
  | repeatedRegion name => s!"duplicate tectonic region type {quoted name}"
  | unknownRegion name => s!"unknown tectonic region type {quoted name}"
  | noModel realization region =>
      s!"realization {realization} has no ground-motion model for {quoted region}"
  | nonParametricRupture => "non-parametric ruptures are not supported by the disaggregation"
  | nonParametricSource id branch =>
      s!"source {id} in branch {branch} has non-parametric ruptures, " ++
        "which cannot be disaggregated"
  | repeatedRealization id => s!"realization {id} appears in more than one branch"
  | occurrenceRate rate mag =>
      s!"invalid occurrence rate {shortest rate} for magnitude {shortest mag}"
  | regionIndex index count =>
      s!"tectonic region index {index} out of range ({count} types)"
  | stated text => text

def CurveFault.message : CurveFault Float → String
  | lengths levels poes =>
      s!"curve needs matching non-empty levels and poes (imls={levels}, poes={poes})"
  | levelsNotIncreasing => "intensity levels must be strictly increasing"
  | poesOutOfRange => "curve poes must lie in [0, 1]"
  | poesIncreasing => "curve poes must not increase with the level"
  | levelsNotPositive => "log interpolation needs positive levels"
  | notBracketed poe lowest highest =>
      let range := s!"[{shortest lowest}, {shortest highest}]"
      s!"poe {shortest poe} is outside the curve range {range}"
  | levelNotPositive level => s!"intensity level must be positive, got {shortest level}"
  | stated text => text

def GeometryFault.message : GeometryFault Float → String
  | lengths lons lats =>
      s!"bounding box needs matching non-empty coordinates (lons={lons}, lats={lats})"
  | longitudesOutOfRange west east =>
      s!"longitudes out of range: west={shortest west}, east={shortest east}"
  | tooWide => "points collection has longitudinal extent wider than 180 deg"
  | effectiveDistance effective distance offset =>
      s!"non-positive effective distance {shortest effective} " ++
        s!"(R={shortest distance}, c3={shortest offset})"
  | coordinateNaN => "cannot bin a NaN coordinate"
  | tooFewEdges count => s!"need at least two bin edges, got {count}"
  | longitudeNaN => "cannot bin a NaN longitude"
  | noLongitudeEdges => "no longitude edges"
  | stated text => text

def ArrayFault.message : ArrayFault → String
  | absent => "zip file error: specified file not found in archive"
  | elementType found =>
      s!"error reading npy file in npz archive: incorrect descriptor ('{found.word}') for this type"
  | dimensions found wanted =>
      s!"error reading npy file in npz archive: ndim {found} of array did not match " ++
        s!"Dimension type with NDIM = Some({wanted})"

def ArchiveFault.message : ArchiveFault → String
  | notAnArchive => "zip file error: invalid Zip archive"
  | isDirectory => "zip file error: Is a directory (os error 21)"
  | unreadable name fault => s!"missing {name}: {fault.message}"
  | emptyScalar name => s!"{name} is empty"
  | siteLengths => "site_lons and site_lats differ in length"
  | sourceLengths => "source arrays differ in length"
  | regionOfSource source index => s!"source {source} has unknown region index {index}"
  | magnitudeBins source => s!"src_mfd_indptr out of range at {source}"
  | coefficientShape sizes => s!"rlz_gmpe has shape {bracketed sizes}"
  | weights => "rlz_weights does not match rlz_gmpe"
  | nameRange group => s!"{group}_indptr out of range"
  | nameText fault => fault.message
  | stated text => text

/-- The words for a cause. A broken precondition is never put into words. -/
def Fault.message : Fault Float → String
  | config fault => s!"configuration error: {fault.message}"
  | curve fault => s!"hazard curve error: {fault.message}"
  | geometry fault => s!"geometry error: {fault.message}"
  | mergeRule value =>
      s!"merge rule violated: probability {shortest value} is outside [0, 1]"
  | shapeMismatch left right =>
      s!"cannot merge matrices of shape {bracketed left} and {bracketed right}"
  | archive path fault => s!"npz error in {path}: {fault.message}"
  | system text => s!"I/O error: {text}"
  | reported text => text
  | broken _ => ""

/-- The words for a failure, led by the source in which it arose. -/
def Error.message (e : Error Float) : String :=
  match e.source with
  | none => e.fault.message
  | some id => s!"an error occurred with source id={id}: {e.fault.message}"

end SeismicHazard
