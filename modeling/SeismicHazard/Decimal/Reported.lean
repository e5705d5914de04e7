import SeismicHazard.Decimal.Rounded

/-!
# Reported numbers

Numbers are reported exactly, as probabilities with ten decimal places, or as measured quantities
with ten significant digits. None of these tells the two zeros apart. Of an array only the places
are reported whose probability is not zero.
-/

namespace SeismicHazard.Reported

/-- The shortest text that reads back as the number. -/
def exact (x : Float) : String := Decimal.unsignedZero x

/-- Ten decimal places, without the zeros at their end. -/
def probability (x : Float) : String := Decimal.upToPlaces 10 x

/-- The shortest text of the number nearest to ten significant digits. -/
def measure (x : Float) : String := Decimal.unsignedZero (Decimal.toSignificant 10 x)

/-- The places of an array whose probability is not reported as zero, with what is reported. -/
def cells (values : List Float) : List (Nat × String) :=
  (values.zipIdx.map (fun (x, i) => (i, probability x))).filter (fun cell => cell.2 != "0")

end SeismicHazard.Reported
