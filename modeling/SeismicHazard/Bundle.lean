import SeismicHazard.Error

/-!
# Bundles of named arrays

Jobs are read from, and results written to, bundles of named arrays. An array has a shape and values
of one type in row-major order.
-/

namespace SeismicHazard

/-- The values of an array. -/
inductive ArrayData (R : Type) where
  | doubles (values : List R)
  | singles (values : List R)
  | longs (values : List Int)
  | ints (values : List Int)
  | bytes (values : List UInt8)

namespace ArrayData

variable {R : Type}

/-- The type of the values. -/
def elementType : ArrayData R → ElementType
  | doubles _ => .double
  | singles _ => .single
  | longs _ => .long
  | ints _ => .int
  | bytes _ => .byte

def doubles? : ArrayData R → Option (List R)
  | doubles values => some values
  | _ => none

def longs? : ArrayData R → Option (List Int)
  | longs values => some values
  | _ => none

def ints? : ArrayData R → Option (List Int)
  | ints values => some values
  | _ => none

def bytes? : ArrayData R → Option (List UInt8)
  | bytes values => some values
  | _ => none

end ArrayData

/-- An array with its shape. -/
structure StoredArray (R : Type) where
  shape : List Nat
  data : ArrayData R

namespace StoredArray

variable {R : Type}

/-- A one-dimensional array of numbers. -/
def ofNumbers (values : List R) : StoredArray R := ⟨[values.length], .doubles values⟩

/-- A one-dimensional array of integers. -/
def ofLongs (values : List Int) : StoredArray R := ⟨[values.length], .longs values⟩

/-- A one-dimensional array of bytes. -/
def ofBytes (values : List UInt8) : StoredArray R := ⟨[values.length], .bytes values⟩

/-- The values that `select?` finds in an array with `dimensions` dimensions. -/
def select {α : Type} (array : StoredArray R) (dimensions : Nat)
    (select? : ArrayData R → Option (List α)) : Except ArrayFault (List α) :=
  match select? array.data with
  | none => .error (.elementType array.data.elementType)
  | some values =>
      if array.shape.length = dimensions then .ok values
      else .error (.dimensions array.shape.length dimensions)

end StoredArray

/-- Named arrays, and the path that failures to read them name. -/
structure Bundle (R : Type) where
  path : String
  arrays : List (String × StoredArray R)

namespace Bundle

variable {R α : Type}

/-- The failure to read the bundle for a reason. -/
def fail (bundle : Bundle R) (fault : ArchiveFault) : Except (Error R) α :=
  .error (.archive bundle.path fault)

/-- The array with a name. -/
def find? (bundle : Bundle R) (name : String) : Option (StoredArray R) :=
  bundle.arrays.lookup name

/-- Whether there is an array with a name. -/
def has (bundle : Bundle R) (name : String) : Bool := (bundle.find? name).isSome

/-- The shape and the values of an array that has to be there. -/
def read (bundle : Bundle R) (name : String) (dimensions : Nat)
    (select? : ArrayData R → Option (List α)) : Except (Error R) (List Nat × List α) :=
  match bundle.find? name with
  | none => bundle.fail (.unreadable name .absent)
  | some array =>
      match array.select dimensions select? with
      | .ok values => .ok (array.shape, values)
      | .error fault => bundle.fail (.unreadable name fault)

/-- A one-dimensional array of numbers that has to be there. -/
def numbers (bundle : Bundle R) (name : String) : Except (Error R) (List R) :=
  Prod.snd <$> bundle.read name 1 ArrayData.doubles?

/-- A one-dimensional array of long integers that has to be there. -/
def longs (bundle : Bundle R) (name : String) : Except (Error R) (List Int) :=
  Prod.snd <$> bundle.read name 1 ArrayData.longs?

/-- A one-dimensional array of integers that has to be there. -/
def ints (bundle : Bundle R) (name : String) : Except (Error R) (List Int) :=
  Prod.snd <$> bundle.read name 1 ArrayData.ints?

/-- A one-dimensional array of bytes that has to be there. -/
def bytes (bundle : Bundle R) (name : String) : Except (Error R) (List UInt8) :=
  Prod.snd <$> bundle.read name 1 ArrayData.bytes?

end Bundle

/-- The elements of a list from place `low` up to, but not including, place `high`. -/
def slice? {α : Type} (xs : List α) (low high : Int) : Option (List α) :=
  if 0 ≤ low ∧ low ≤ high ∧ high ≤ xs.length then
    some ((xs.drop low.toNat).take (high - low).toNat)
  else none

/-- The pairs of successive entries of a list of places, each pair delimiting one part of what is
packed. -/
def delimiters (places : List Int) : List (Int × Int) := places.zip places.tail

end SeismicHazard
