/-!
# Types of stored values

Every array holds values of one of a few types. Each type has a word that stands for it wherever
arrays are kept, and takes a fixed number of bytes for a value.
-/

namespace SeismicHazard

/-- The types of values that arrays can have. -/
inductive ElementType where
  | double
  | single
  | long
  | int
  | byte
deriving DecidableEq, Repr

namespace ElementType

/-- All types of values. -/
def all : List ElementType := [double, single, long, int, byte]

/-- The word for a type: its byte order, its kind and the bytes of a value. -/
def word : ElementType → String
  | double => "<f8"
  | single => "<f4"
  | long => "<i8"
  | int => "<i4"
  | byte => "|u1"

/-- The type that a word stands for. -/
def ofWord? (word : String) : Option ElementType := all.find? (fun type => type.word == word)

/-- The number of bytes of a value. -/
def width : ElementType → Nat
  | double => 8
  | single => 4
  | long => 8
  | int => 4
  | byte => 1

end ElementType

end SeismicHazard
