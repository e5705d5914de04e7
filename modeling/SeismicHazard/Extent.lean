/-!
# Extents

A block of values with several axes has a size along each of them. Its extent is the number of
values that it holds; a block without axes holds one.
-/

namespace SeismicHazard

/-- The number of values in a block with the given sizes. -/
def extent (sizes : List Nat) : Nat := sizes.foldr (fun size rest => size * rest) 1

end SeismicHazard
