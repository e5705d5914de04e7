import SeismicHazard.Npz.ArrayFile
import SeismicHazard.Npz.Container

/-!
# Named arrays in one file

Named arrays are kept in a container with one file for each of them. What else the container holds
is passed over.
-/

namespace SeismicHazard.Npz

/-- What the name of the file of an array ends in. -/
def ending : String := ".npy"

/-- The file with named arrays. -/
def encode (arrays : List (String × StoredArray Float)) : ByteArray :=
  Container.encode (arrays.map (fun (name, array) =>
    { name := name ++ ending, content := ArrayFile.encode array }))

/-- The array in a file of a container, under its name. -/
def array? (entry : Container.Entry) : Option (String × StoredArray Float) := do
  guard (entry.name.endsWith ending)
  let array ← ArrayFile.decode? entry.content
  return ((entry.name.dropEnd ending.length).copy, array)

/-- The named arrays in a file. -/
def decode? (file : ByteArray) : Option (List (String × StoredArray Float)) :=
  (Container.decode? file).map (fun entries => entries.filterMap array?)

end SeismicHazard.Npz
