import SeismicHazard.Bundle
import SeismicHazard.Extent
import SeismicHazard.Npz.LittleEndian

/-!
# Arrays as files

The file of an array has a header, which is text that tells the type of the values, whether the
first axis runs fastest, and the shape. The values follow as bytes.
-/

namespace SeismicHazard.ArrayFile

/-- What the header of a file tells. -/
structure Header where
  type : ElementType
  firstAxisFastest : Bool
  shape : List Nat
deriving DecidableEq, Repr

namespace Header

/-- The text between two others, if they occur in that order. -/
def between? (left right text : String) : Option String :=
  match text.splitOn left with
  | _ :: after :: _ => (after.splitOn right).head?
  | _ => none

/-- Reads the text of a header. -/
def ofText? (text : String) : Option Header := do
  let type ← ElementType.ofWord? (← between? "'descr': '" "'" text)
  let order ← between? "'fortran_order': " "," text
  let sizes ← between? "'shape': (" ")" text
  let numbers := (sizes.splitOn ",").map (fun size => size.trimAscii.copy)
  let shape ← (numbers.filter (fun size => size != "")).mapM String.toNat?
  return { type, firstAxisFastest := order == "True", shape }

/-- The text of a header. A single size is followed by a comma. -/
def text (header : Header) : String :=
  let order := if header.firstAxisFastest then "True" else "False"
  let sizes := match header.shape with
    | [size] => Nat.repr size ++ ","
    | sizes => String.intercalate ", " (sizes.map Nat.repr)
  "\x7b'descr': '" ++ header.type.word ++ "', 'fortran_order': " ++ order ++ ", 'shape': ("
    ++ sizes ++ "), \x7d"

end Header

/-- The bytes that every file starts with; the last two of them are the version. -/
def magic : List UInt8 := [0x93, 0x4e, 0x55, 0x4d, 0x50, 0x59, 1, 0]

/-- Values start at a multiple of this place, so the header is filled up with blanks. -/
def alignment : Nat := 64

/-- The number of words of a width. Negative integers are counted down from it. -/
def wordCount (width : Nat) : Nat := 1 <<< (8 * width)

/-- The values of an array as bytes. -/
def valueBytes : ArrayData Float → List UInt8
  | .doubles values => values.flatMap (fun v => LittleEndian.encode 8 v.toBits.toNat)
  | .singles values => values.flatMap (fun v => LittleEndian.encode 4 v.toFloat32.toBits.toNat)
  | .longs values => values.flatMap (fun (v : Int) =>
      LittleEndian.encode 8 (v % wordCount 8).toNat)
  | .ints values => values.flatMap (fun (v : Int) =>
      LittleEndian.encode 4 (v % wordCount 4).toNat)
  | .bytes values => values

/-- The values that words of their width stand for. -/
def ofWords (type : ElementType) (words : List Nat) : ArrayData Float :=
  match type with
  | .double => .doubles (words.map (fun n => Float.ofBits (UInt64.ofNat n)))
  | .single => .singles (words.map (fun n => (Float32.ofBits (UInt32.ofNat n)).toFloat))
  | .long => .longs (words.map (fun (n : Nat) => (n : Int).bmod (wordCount 8)))
  | .int => .ints (words.map (fun (n : Nat) => (n : Int).bmod (wordCount 4)))
  | .byte => .bytes (words.map UInt8.ofNat)

/-- The place that a value has when the first axis runs fastest, by its place when the last one
does. The axes have the given sizes and `stride` is the number of values in front of them. -/
def transposed : List Nat → Nat → Nat → Nat
  | [], _, _ => 0
  | size :: sizes, stride, i =>
      i / extent sizes * stride + transposed sizes (stride * size) (i % extent sizes)

/-- The file of an array. -/
def encode (array : StoredArray Float) : ByteArray :=
  let text := (Header.mk array.data.elementType false array.shape).text
  let used := (magic.length + 2 + text.utf8ByteSize + 1) % alignment
  let blanks := String.ofList (List.replicate ((alignment - used) % alignment) ' ')
  let header := (text ++ blanks ++ "\n").toUTF8
  ⟨magic.toArray⟩ ++ LittleEndian.fields [(2, header.size)] ++ header
    ++ ⟨(valueBytes array.data).toArray⟩

/-- The place and the length of the header. Its length takes two bytes in the first version of the
format, and four in later ones. -/
def headerRange (file : ByteArray) : Nat × Nat :=
  if LittleEndian.read file 6 1 == 1 then (10, LittleEndian.read file 8 2)
  else (12, LittleEndian.read file 8 4)

/-- The array in a file. -/
def decode? (file : ByteArray) : Option (StoredArray Float) := do
  guard ((file.extract 0 6).data.toList == magic.take 6)
  let (place, length) := headerRange file
  let start := place + length
  let header ← Header.ofText? (← String.fromUTF8? (file.extract place start))
  let count := extent header.shape
  let width := header.type.width
  guard (file.size == start + count * width)
  let words := (List.range count).map (fun i =>
    let source := if header.firstAxisFastest then transposed header.shape 1 i else i
    LittleEndian.read file (start + source * width) width)
  return { shape := header.shape, data := ofWords header.type words }

end SeismicHazard.ArrayFile
