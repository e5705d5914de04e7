import SeismicHazard.Npz.LittleEndian

/-!
# Containers of files

A container holds named files one after the other, each behind a header of its own, and closes with
a directory of them and a record that says where the directory starts. Files are stored as they
are; one that is compressed cannot be read.
-/

namespace SeismicHazard.Container

/-- A named file. -/
structure Entry where
  name : String
  content : ByteArray

/-- One step of the checksum: division by the generator polynomial, bit by bit. -/
def checksumStep (rest : UInt32) : UInt32 :=
  if rest &&& 1 == 1 then (rest >>> 1) ^^^ 0xedb88320 else rest >>> 1

/-- The cyclic checksum of bytes. -/
def checksum (bytes : ByteArray) : UInt32 :=
  ~~~ bytes.foldl (fun rest byte => Nat.repeat checksumStep 8 (rest ^^^ byte.toUInt32)) 0xffffffff

/-- The number that marks the header of a file. -/
def fileMark : Nat := 0x04034b50

/-- The number that marks an entry of the directory. -/
def directoryMark : Nat := 0x02014b50

/-- The number that marks the closing record. -/
def closingMark : Nat := 0x06054b50

/-- The fields that the header of a file and its entry in the directory share: version, flags (names
are text), method, time and date, checksum, sizes and the length of the name. -/
def sharedFields (entry : Entry) : List (Nat × Nat) :=
  let size := entry.content.size
  [(2, 20), (2, 0x0800), (2, 0), (2, 0), (2, 0x21), (4, (checksum entry.content).toNat),
   (4, size), (4, size), (2, entry.name.utf8ByteSize)]

/-- A file behind its header. -/
def fileRecord (entry : Entry) : ByteArray :=
  LittleEndian.fields ((4, fileMark) :: sharedFields entry ++ [(2, 0)])
    ++ entry.name.toUTF8 ++ entry.content

/-- The entry of the directory for a file at a place. -/
def directoryRecord (entry : Entry) (place : Nat) : ByteArray :=
  LittleEndian.fields ((4, directoryMark) :: (2, 20) :: sharedFields entry
      ++ [(2, 0), (2, 0), (2, 0), (2, 0), (4, 0), (4, place)])
    ++ entry.name.toUTF8

/-- The record that closes a container. -/
def closingRecord (count size place : Nat) : ByteArray :=
  LittleEndian.fields
    [(4, closingMark), (2, 0), (2, 0), (2, count), (2, count), (4, size), (4, place), (2, 0)]

/-- The container of some files. -/
def encode (entries : List Entry) : ByteArray :=
  let (files, directory) := entries.foldl (fun (files, directory) entry =>
    (files ++ fileRecord entry, directory ++ directoryRecord entry files.size))
    (ByteArray.empty, ByteArray.empty)
  files ++ directory ++ closingRecord entries.length directory.size files.size

/-- How much may follow the fields of the closing record. -/
def maxComment : Nat := 65535

/-- The place of the closing record, which is the last one with its mark. -/
def closingPlace? (file : ByteArray) : Option Nat :=
  let places := (List.range (min (maxComment + 1) (file.size - 21))).map (fun n =>
    file.size - 22 - n)
  places.find? (fun place => LittleEndian.read file place 4 == closingMark)

/-- The file that an entry of the directory describes, unless it is compressed or its name is no
text. -/
def entryAt? (file : ByteArray) (record : Nat) : Option Entry := do
  guard (LittleEndian.read file (record + 10) 2 == 0)
  let nameEnd := record + 46 + LittleEndian.read file (record + 28) 2
  let name ← String.fromUTF8? (file.extract (record + 46) nameEnd)
  let header := LittleEndian.read file (record + 42) 4
  let start := header + 30 + LittleEndian.read file (header + 26) 2
    + LittleEndian.read file (header + 28) 2
  return { name, content := file.extract start (start + LittleEndian.read file (record + 24) 4) }

/-- The files that `count` entries of the directory describe, the first entry being at a place. -/
def entriesFrom? (file : ByteArray) (record : Nat) : Nat → Option (List Entry)
  | 0 => some []
  | count + 1 => do
      guard (LittleEndian.read file record 4 == directoryMark)
      let length := 46 + LittleEndian.read file (record + 28) 2
        + LittleEndian.read file (record + 30) 2 + LittleEndian.read file (record + 32) 2
      return (entryAt? file record).toList ++ (← entriesFrom? file (record + length) count)

/-- The files in a container. -/
def decode? (file : ByteArray) : Option (List Entry) := do
  let closing ← closingPlace? file
  let directory := LittleEndian.read file (closing + 16) 4
  entriesFrom? file directory (LittleEndian.read file (closing + 10) 2)

end SeismicHazard.Container
