/-!
# Text from bytes

Bytes are text when they are well-formed UTF-8. Otherwise the first place where they stop being so
is told: where the faulty sequence starts, and how many of its bytes could still have begun a
character, unless the bytes end inside it.
-/

namespace SeismicHazard.Text

/-- Where bytes stop being text. -/
inductive Utf8Fault where
  | invalid (length index : Nat)
  | incomplete (index : Nat)
deriving DecidableEq, Repr

/-- The allowed ranges of the bytes that follow a leading byte, for the bytes that can lead. -/
def followers? (lead : Nat) : Option (List (Nat × Nat)) :=
  let any := (0x80, 0xbf)
  if lead < 0x80 then some []
  else if lead < 0xc2 then none
  else if lead < 0xe0 then some [any]
  else if lead == 0xe0 then some [(0xa0, 0xbf), any]
  else if lead == 0xed then some [(0x80, 0x9f), any]
  else if lead < 0xf0 then some [any, any]
  else if lead == 0xf0 then some [(0x90, 0xbf), any, any]
  else if lead < 0xf4 then some [any, any, any]
  else if lead == 0xf4 then some [(0x80, 0x8f), any, any]
  else none

/-- How far a sequence of bytes matches the ranges given for it: the rest after a match, the number
of bytes before a mismatch, or nothing where the bytes end. -/
inductive Followed where
  | complete (rest : List UInt8)
  | broken (length : Nat)
  | cut

/-- Matches bytes against ranges, `matched` bytes having been accepted before. -/
def follow : List (Nat × Nat) → List UInt8 → Nat → Followed
  | [], rest, _ => .complete rest
  | _ :: _, [], _ => .cut
  | range :: ranges, byte :: bytes, matched =>
      if range.1 ≤ byte.toNat && byte.toNat ≤ range.2 then follow ranges bytes (matched + 1)
      else .broken matched

/-- The first fault of bytes, looked for with as many steps as there are bytes. -/
def faultFrom (index : Nat) (bytes : List UInt8) : Nat → Utf8Fault
  | 0 => .incomplete index
  | steps + 1 =>
      match bytes with
      | [] => .incomplete index
      | lead :: others =>
          match followers? lead.toNat with
          | none => .invalid 1 index
          | some ranges =>
              match follow ranges others 1 with
              | .complete rest => faultFrom (index + ranges.length + 1) rest steps
              | .broken length => .invalid length index
              | .cut => .incomplete index

/-- The text that bytes spell. -/
def ofBytes (bytes : List UInt8) : Except Utf8Fault String :=
  match String.fromUTF8? (ByteArray.mk bytes.toArray) with
  | some text => .ok text
  | none => .error (faultFrom 0 bytes bytes.length)

/-- The bytes that spell a text. -/
def toBytes (text : String) : List UInt8 := text.toUTF8.data.toList

/-- The words for a fault. -/
def Utf8Fault.message : Utf8Fault → String
  | .invalid length index => s!"invalid utf-8 sequence of {length} bytes from index {index}"
  | .incomplete index => s!"incomplete utf-8 byte sequence from index {index}"

end SeismicHazard.Text
