/-!
# Whole numbers as bytes

A whole number takes a fixed number of bytes, the lowest one first. Numbers that need more bytes
lose their highest ones, and reading the bytes gives what is left.
-/

namespace SeismicHazard.LittleEndian

/-- The lowest bytes of a number. -/
def encode : Nat → Nat → List UInt8
  | 0, _ => []
  | width + 1, n => UInt8.ofNat (n % 256) :: encode width (n / 256)

/-- The number that bytes stand for. -/
def decode : List UInt8 → Nat
  | [] => 0
  | byte :: bytes => byte.toNat + 256 * decode bytes

@[simp] theorem length_encode (width n : Nat) : (encode width n).length = width := by
  induction width generalizing n with
  | zero => rfl
  | succ width ih => simp [encode, ih]

@[simp] theorem decode_encode (width n : Nat) :
    decode (encode width n) = n % Nat.pow 256 width := by
  induction width generalizing n with
  | zero => simp only [encode, decode]; exact (Nat.mod_one n).symm
  | succ width ih =>
      have hbyte : (UInt8.ofNat (n % 256)).toNat = n % 256 := by
        rw [UInt8.toNat_ofNat']
        omega
      change _ = n % (Nat.pow 256 width * 256)
      rw [encode, decode, ih, hbyte, Nat.mul_comm (Nat.pow 256 width), Nat.mod_mul]

/-- The bytes of several numbers, each given with its width. -/
def fields (values : List (Nat × Nat)) : ByteArray :=
  ⟨(values.flatMap (fun (width, value) => encode width value)).toArray⟩

/-- The number in the bytes of a file from a place on. -/
def read (file : ByteArray) (place width : Nat) : Nat :=
  decode (file.extract place (place + width)).data.toList

end SeismicHazard.LittleEndian
