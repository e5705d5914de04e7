import SeismicHazard.Bundle
import SeismicHazard.Proofs.Matrix.Cells
import SeismicHazard.Proofs.Outcome
import SeismicHazard.Text.Utf8

/-!
# Packed lists

Lists of different lengths are stored one behind another, together with the places at which they
begin and at which the last one ends. Between successive places the lists are found again. Blocks
that all have one length need no places: their numbers tell where they are.
-/

namespace SeismicHazard

variable {α : Type}

/-- The places at which lists begin when they are put one behind another from place `start` on, and
the place at which the last one ends. -/
def places (start : Nat) : List (List α) → List Int
  | [] => [(start : Int)]
  | part :: rest => start :: places (start + part.length) rest

@[simp] theorem length_places (start : Nat) (parts : List (List α)) :
    (places start parts).length = parts.length + 1 := by
  induction parts generalizing start with
  | nil => rfl
  | cons part rest ih => simp [places, ih]

@[simp] theorem delimiters_places_nil (start : Nat) :
    delimiters (places start ([] : List (List α))) = [] :=
  rfl

@[simp] theorem delimiters_places_cons (start : Nat) (part : List α) (rest : List (List α)) :
    delimiters (places start (part :: rest)) =
      ((start : Int), ((start + part.length : Nat) : Int)) ::
        delimiters (places (start + part.length) rest) := by
  cases rest <;> rfl

@[simp] theorem length_delimiters_places (start : Nat) (parts : List (List α)) :
    (delimiters (places start parts)).length = parts.length := by
  simp [delimiters]

theorem slice?_between (before part after : List α) :
    slice? (before ++ (part ++ after)) before.length ((before.length + part.length : Nat) : Int) =
      some part := by
  have hlow : (before.length : Int).toNat = before.length := Int.toNat_natCast _
  have hwidth : (((before.length + part.length : Nat) : Int) - before.length).toNat =
      part.length := by
    omega
  unfold slice?
  rw [if_pos (by simp), hlow, hwidth, List.drop_left, List.take_left]

/-- Between successive places stand the lists that were packed, also behind others. -/
theorem forall₂_slice? (before : List α) (parts : List (List α)) :
    List.Forall₂ (fun place part => slice? (before ++ parts.flatten) place.1 place.2 = some part)
      (delimiters (places before.length parts)) parts := by
  -- the induction moves one list after the other to those that stand before
  induction parts generalizing before with
  | nil => simp
  | cons part rest ih =>
      rw [delimiters_places_cons, List.flatten_cons]
      refine .cons (slice?_between before part rest.flatten) ?_
      have hrest := ih (before ++ part)
      rwa [List.length_append, List.append_assoc] at hrest

/-- Each of the lists is what stands between its own places. -/
theorem slice?_places (parts : List (List α)) {i : Nat} (hi : i < parts.length)
    (hplace : i < (delimiters (places 0 parts)).length) :
    slice? parts.flatten (delimiters (places 0 parts))[i].1 (delimiters (places 0 parts))[i].2 =
      some parts[i] :=
  (List.forall₂_iff_get.1 (forall₂_slice? [] parts)).2 i hplace hi

/-- The blocks of a table all have one length, so the element of a block is found from its number
there and the number of the block. -/
theorem getElem?_blocks {block : Nat → List α} {width : Nat}
    (hwidth : ∀ i, (block i).length = width) {i j count : Nat} (hi : i < count) (hj : j < width) :
    ((List.range count).flatMap block)[i * width + j]? = (block i)[j]? := by
  have hlength : ∀ n, ((List.range n).flatMap block).length = n * width := by
    intro n
    simp [List.length_flatMap, hwidth]
  induction count with
  | zero => exact absurd hi (Nat.not_lt_zero i)
  | succ count ih =>
      rw [List.range_succ, List.flatMap_append, List.flatMap_singleton]
      rcases Nat.lt_succ_iff_lt_or_eq.1 hi with hlt | rfl
      · have hbound : i * width + j < count * width := radix_lt hlt hj
        rw [List.getElem?_append_left (by rwa [hlength]), ih hlt]
      · rw [List.getElem?_append_right (by rw [hlength]; omega), hlength, Nat.add_sub_cancel_left]

namespace Text

/-- The bytes of a text spell it. -/
@[simp] theorem ofBytes_toBytes (text : String) : ofBytes (toBytes text) = .ok text := by
  have hbytes : ByteArray.mk (toBytes text).toArray = text.toByteArray := rfl
  have htext : String.fromUTF8? text.toByteArray = some text := dif_pos text.isValidUTF8
  rw [ofBytes, hbytes, htext]

end Text

end SeismicHazard
