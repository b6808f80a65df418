import Mathlib.Algebra.GroupWithZero.Nat
import Mathlib.Data.List.Basic

/-
  Fixed-width unsigned fields, least significant byte first,
  and the CRC-32 of a run of bytes.

  A layout is a list of widths. `pack` lays values out one
  after another and `unpack` reads them back, whatever bytes
  follow.
-/

--
-- One Field
--

namespace Library

namespace Struct

abbrev Bytes := List UInt8

/- The low `width` bytes of a value. -/
def encode : Nat → Nat → Bytes
  | 0, _ => []
  | width + 1, value =>
    UInt8.ofNat value :: encode width (value / 256)

def decode : Bytes → Nat
  | [] => 0
  | byte :: rest => byte.toNat + 256 * decode rest

@[simp] theorem length_encode
    (width value : Nat) :
    (encode width value).length = width := by
  induction width generalizing value with
  | zero => rfl
  | succ width ih =>
    rw [encode, List.length_cons, ih]

theorem decode_encode
    {width value : Nat}
    (hFits : value < 256 ^ width) :
    decode (encode width value) = value := by
  induction width generalizing value with
  | zero =>
    rw [Nat.pow_zero] at hFits
    simp only [encode, decode]
    omega
  | succ width ih =>
    have hRest : value / 256 < 256 ^ width := by
      rw [Nat.pow_succ] at hFits
      omega
    rw [encode, decode, ih hRest, UInt8.toNat_ofNat']
    omega

--
-- Layouts
--

/- Fields, each a width and a value, one after another. -/
def pack : List (Nat × Nat) → Bytes
  | [] => []
  | field :: rest => encode field.1 field.2 ++ pack rest

/- Read one value for each width. -/
def unpack : List Nat → Bytes → List Nat
  | [], _ => []
  | width :: rest, bytes =>
    decode (bytes.take width) :: unpack rest (bytes.drop width)

/- Every value fits its field. -/
def Fits (fields : List (Nat × Nat)) : Prop :=
  ∀ field ∈ fields, field.2 < 256 ^ field.1

instance (fields : List (Nat × Nat)) :
    Decidable (Fits fields) :=
  inferInstanceAs
    (Decidable (∀ field ∈ fields, field.2 < 256 ^ field.1))

theorem length_pack (fields : List (Nat × Nat)) :
    (pack fields).length =
      (fields.map Prod.fst).sum := by
  induction fields with
  | nil => rfl
  | cons field rest ih =>
    rw [pack, List.length_append, length_encode, ih]
    rfl

/- Packed fields read back, whatever follows them. -/
theorem unpack_pack
    {fields : List (Nat × Nat)}
    (hFits : Fits fields)
    (rest : Bytes) :
    unpack (fields.map Prod.fst) (pack fields ++ rest) =
      fields.map Prod.snd := by
  induction fields with
  | nil => rfl
  | cons field fields ih =>
    have hField := hFits field (.head _)
    have hOthers : Fits fields := fun other hMem =>
      hFits other (.tail _ hMem)
    rw [List.map_cons, List.map_cons, pack, unpack,
      List.append_assoc]
    have hTake :
        (encode field.1 field.2 ++
            (pack fields ++ rest)).take field.1 =
          encode field.1 field.2 :=
      List.take_left' (length_encode _ _)
    have hDrop :
        (encode field.1 field.2 ++
            (pack fields ++ rest)).drop field.1 =
          pack fields ++ rest :=
      List.drop_left' (length_encode _ _)
    rw [hTake, hDrop, decode_encode hField, ih hOthers]

variable {bytes : Bytes}

/- Only the bytes the widths cover are looked at. -/
theorem unpack_append
    {widths : List Nat}
    (hLength : widths.sum ≤ bytes.length)
    (rest : Bytes) :
    unpack widths (bytes ++ rest) =
      unpack widths bytes := by
  induction widths generalizing bytes with
  | nil => rfl
  | cons width widths ih =>
    rw [List.sum_cons] at hLength
    rw [unpack, unpack,
      List.take_append_of_le_length (by omega),
      List.drop_append_of_le_length (by omega), ih]
    rw [List.length_drop]
    omega

--
-- Slices
--

/- The bytes from one position up to another. -/
def slice
    (bytes : Bytes)
    (start stop : Nat) : Bytes :=
  (bytes.drop start).take (stop - start)

variable {start stop : Nat}

/- A part, by where it stands. -/
theorem slice_middle
    {before part : Bytes}
    (hStart : start = before.length)
    (hStop : stop = start + part.length)
    (after : Bytes) :
    slice (before ++ (part ++ after)) start stop = part := by
  unfold slice
  rw [hStop, Nat.add_sub_cancel_left, hStart,
    List.drop_left, List.take_left]

theorem slice_append
    (hStop : stop ≤ bytes.length)
    (rest : Bytes) :
    slice (bytes ++ rest) start stop =
      slice bytes start stop := by
  unfold slice
  by_cases hStart : start ≤ bytes.length
  · rw [List.drop_append_of_le_length hStart,
      List.take_append_of_le_length]
    rw [List.length_drop]
    omega
  · have hNone : stop - start = 0 := by omega
    rw [hNone, List.take_zero, List.take_zero]

/- Overwrite bytes from a position on. -/
def overwriteAt
    (bytes : Bytes)
    (start : Nat)
    (written : Bytes) : Bytes :=
  bytes.take start ++ written ++
    bytes.drop (start + written.length)

theorem getElem?_slice
    (bytes : Bytes)
    (start stop index : Nat) :
    (slice bytes start stop)[index]? =
      if index < stop - start then bytes[start + index]?
      else none := by
  unfold slice
  rw [List.getElem?_take, List.getElem?_drop]

variable {written : Bytes}

theorem length_overwriteAt
    (hFits : start + written.length ≤ bytes.length) :
    (overwriteAt bytes start written).length =
      bytes.length := by
  unfold overwriteAt
  rw [List.length_append, List.length_append,
    List.length_take, List.length_drop]
  omega

/- A byte is a new one inside the written range only. -/
theorem getElem?_overwriteAt
    (hFits : start + written.length ≤ bytes.length)
    (index : Nat) :
    (overwriteAt bytes start written)[index]? =
      if index < start then bytes[index]?
      else if index < start + written.length then
        written[index - start]?
      else bytes[index]? := by
  have hLeft : (bytes.take start).length = start := by
    rw [List.length_take]
    omega
  unfold overwriteAt
  rw [List.append_assoc, List.getElem?_append, hLeft]
  by_cases hBefore : index < start
  · rw [if_pos hBefore, if_pos hBefore,
      List.getElem?_take_of_lt hBefore]
  · rw [if_neg hBefore, if_neg hBefore,
      List.getElem?_append]
    by_cases hInside : index < start + written.length
    · rw [if_pos (by omega), if_pos hInside]
    · rw [if_neg (by omega), if_neg hInside,
        List.getElem?_drop]
      congr 1
      omega

section Overwrite

variable {bytes written : Bytes} {start first last : Nat}

/- What lies in front of the written range, or behind it,
   stays. -/
theorem slice_overwriteAt_of_apart
    (hFits : start + written.length ≤ bytes.length)
    (hApart : last ≤ start ∨ start + written.length ≤ first) :
    slice (overwriteAt bytes start written) first last =
      slice bytes first last := by
  apply List.ext_getElem?
  intro index
  rw [getElem?_slice, getElem?_slice]
  by_cases hIndex : index < last - first
  · rw [if_pos hIndex, if_pos hIndex,
      getElem?_overwriteAt hFits]
    rcases hApart with hBefore | hBehind
    · rw [if_pos (by omega)]
    · rw [if_neg (by omega), if_neg (by omega)]
  · rw [if_neg hIndex, if_neg hIndex]

/- The written range reads back, whole or in part. -/
theorem slice_overwriteAt_inside
    (hFits : start + written.length ≤ bytes.length)
    (hFirst : start ≤ first)
    (hLast : last ≤ start + written.length) :
    slice (overwriteAt bytes start written) first last =
      slice written (first - start) (last - start) := by
  apply List.ext_getElem?
  intro index
  rw [getElem?_slice, getElem?_slice]
  by_cases hIndex : index < last - first
  · rw [if_pos hIndex, if_pos (by omega),
      getElem?_overwriteAt hFits, if_neg (by omega),
      if_pos (by omega)]
    congr 1
    omega
  · rw [if_neg hIndex, if_neg (by omega)]

theorem slice_self (bytes : Bytes) :
    slice bytes 0 bytes.length = bytes := by
  unfold slice
  rw [List.drop_zero, Nat.sub_zero, List.take_length]

theorem slice_overwriteAt_self
    (hFits : start + written.length ≤ bytes.length) :
    slice (overwriteAt bytes start written) start
        (start + written.length) =
      written := by
  rw [slice_overwriteAt_inside hFits (Nat.le_refl _)
    (Nat.le_refl _), Nat.sub_self, Nat.add_sub_cancel_left,
    slice_self]

end Overwrite

--
-- CRC-32
--

/- The reflected polynomial. -/
def crcPolynomial : Nat := 0xEDB88320

/- Shift one bit out of the remainder. -/
def crcBit (remainder : Nat) : Nat :=
  if remainder % 2 = 1 then
    (remainder / 2) ^^^ crcPolynomial
  else remainder / 2

def crcByte (remainder : Nat) (byte : UInt8) : Nat :=
  crcBit (crcBit (crcBit (crcBit (crcBit (crcBit (crcBit
    (crcBit (remainder ^^^ byte.toNat))))))))

def crc32 (bytes : Bytes) : Nat :=
  bytes.foldl crcByte 0xFFFFFFFF ^^^ 0xFFFFFFFF

variable {remainder : Nat}

theorem crcBit_lt
    (hBound : remainder < 2 ^ 32) :
    crcBit remainder < 2 ^ 32 := by
  unfold crcBit
  have hHalf : remainder / 2 < 2 ^ 32 := by omega
  split
  · apply Nat.xor_lt_two_pow hHalf
    decide
  · exact hHalf

theorem crcByte_lt
    (hBound : remainder < 2 ^ 32)
    (byte : UInt8) :
    crcByte remainder byte < 2 ^ 32 := by
  have hByte : byte.toNat < 2 ^ 32 :=
    Nat.lt_trans byte.toNat_lt (by decide)
  have hMixed := Nat.xor_lt_two_pow hBound hByte
  exact crcBit_lt (crcBit_lt (crcBit_lt (crcBit_lt
    (crcBit_lt (crcBit_lt (crcBit_lt
      (crcBit_lt hMixed)))))))

/- A CRC-32 fits a four-byte field. -/
theorem crc32_lt (bytes : Bytes) :
    crc32 bytes < 256 ^ 4 := by
  have hFold : ∀ (bytes : Bytes) (remainder : Nat),
      remainder < 2 ^ 32 →
        bytes.foldl crcByte remainder < 2 ^ 32 := by
    intro bytes
    induction bytes with
    | nil =>
      intro remainder hBound
      exact hBound
    | cons byte rest ih =>
      intro remainder hBound
      exact ih _ (crcByte_lt hBound byte)
  exact Nat.xor_lt_two_pow (hFold bytes _ (by decide))
    (by decide)

/- The check value of the CRC: nine ASCII digits. -/
example :
    crc32 [0x31, 0x32, 0x33, 0x34, 0x35, 0x36, 0x37, 0x38,
      0x39] = 0xCBF43926 := by
  decide +kernel

end Struct

end Library
