import Mathlib.Data.Nat.Bitwise
import ChenDB.Executor.Binary64
import ChenDB.Indexing.Key
import ChenDB.Library.ByteOrder

/-
  The order of index keys is the order of what they encode, and
  a key reads back.
-/

--
-- Doubles
--

namespace ChenDB

namespace Indexing

open Executor (Binary64 Value int64Min int64Max)
open Library.ByteOrder (utf8)
open scoped Library.ByteOrder
open Library.Struct (Bytes decode)

def signBit : BitVec 64 := 0x8000000000000000

def allOnes : BitVec 64 := 0xFFFFFFFFFFFFFFFF

/- `_float_to_sortable`, where minus zero is zero. -/
def floatToSortable (value : Binary64) : BitVec 64 :=
  let bits := if value.magnitude = 0 then 0 else value.bits
  if bits &&& signBit ≠ 0 then bits ^^^ allOnes
  else bits ||| signBit

/- `_sortable_to_float_bits`. -/
def sortableToFloatBits (sortable : BitVec 64) : BitVec 64 :=
  if sortable &&& signBit ≠ 0 then sortable &&& ~~~signBit
  else sortable ^^^ allOnes

theorem and_signBit (bits : BitVec 64) :
    bits &&& signBit ≠ 0 ↔ 2 ^ 63 ≤ bits.toNat := by
  have hBits := bits.isLt
  have hAnd : (bits &&& signBit).toNat =
      (bits.toNat.testBit 63).toNat * 2 ^ 63 := by
    rw [BitVec.toNat_and]
    exact Nat.and_two_pow _ 63
  have hZero : bits &&& signBit = 0 ↔
      (bits &&& signBit).toNat = 0 :=
    ⟨fun hSame => by rw [hSame]; rfl,
      fun hSame => BitVec.eq_of_toNat_eq hSame⟩
  have hTop : bits.toNat / 2 ^ 63 % 2 = 1 ↔
      2 ^ 63 ≤ bits.toNat := by omega
  rw [ne_eq, hZero, hAnd, Nat.testBit_eq_decide_div_mod_eq,
    ← hTop]
  by_cases hBit : bits.toNat / 2 ^ 63 % 2 = 1
  · rw [decide_eq_true hBit]
    exact iff_of_true (by decide) hBit
  · rw [decide_eq_false hBit]
    exact iff_of_false (by decide) hBit

theorem toNat_or_signBit
    {bits : BitVec 64}
    (hPlus : bits.toNat < 2 ^ 63) :
    (bits ||| signBit).toNat = 2 ^ 63 + bits.toNat := by
  have hOr := Nat.two_pow_add_eq_or_of_lt hPlus 1
  rw [BitVec.toNat_or, Nat.or_comm]
  rw [Nat.mul_one] at hOr
  exact hOr.symm

theorem toNat_xor_allOnes (bits : BitVec 64) :
    (bits ^^^ allOnes).toNat = 2 ^ 64 - 1 - bits.toNat := by
  have hOnes : allOnes = BitVec.allOnes 64 := by decide
  rw [hOnes, BitVec.xor_allOnes, BitVec.toNat_not]

theorem toNat_clear_signBit (bits : BitVec 64) :
    (bits &&& ~~~signBit).toNat = bits.toNat % 2 ^ 63 := by
  rw [BitVec.toNat_and]
  exact Nat.and_two_pow_sub_one_eq_mod bits.toNat 63

/- Above zero the pattern and the sign bit; below it, what is
   missing to all ones. -/
theorem floatToSortable_toNat (value : Binary64) :
    ((floatToSortable value).toNat : Int) =
      if value.signed < 0 then 2 ^ 63 - 1 + value.signed
      else 2 ^ 63 + value.signed := by
  have hBits := value.bits.isLt
  unfold floatToSortable Binary64.signed
  by_cases hZero : value.magnitude = 0
  · rw [if_pos hZero, hZero]
    simp
    rfl
  · simp only [hZero, if_false]
    have hMagnitude : value.magnitude =
        value.bits.toNat % 2 ^ 63 := rfl
    by_cases hSign : 2 ^ 63 ≤ value.bits.toNat
    · have hMinus : value.sign = true := decide_eq_true hSign
      rw [if_pos ((and_signBit _).mpr hSign),
        toNat_xor_allOnes, hMinus, if_pos rfl,
        if_pos (by omega)]
      omega
    · have hPlus : value.sign = false :=
        decide_eq_false hSign
      rw [if_neg (fun hAnd => hSign ((and_signBit _).mp hAnd)),
        toNat_or_signBit (by omega), hPlus,
        if_neg Bool.false_ne_true, if_neg (by omega)]
      omega

theorem floatToSortable_lt
    {low high : Binary64}
    (hLess : low.signed < high.signed) :
    (floatToSortable low).toNat <
      (floatToSortable high).toNat := by
  have hLow := floatToSortable_toNat low
  have hHigh := floatToSortable_toNat high
  split at hLow <;> split at hHigh <;> omega

theorem floatToSortable_eq
    {first second : Binary64}
    (hSame : first.signed = second.signed) :
    (floatToSortable first).toNat =
      (floatToSortable second).toNat := by
  have hFirst := floatToSortable_toNat first
  have hSecond := floatToSortable_toNat second
  rw [hSame] at hFirst
  omega

/- A double with minus zero taken for zero. -/
def withoutMinusZero (value : Binary64) : Binary64 :=
  if value.magnitude = 0 then ⟨0⟩ else value

theorem signed_withoutMinusZero (value : Binary64) :
    (withoutMinusZero value).signed = value.signed := by
  unfold withoutMinusZero
  split
  · rename_i hZero
    have hNone : (⟨0⟩ : Binary64).signed = 0 := rfl
    rw [hNone]
    unfold Binary64.signed
    rw [hZero]
    simp
  · rfl

theorem sortableToFloatBits_floatToSortable
    (value : Binary64) :
    sortableToFloatBits (floatToSortable value) =
      (withoutMinusZero value).bits := by
  have hBits := value.bits.isLt
  apply BitVec.eq_of_toNat_eq
  unfold floatToSortable withoutMinusZero
  by_cases hZero : value.magnitude = 0
  · rw [if_pos hZero, if_pos hZero]
    rfl
  · simp only [hZero, if_false]
    unfold sortableToFloatBits
    by_cases hSign : 2 ^ 63 ≤ value.bits.toNat
    · rw [if_pos ((and_signBit _).mpr hSign)]
      have hFlipped := toNat_xor_allOnes value.bits
      rw [if_neg (fun hAnd => by
        have hTop := (and_signBit _).mp hAnd
        omega), toNat_xor_allOnes]
      omega
    · rw [if_neg (fun hAnd => hSign ((and_signBit _).mp hAnd))]
      have hLifted := toNat_or_signBit
        (by omega : value.bits.toNat < 2 ^ 63)
      rw [if_pos ((and_signBit _).mpr (by omega)),
        toNat_clear_signBit]
      omega

/- What Python writes of a value, of a key, and of bytes that
   are not UTF-8. -/
class KeyTexts where
  render : Value Binary64 → String
  describe : DataType → List UInt8 → String
  decodeError : Bytes → String

variable [KeyTexts]

instance : SortableDouble Binary64 where
  sortable := fun
    | .inl value => some (floatToSortable value).toNat
    | .inr number => (Binary64.ofInt number).map fun value =>
      (floatToSortable value).toNat
  bounded := by
    intro value bits hBits
    cases value with
    | inl value =>
      cases hBits
      exact (floatToSortable value).isLt
    | inr number =>
      rcases Option.map_eq_some_iff.mp hBits with
        ⟨value, _, rfl⟩
      exact (floatToSortable value).isLt
  render := KeyTexts.render
  describe := KeyTexts.describe

--
-- Decoding
--

/- The lowest key of a value. -/
def smallestValueKey : Key := valuePrefix

def fromBigEndian (body : Bytes) : Nat :=
  decode body.reverse

omit [KeyTexts] in
theorem fromBigEndian_bigEndian
    {value : Nat}
    (hFits : value < 256 ^ 8) :
    fromBigEndian (bigEndian value) = value := by
  unfold fromBigEndian bigEndian
  rw [List.reverse_reverse, Library.Struct.decode_encode hFits]

omit [KeyTexts] in
@[simp] theorem length_bigEndian (value : Nat) :
    (bigEndian value).length = 8 := by
  simp [bigEndian]

omit [KeyTexts] in
theorem bigEndian_lt
    {low high : Nat}
    (hLess : low < high)
    (hFits : high < 256 ^ 8) :
    bigEndian low < bigEndian high :=
  Library.ByteOrder.encode_reverse_lt hLess hFits

/- `_require`. -/
def require
    (body : Bytes)
    (size : Nat)
    (typeName : String) : Except EngineError Unit :=
  if body.length ≠ size then
    .error (.serializationError
      (s!"{typeName} index key should be {size} bytes, " ++
        s!"got {body.length}"))
  else .ok ()

/- Two digits to base sixteen. -/
def hexByte (byte : UInt8) : String :=
  String.ofList [Nat.digitChar (byte.toNat / 16),
    Nat.digitChar (byte.toNat % 16)]

def decodeBody (body : Bytes) :
    DataType → Except EngineError (Value Binary64)
  | .integer => do
      require body 8 "INTEGER"
      pure (.int (fromBigEndian body - intBias))
  | .float => do
      require body 8 "FLOAT"
      pure (.float ⟨sortableToFloatBits
        (BitVec.ofNat 64 (fromBigEndian body))⟩)
  | .boolean => do
      require body 1 "BOOLEAN"
      pure (.bool (body.head? ≠ some 0))
  | .text =>
    match String.fromUTF8? ⟨body.toArray⟩ with
    | some text => .ok (.text text)
    | none => .error (.serializationError
        ("index key is not valid UTF-8: " ++
          KeyTexts.decodeError body))

def decodeKey
    (key : Key)
    (dataType : DataType) :
    Except EngineError (Value Binary64) :=
  match key with
  | [] => .error (.serializationError "index key is empty")
  | tag :: body =>
    if tag = 0 then
      .error (.serializationError
        "minus infinity is a separator, not a value")
    else if tag = 1 then .ok .null
    else if tag ≠ 2 then
      .error (.serializationError
        ("unknown index key tag 0x" ++ hexByte tag))
    else decodeBody body dataType

--
-- The Order of Keys
--

/- A value, other than NULL, that a column of the type can
   hold. -/
inductive Storable : DataType → Value Binary64 → Prop where
  | integer {number : Int} :
      int64Min ≤ number → number ≤ int64Max →
      Storable .integer (.int number)
  | float {value : Binary64} :
      value.isFinite = true → Storable .float (.float value)
  | boolean (flag : Bool) : Storable .boolean (.bool flag)
  | text (text : String) : Storable .text (.text text)

variable {dataType : DataType} {value : Value Binary64}

omit [KeyTexts] in
theorem Storable.known
    (hStorable : Storable dataType value) :
    value.isNull = false := by
  cases hStorable <;> rfl

/- Numbers by size, FALSE before TRUE, and texts by the first
   code point that differs. -/
def Lower : Value Binary64 → Value Binary64 → Prop
  | .int low, .int high => low < high
  | .float low, .float high => low.signed < high.signed
  | .bool low, .bool high => low = false ∧ high = true
  | .text low, .text high => low.toList < high.toList
  | _, _ => False

/- The same value, or the two zeros. -/
def Alike : Value Binary64 → Value Binary64 → Prop
  | .float first, .float second =>
    first.signed = second.signed
  | first, second => first = second

def normal : Value Binary64 → Value Binary64
  | .float value => .float (withoutMinusZero value)
  | value => value

/- What stands after the tag. -/
def payload : Value Binary64 → Bytes
  | .null => []
  | .int number => bigEndian (number + intBias).toNat
  | .float value => bigEndian (floatToSortable value).toNat
  | .bool flag => [if flag then 1 else 0]
  | .text text => utf8 text

theorem encodeKey_payload
    (hStorable : Storable dataType value) :
    encodeKey value dataType =
      .ok (valuePrefix ++ payload value) := by
  cases hStorable with
  | integer hLow hHigh =>
    simp only [encodeKey]
    rw [if_pos ⟨hLow, hHigh⟩]
    rfl
  | float hFinite => rfl
  | boolean flag => rfl
  | text text => rfl

omit [KeyTexts] in
theorem payload_lt
    {low high : Value Binary64}
    (hLow : Storable dataType low)
    (hHigh : Storable dataType high)
    (hLower : Lower low high) :
    payload low < payload high := by
  cases hLow with
  | integer hFrom hTo =>
    cases hHigh with
    | integer hFrom' hTo' =>
      rename_i number number'
      have hLess : number < number' := hLower
      unfold int64Min at hFrom hFrom'
      unfold int64Max at hTo hTo'
      exact bigEndian_lt
        (by unfold intBias; omega)
        (by unfold intBias; omega)
  | float hFinite =>
    cases hHigh with
    | float hFinite' =>
      rename_i value value'
      exact bigEndian_lt (floatToSortable_lt hLower)
        (floatToSortable value').isLt
  | boolean flag =>
    cases hHigh with
    | boolean flag' =>
      rcases hLower with ⟨rfl, rfl⟩
      exact List.Lex.rel (by decide)
  | text text =>
    cases hHigh with
    | text text' =>
      exact Library.ByteOrder.utf8_strictMono
        (String.lt_iff_toList_lt.mpr hLower)

variable {first second : Value Binary64}

omit [KeyTexts] in
theorem payload_eq
    (hFirst : Storable dataType first)
    (hAlike : Alike first second) :
    payload first = payload second := by
  cases hFirst with
  | float hFinite =>
    cases second with
    | float value =>
      exact congrArg bigEndian (floatToSortable_eq hAlike)
    | _ => cases hAlike
  | _ => exact congrArg payload hAlike

omit [KeyTexts] in
/- Of two values of a type, one is below the other or they are
   alike. -/
theorem lower_trichotomy
    (hFirst : Storable dataType first)
    (hSecond : Storable dataType second) :
    Lower first second ∨ Alike first second ∨
      Lower second first := by
  cases hFirst with
  | integer _ _ =>
    cases hSecond with
    | integer _ _ =>
      rename_i number _ _ number' _ _
      rcases Int.lt_trichotomy number number' with
        hLess | rfl | hMore
      · exact .inl hLess
      · exact .inr (.inl rfl)
      · exact .inr (.inr hMore)
  | float _ =>
    cases hSecond with
    | float _ =>
      rename_i value _ value' _
      exact Int.lt_trichotomy value.signed value'.signed
  | boolean flag =>
    cases hSecond with
    | boolean flag' =>
      cases flag <;> cases flag' <;> simp [Lower, Alike]
  | text text =>
    cases hSecond with
    | text text' =>
      rcases lt_trichotomy text.toList text'.toList with
        hLess | hSame | hMore
      · exact .inl hLess
      · exact .inr (.inl
          (congrArg Value.text
            (String.toList_inj.mp hSame)))
      · exact .inr (.inr hMore)

/- Any double reads back, but for the sign of zero. -/
theorem decodeKey_float (value : Binary64) :
    decodeKey
        (valuePrefix ++ bigEndian (floatToSortable value).toNat)
        .float =
      .ok (.float (withoutMinusZero value)) := by
  have hFits : (floatToSortable value).toNat < 256 ^ 8 :=
    (floatToSortable value).isLt
  have hBody : decodeKey
      (valuePrefix ++ bigEndian (floatToSortable value).toNat)
        .float =
      decodeBody (bigEndian (floatToSortable value).toNat)
        .float := rfl
  rw [hBody]
  unfold decodeBody require
  rw [length_bigEndian, fromBigEndian_bigEndian hFits,
    BitVec.ofNat_toNat, BitVec.setWidth_eq,
    sortableToFloatBits_floatToSortable]
  rfl

theorem decodeKey_payload
    (hStorable : Storable dataType value) :
    decodeKey (valuePrefix ++ payload value) dataType =
      .ok (normal value) := by
  have hBody : decodeKey (valuePrefix ++ payload value)
      dataType = decodeBody (payload value) dataType := rfl
  rw [hBody]
  cases hStorable with
  | integer hLow hHigh =>
    rename_i number
    unfold int64Min at hLow
    unfold int64Max at hHigh
    have hFits : (number + intBias).toNat < 256 ^ 8 := by
      unfold intBias
      omega
    have hBack : ((number + intBias).toNat : Int) - intBias =
        number := by
      unfold intBias
      omega
    unfold decodeBody payload require normal
    rw [length_bigEndian, fromBigEndian_bigEndian hFits, hBack]
    rfl
  | float hFinite => exact decodeKey_float _
  | boolean flag => cases flag <;> rfl
  | text text =>
    unfold decodeBody payload normal
    simp only [Library.ByteOrder.fromUTF8?_utf8]

/-
  The key of a value compares as the value does, above the key
  of NULL and the separator below that, and reads back as the
  value but for the sign of zero.
-/
theorem encodeKey_order
    (dataType : DataType)
    (first second : Value Binary64)
    (hFirst : Storable dataType first)
    (hSecond : Storable dataType second) :
    ∃ key key',
      encodeKey first dataType = .ok key ∧
      encodeKey second dataType = .ok key' ∧
      (key < key' ↔ Lower first second) ∧
      (key = key' ↔ Alike first second) ∧
      encodeKey (.null : Value Binary64) dataType =
        .ok nullKey ∧
      minusInfinity < nullKey ∧
      nullKey < key ∧
      smallestValueKey ≤ key ∧
      decodeKey key dataType = .ok (normal first) ∧
      decodeKey nullKey dataType = .ok .null := by
  have hLess : ∀ {low high : Value Binary64},
      Storable dataType low → Storable dataType high →
      Lower low high →
      valuePrefix ++ payload low <
        valuePrefix ++ payload high :=
    fun hLow hHigh hLower =>
      List.append_left_lt (payload_lt hLow hHigh hLower)
  have hSame : Alike first second →
      valuePrefix ++ payload first =
        valuePrefix ++ payload second :=
    fun hAlike => congrArg _ (payload_eq hFirst hAlike)
  refine ⟨_, _, encodeKey_payload hFirst,
    encodeKey_payload hSecond, ⟨?_, hLess hFirst hSecond⟩,
    ⟨?_, hSame⟩, rfl, List.Lex.rel (by decide),
    List.Lex.rel (by decide), ?_, decodeKey_payload hFirst,
    rfl⟩
  · intro hKeys
    rcases lower_trichotomy hFirst hSecond with
      hLower | hAlike | hAbove
    · exact hLower
    · exact absurd (hSame hAlike) hKeys.ne
    · exact absurd (hLess hSecond hFirst hAbove) hKeys.asymm
  · intro hKeys
    rcases lower_trichotomy hFirst hSecond with
      hLower | hAlike | hAbove
    · exact absurd hKeys (hLess hFirst hSecond hLower).ne
    · exact hAlike
    · exact absurd hKeys.symm (hLess hSecond hFirst hAbove).ne
  · cases hPayload : payload first with
    | nil => exact le_of_eq (List.append_nil _).symm
    | cons head tail => exact le_of_lt (List.Lex.cons .nil)

omit [KeyTexts] in
theorem encodeKey_order_minusOne :
    ∃ _ : KeyTexts, ∃ key key',
      encodeKey (.int (-1) : Value Binary64) .integer =
        .ok key ∧
      encodeKey (.int 0 : Value Binary64) .integer = .ok key' ∧
      key < key' := by
  let texts : KeyTexts :=
    ⟨fun _ => "", fun _ _ => "", fun _ => ""⟩
  refine ⟨texts, ?_⟩
  rcases encodeKey_order .integer (.int (-1)) (.int 0)
    (.integer (by decide) (by decide))
    (.integer (by decide) (by decide)) with
    ⟨key, key', hKey, hKey', hLess, _⟩
  exact ⟨key, key', hKey, hKey',
    hLess.mpr (show (-1 : Int) < 0 by decide)⟩

end Indexing

end ChenDB
