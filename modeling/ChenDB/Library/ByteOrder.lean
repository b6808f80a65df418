import Mathlib.Data.String.Basic
import Mathlib.Order.Monotone.Basic
import ChenDB.Library.Struct

/-
  The order of byte strings: the first byte that differs
  decides, and a string comes before those it is a prefix of.

  Two strings diverge when some byte does decide, so that
  nothing after it matters. A code whose code words diverge in
  the order of what they stand for keeps the order of whole
  sequences; UTF-8 is one.
-/

--
-- Diverging Strings
--

namespace Library

namespace ByteOrder

open Struct (Bytes encode)

scoped instance byteOrder : LinearOrder UInt8 where
  le_refl := UInt8.le_refl
  le_trans _ _ _ := UInt8.le_trans
  le_antisymm _ _ := UInt8.le_antisymm
  le_total := UInt8.le_total
  lt_iff_le_not_ge first second := by
    rw [UInt8.lt_iff_toNat_lt, UInt8.le_iff_toNat_le,
      UInt8.le_iff_toNat_le]
    omega
  toDecidableLE := inferInstance
  toDecidableEq := inferInstance
  toDecidableLT := inferInstance

section Diverging

variable {α β : Type} [LinearOrder β]

/- Some item decides that the first comes before the second. -/
def Diverges (first second : List β) : Prop :=
  ∃ common low high rest rest',
    first = common ++ low :: rest ∧
    second = common ++ high :: rest' ∧
    low < high

variable {first second : List β}

theorem Diverges.lt
    (hDiverges : Diverges first second) :
    first < second := by
  rcases hDiverges with
    ⟨common, low, high, rest, rest', rfl, rfl, hLess⟩
  exact List.append_left_lt (List.Lex.rel hLess)

/- What follows does not matter. -/
theorem Diverges.append
    (hDiverges : Diverges first second)
    (more more' : List β) :
    Diverges (first ++ more) (second ++ more') := by
  rcases hDiverges with
    ⟨common, low, high, rest, rest', rfl, rfl, hLess⟩
  exact ⟨common, low, high, rest ++ more, rest' ++ more',
    by simp, by simp, hLess⟩

theorem Diverges.cons
    {first second : List β}
    (hDiverges : Diverges first second)
    (item : β) :
    Diverges (item :: first) (item :: second) := by
  rcases hDiverges with
    ⟨common, low, high, rest, rest', rfl, rfl, hLess⟩
  exact ⟨item :: common, low, high, rest, rest', rfl, rfl,
    hLess⟩

theorem diverges_head
    {low high : β}
    (hLess : low < high)
    (rest rest' : List β) :
    Diverges (low :: rest) (high :: rest') :=
  ⟨[], low, high, rest, rest', rfl, rfl, hLess⟩

/- A code whose words diverge in order keeps the order of
   sequences. -/
theorem flatMap_strictMono
    [LinearOrder α]
    {code : α → List β}
    (hCode : ∀ {low high : α},
      low < high → Diverges (code low) (code high))
    (hSome : ∀ item, code item ≠ []) :
    StrictMono fun items : List α => items.flatMap code := by
  intro first second hLess
  have hLex : List.Lex (· < ·) first second := hLess
  clear hLess
  induction hLex with
  | nil =>
    rename_i item rest
    show [] < (item :: rest).flatMap code
    rcases List.exists_cons_of_ne_nil (hSome item) with
      ⟨head, tail, hWord⟩
    rw [List.flatMap_cons, hWord]
    exact List.Lex.nil
  | rel hLess =>
    exact ((hCode hLess).append _ _).lt
  | cons _ ih => exact List.append_left_lt ih

end Diverging

--
-- Numbers
--

variable {low high : Nat}

theorem byte_lt
    (hLess : low < high)
    (hByte : high < 256) :
    UInt8.ofNat low < UInt8.ofNat high := by
  rw [UInt8.lt_iff_toNat_lt, UInt8.toNat_ofNat',
    UInt8.toNat_ofNat']
  omega

variable {width : Nat}

/- The most significant byte first. -/
theorem encode_reverse_diverges
    (hLess : low < high)
    (hFits : high < 256 ^ width) :
    Diverges (encode width low).reverse
      (encode width high).reverse := by
  induction width generalizing low high with
  | zero =>
    rw [Nat.pow_zero] at hFits
    omega
  | succ width ih =>
    rw [encode, encode, List.reverse_cons, List.reverse_cons]
    have hRest : high / 256 < 256 ^ width := by
      rw [Nat.pow_succ] at hFits
      omega
    rcases Nat.lt_or_ge (low / 256) (high / 256) with
      hAbove | hBelow
    · exact (ih hAbove hRest).append _ _
    · have hSame : low / 256 = high / 256 := by omega
      rw [hSame]
      refine ⟨_, UInt8.ofNat low, UInt8.ofNat high, [], [],
        rfl, rfl, ?_⟩
      rw [UInt8.lt_iff_toNat_lt, UInt8.toNat_ofNat',
        UInt8.toNat_ofNat']
      omega

theorem encode_reverse_lt
    (hLess : low < high)
    (hFits : high < 256 ^ width) :
    (encode width low).reverse <
      (encode width high).reverse :=
  (encode_reverse_diverges hLess hFits).lt

--
-- UTF-8
--

/- The first bytes decide, or are the same and the rest
   decides. -/
theorem diverges_byte
    {rest rest' : Bytes}
    (hFirst : low < high ∧ high < 256 ∨
      low = high ∧ Diverges rest rest') :
    Diverges (UInt8.ofNat low :: rest)
      (UInt8.ofNat high :: rest') := by
  rcases hFirst with ⟨hLess, hByte⟩ | ⟨rfl, hRest⟩
  · exact diverges_head (byte_lt hLess hByte) _ _
  · exact hRest.cons _

/-
  Code words of different lengths differ in the first byte,
  and code words of one length in the first digit of the code
  points, to base 64, that differs.
-/
theorem utf8EncodeChar_diverges
    {low high : Char}
    (hLess : low < high) :
    Diverges (String.utf8EncodeChar low)
      (String.utf8EncodeChar high) := by
  have hCodes : low.val.toNat < high.val.toNat := hLess
  have hRange : high.val.toNat < 0x110000 := by
    rcases high.valid with hSmall | hLarge
    · exact Nat.lt_trans hSmall (by decide)
    · exact hLarge.2
  simp only [String.utf8EncodeChar]
  generalize low.val.toNat = first at hCodes
  generalize high.val.toNat = second at hCodes hRange
  split
  · split
    · exact diverges_byte (.inl (by omega))
    split
    · exact diverges_byte (.inl (by omega))
    split
    · exact diverges_byte (.inl (by omega))
    · exact diverges_byte (.inl (by omega))
  split
  · rw [if_neg (by omega)]
    split
    · rcases Nat.lt_or_ge (first / 64) (second / 64) with
        hLead | hLead
      · exact diverges_byte (.inl (by omega))
      refine diverges_byte (.inr ⟨by omega, ?_⟩)
      exact diverges_byte (.inl (by omega))
    split
    · exact diverges_byte (.inl (by omega))
    · exact diverges_byte (.inl (by omega))
  split
  · rw [if_neg (by omega), if_neg (by omega)]
    split
    · rcases Nat.lt_or_ge (first / 4096) (second / 4096)
        with hLead | hLead
      · exact diverges_byte (.inl (by omega))
      refine diverges_byte (.inr ⟨by omega, ?_⟩)
      rcases Nat.lt_or_ge (first / 64) (second / 64) with
        hNext | hNext
      · exact diverges_byte (.inl (by omega))
      refine diverges_byte (.inr ⟨by omega, ?_⟩)
      exact diverges_byte (.inl (by omega))
    · exact diverges_byte (.inl (by omega))
  · rw [if_neg (by omega), if_neg (by omega),
      if_neg (by omega)]
    rcases Nat.lt_or_ge (first / 262144) (second / 262144)
      with hLead | hLead
    · exact diverges_byte (.inl (by omega))
    refine diverges_byte (.inr ⟨by omega, ?_⟩)
    rcases Nat.lt_or_ge (first / 4096) (second / 4096) with
      hNext | hNext
    · exact diverges_byte (.inl (by omega))
    refine diverges_byte (.inr ⟨by omega, ?_⟩)
    rcases Nat.lt_or_ge (first / 64) (second / 64) with
      hThird | hThird
    · exact diverges_byte (.inl (by omega))
    refine diverges_byte (.inr ⟨by omega, ?_⟩)
    exact diverges_byte (.inl (by omega))

/- The bytes of a text in UTF-8. -/
def utf8 (text : String) : Bytes :=
  text.toByteArray.data.toList

theorem utf8_eq_flatMap (text : String) :
    utf8 text = text.toList.flatMap String.utf8EncodeChar := by
  unfold utf8
  rw [← String.utf8Encode_toList]
  exact List.toList_data_toByteArray

/- The order of the bytes is the order of the code points. -/
theorem utf8_strictMono : StrictMono utf8 := by
  intro first second hLess
  rw [utf8_eq_flatMap, utf8_eq_flatMap]
  exact flatMap_strictMono utf8EncodeChar_diverges
    (fun _ => String.utf8EncodeChar_ne_nil)
    (String.lt_iff_toList_lt.mp hLess)

/- Texts of UTF-8 read back. -/
theorem fromUTF8?_utf8 (text : String) :
    String.fromUTF8? ⟨(utf8 text).toArray⟩ = some text := by
  have hSame : (⟨(utf8 text).toArray⟩ : ByteArray) =
      text.toByteArray := by
    apply ByteArray.ext
    exact Array.toArray_toList
  rw [hSame]
  unfold String.fromUTF8?
  rw [dif_pos text.isValidUTF8]
  rfl

end ByteOrder

end Library
