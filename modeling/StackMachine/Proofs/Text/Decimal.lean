import StackMachine.Operand.Reader
import StackMachine.Operand.Written
import Mathlib.Data.UInt
import Mathlib.Tactic.Common

namespace StackMachine

section Runs

variable {α : Type} {p : α → Bool} {run rest : List α}

/-- A run ends where the first element does not belong to it. -/
theorem takeWhile_run (hin : ∀ a ∈ run, p a = true) (hout : ∀ a ∈ rest.head?, p a = false) :
    (run ++ rest).takeWhile p = run := by
  rw [List.takeWhile_append_of_pos hin]
  cases rest with
  | nil => simp
  | cons a rest => simp [hout a rfl]

theorem dropWhile_run (hin : ∀ a ∈ run, p a = true) (hout : ∀ a ∈ rest.head?, p a = false) :
    (run ++ rest).dropWhile p = rest := by
  rw [List.dropWhile_append_of_pos hin]
  cases rest with
  | nil => rfl
  | cons a rest => simp [hout a rfl]

end Runs

namespace Text

def digitsOf (n : Nat) : List Char :=
  Nat.toDigits 10 n

@[simp] theorem toList_decimal (n : Nat) : (decimal n).toList = digitsOf n :=
  Nat.toList_repr

theorem digitsOf_ne_nil (n : Nat) : digitsOf n ≠ [] :=
  Nat.toDigits_ne_nil

theorem isDigit_of_mem_digitsOf {n : Nat} {c : Char} (h : c ∈ digitsOf n) : c.isDigit = true :=
  Nat.isDigit_of_mem_toDigits (by decide) (by decide) h

theorem natOfDigits?_digitsOf (n : Nat) : natOfDigits? (digitsOf n) = some n := by
  have hempty : (digitsOf n).isEmpty = false := by
    simpa using digitsOf_ne_nil n
  have hall : (digitsOf n).all Char.isDigit = true :=
    List.all_eq_true.mpr fun c hc => isDigit_of_mem_digitsOf hc
  simp only [natOfDigits?, hempty, hall, Bool.not_true, Bool.or_self, Bool.false_eq_true,
    ↓reduceIte]
  exact congrArg some Nat.ofDigitChars_ten_toDigits

/-- A text that does not start with a sign is read as a number without one. -/
theorem int?_digitsOf (n : Nat) : int? (digitsOf n) = some (n : Int) := by
  have hread := natOfDigits?_digitsOf n
  unfold int?
  split
  · rename_i digits heq
    have hdigit : ('-' : Char).isDigit = true :=
      isDigit_of_mem_digitsOf (n := n) (by simp [heq])
    cases hdigit
  · rename_i digits heq
    have hdigit : ('+' : Char).isDigit = true :=
      isDigit_of_mem_digitsOf (n := n) (by simp [heq])
    cases hdigit
  · rw [hread]
    rfl

theorem toList_signed (i : Int) : (signed i).toList =
    if i < 0 then '-' :: digitsOf i.natAbs else digitsOf i.natAbs := by
  unfold signed
  split <;> simp

/-- A number that was written is read back. -/
theorem int?_signed (i : Int) : int? (signed i).toList = some i := by
  rw [toList_signed]
  split
  · have hread : int? ('-' :: digitsOf i.natAbs) = some (-(i.natAbs : Int)) := by
      simp [int?, natOfDigits?_digitsOf]
    rw [hread]
    congr 1
    omega
  · rw [int?_digitsOf]
    congr 1
    omega

theorem int32?_signed (value : Int32) : int32? (signed value.toInt).toList = some value := by
  have hleast := value.le_toInt
  have hgreatest := value.toInt_lt
  simp only [int32?, int?_signed]
  rw [if_pos ⟨hleast, hgreatest⟩, Int32.ofInt_toInt]

end Text

namespace Bytes

theorem toNat_toUInt8 (c : Char) : c.toUInt8.toNat = c.toNat % 256 := rfl

/-- A text of ASCII characters has one byte for each of them. -/
theorem ofChars_ascii {text : List Char} (h : ∀ c ∈ text, c.toNat < 128) :
    ofChars text = text.map Char.toUInt8 := by
  induction text with
  | nil => rfl
  | cons c text ih =>
    have hc : c.val.toNat ≤ 127 := Nat.le_of_lt_succ (h c List.mem_cons_self)
    have hhead : String.utf8EncodeChar c = [c.toUInt8] := by
      rw [String.utf8EncodeChar]
      exact if_pos hc
    rw [List.map_cons, ← ih fun c' hc' => h c' (List.mem_cons_of_mem c hc')]
    simp [ofChars, hhead]

/-- The first characters of a text are dropped by the number of their bytes. -/
theorem dropBytes?_append (text rest : List Char) :
    dropBytes? (ofChars text).length (text ++ rest) = some rest := by
  induction text with
  | nil => simp [ofChars, dropBytes?]
  | cons c text ih =>
    have hsize : (ofChars (c :: text)).length = c.utf8Size + (ofChars text).length := by
      simp [ofChars, String.length_utf8EncodeChar]
    have hpos := c.utf8Size_pos
    obtain ⟨n, hn⟩ : ∃ n, c.utf8Size + (ofChars text).length = n + 1 :=
      ⟨c.utf8Size + (ofChars text).length - 1, by omega⟩
    rw [hsize, hn, List.cons_append, dropBytes?, if_pos (by omega), ← hn, Nat.add_sub_cancel_left]
    exact ih

end Bytes

namespace Operand

def digitBytes (n : Nat) : List UInt8 :=
  (Text.digitsOf n).map Char.toUInt8

theorem bounds_of_isDigit {c : Char} (h : c.isDigit = true) : 48 ≤ c.toNat ∧ c.toNat ≤ 57 := by
  simpa [Char.isDigit, UInt32.le_iff_toNat_le] using h

theorem isDigitByte_toUInt8 {c : Char} (h : c.isDigit = true) :
    isDigitByte c.toUInt8 = true := by
  obtain ⟨hlow, hhigh⟩ := bounds_of_isDigit h
  have hbyte := Bytes.toNat_toUInt8 c
  simp only [isDigitByte, UInt8.le_iff_toNat_le, hbyte, Bool.and_eq_true, decide_eq_true_eq,
    UInt8.reduceToNat]
  omega

theorem isDigitByte_of_mem {n : Nat} {b : UInt8} (h : b ∈ digitBytes n) : isDigitByte b = true := by
  obtain ⟨c, hc, rfl⟩ := List.mem_map.mp h
  exact isDigitByte_toUInt8 (Text.isDigit_of_mem_digitsOf hc)

theorem digitBytes_ne_nil (n : Nat) : digitBytes n ≠ [] := by
  simpa [digitBytes] using Text.digitsOf_ne_nil n

/-- Nothing that follows belongs to a number. -/
def EndsNumber (rest : List UInt8) : Prop :=
  ∀ b ∈ rest.head?, isDigitByte b = false

/-- ASCII blanks. -/
def Blanks (run : List UInt8) : Prop :=
  ∀ b ∈ run, isBlankByte b = true

theorem skipBlanks_append {blanks rest : List UInt8} (hb : Blanks blanks)
    (hr : ∀ b ∈ rest.head?, isBlankByte b = false) : skipBlanks (blanks ++ rest) = rest :=
  dropWhile_run hb hr

theorem not_blank_of_isDigitByte {b : UInt8} (h : isDigitByte b = true) :
    isBlankByte b = false := by
  simp only [isDigitByte, Bool.and_eq_true, decide_eq_true_eq, UInt8.le_iff_toNat_le,
    UInt8.reduceToNat] at h
  simp only [isBlankByte, Bool.or_eq_false_iff, beq_eq_false_iff_ne, ne_eq]
  refine ⟨⟨⟨⟨?_, ?_⟩, ?_⟩, ?_⟩, ?_⟩ <;> rintro rfl <;> simp at h

def signedBytes (value : Int32) : List UInt8 :=
  (Text.signed value.toInt).toList.map Char.toUInt8

theorem signedBytes_eq (value : Int32) : signedBytes value =
    if value.toInt < 0 then '-'.toUInt8 :: digitBytes value.toInt.natAbs
    else digitBytes value.toInt.natAbs := by
  unfold signedBytes
  rw [Text.toList_signed]
  split <;> rfl

end Operand

end StackMachine
