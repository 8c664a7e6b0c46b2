import Mathlib.Data.List.TakeWhile
import Mathlib.Data.Nat.Digits.Defs
import StackMachine.Proofs.Text.Decimal

namespace StackMachine.Operand

/-- The number that decimal digits stand for. -/
def decimalValue (digits : List UInt8) : Nat :=
  Nat.ofDigits 10 (digits.map fun b => b.toNat - 0x30).reverse

/-- A run of decimal digits. -/
structure Digits (run : List UInt8) : Prop where
  ne_nil : run ≠ []
  digit : ∀ b ∈ run, isDigitByte b = true

instance (run : List UInt8) : Decidable (Digits run) :=
  decidable_of_iff (run ≠ [] ∧ run.all isDigitByte = true)
    ⟨fun h => ⟨h.1, List.all_eq_true.mp h.2⟩, fun h => ⟨h.ne_nil, List.all_eq_true.mpr h.digit⟩⟩

/-- A number as it is spelled, with a sign or without one, and what it stands for exactly. -/
inductive Numeral : List UInt8 → Int → Prop
  | unsigned {digits : List UInt8} (h : Digits digits) : Numeral digits (decimalValue digits)
  | positive {digits : List UInt8} (h : Digits digits) :
      Numeral ('+'.toUInt8 :: digits) (decimalValue digits)
  | negative {digits : List UInt8} (h : Digits digits) :
      Numeral ('-'.toUInt8 :: digits) (-(decimalValue digits : Int))

def nameBytes (index : UInt8) : List UInt8 :=
  ['R'.toUInt8, 'A'.toUInt8 + index, 'X'.toUInt8]

/-- A register and an offset in brackets as they are spelled, with the exact offset. -/
inductive Displaced : List UInt8 → UInt8 → Int → Prop
  | intro {w₁ w₂ w₃ w₄ w₅ numeral : List UInt8} {base : UInt8} {minus : Bool} {n : Int}
      (h₁ : Blanks w₁) (h₂ : Blanks w₂) (h₃ : Blanks w₃) (h₄ : Blanks w₄) (h₅ : Blanks w₅)
      (hb : base.toNat < namedRegisters) (hn : Numeral numeral n) :
      Displaced (w₁ ++ ['['.toUInt8] ++ w₂ ++ nameBytes base ++ w₃ ++
        [if minus then '-'.toUInt8 else '+'.toUInt8] ++ w₄ ++ numeral ++ w₅ ++ [']'.toUInt8])
        base (if minus then -n else n)

/-- The letters that stand for a control character behind a backslash. -/
def controlCodes : List (UInt8 × UInt8) :=
  [('n'.toUInt8, 0x0A), ('t'.toUInt8, 0x09), ('r'.toUInt8, 0x0D), ('v'.toUInt8, 0x0B),
   ('a'.toUInt8, 0x07), ('f'.toUInt8, 0x0C)]

/-- The forms that an operand can have, from the earliest to the last. -/
inductive Form where
  | offset
  | pointer
  | cell
  | register
  | number
  | character
  | escape
  deriving Repr, DecidableEq

namespace Form

def all : List Form :=
  [offset, pointer, cell, register, number, character, escape]

def reader : Form → Reader Operand
  | offset => indexedForm
  | pointer => pointerForm
  | cell => memoryForm
  | register => registerForm
  | number => numberForm
  | character => characterForm
  | escape => escapeForm

/-- How each form is spelled, and the operand that it stands for. -/
inductive Spells : Form → List UInt8 → Operand → Prop
  | offset {taken : List UInt8} {base : UInt8} {distance : Int}
      (h : Displaced taken base distance) :
      Spells offset taken (.indexed base (Int32.ofInt distance))
  | pointer {w₁ w₂ w₃ : List UInt8} {base : UInt8}
      (h₁ : Blanks w₁) (h₂ : Blanks w₂) (h₃ : Blanks w₃) (hb : base.toNat < namedRegisters) :
      Spells pointer (w₁ ++ ['['.toUInt8] ++ w₂ ++ nameBytes base ++ w₃ ++ [']'.toUInt8])
        (.indexed base 0)
  | cell {w₁ w₂ w₃ numeral : List UInt8} {n : Int}
      (h₁ : Blanks w₁) (h₂ : Blanks w₂) (h₃ : Blanks w₃) (hn : Numeral numeral n) :
      Spells cell (w₁ ++ ['['.toUInt8] ++ w₂ ++ numeral ++ w₃ ++ [']'.toUInt8])
        (.memory (Int32.ofInt n))
  | register {w : List UInt8} {index : UInt8} (h : Blanks w) (hi : index.toNat < namedRegisters) :
      Spells register (w ++ nameBytes index) (.register index)
  | number {w numeral : List UInt8} {n : Int} (h : Blanks w) (hn : Numeral numeral n) :
      Spells number (w ++ numeral) (.immediate (Int32.ofInt n))
  | character {w : List UInt8} {c : UInt8} (h : Blanks w) :
      Spells character (w ++ ['\''.toUInt8, c, '\''.toUInt8]) (.immediate c.toUInt32.toInt32)
  | escape {w : List UInt8} {c : UInt8} (h : Blanks w) :
      Spells escape (w ++ ['\''.toUInt8, '\\'.toUInt8, c, '\''.toUInt8])
        (.immediate ((controlCodes.lookup c).getD c).toUInt32.toInt32)

/-- A form matches the start of a text, of which it takes some bytes. A number takes all digits that
there are; in brackets no digit can follow it. -/
def Matches (form : Form) (text : List UInt8) (o : Operand) (used : Nat) : Prop :=
  ∃ taken rest, text = taken ++ rest ∧ used = taken.length ∧ form.Spells taken o ∧
    (form = .number → EndsNumber rest)

end Form

theorem forms_eq : forms = Form.all.map Form.reader := rfl

section Pieces

variable {text rest : List UInt8} {c : Char}

theorem expect_self (c : Char) : expect c (c.toUInt8 :: rest) = some rest := by
  simp [expect]

theorem expect_eq_some_iff : expect c text = some rest ↔ text = c.toUInt8 :: rest := by
  cases text with
  | nil => simp [expect]
  | cons b text =>
    simp only [expect, Option.ite_none_right_eq_some, Option.some.injEq, List.cons.injEq]

theorem anyByte_eq_some_iff {b : UInt8} : anyByte text = some (b, rest) ↔ text = b :: rest := by
  cases text <;> simp [anyByte]

/-- What is left when blanks are skipped starts with something else. -/
theorem skipBlanks_eq_cons_iff {b : UInt8} :
    skipBlanks text = b :: rest ↔
      isBlankByte b = false ∧ ∃ w, Blanks w ∧ text = w ++ b :: rest := by
  constructor
  · intro h
    have hstop := List.head?_dropWhile_not isBlankByte text
    have hsplit := @List.takeWhile_append_dropWhile _ isBlankByte text
    rw [skipBlanks] at h
    rw [h] at hstop hsplit
    exact ⟨hstop, text.takeWhile isBlankByte, fun b' hb => List.mem_takeWhile_imp hb, hsplit.symm⟩
  · rintro ⟨hb, w, hw, rfl⟩
    apply skipBlanks_append hw
    rintro b' ⟨⟩
    exact hb

theorem expect_skipBlanks_iff (hc : isBlankByte c.toUInt8 = false) :
    expect c (skipBlanks text) = some rest ↔ ∃ w, Blanks w ∧ text = w ++ c.toUInt8 :: rest := by
  rw [expect_eq_some_iff, skipBlanks_eq_cons_iff]
  simp only [hc, true_and]

theorem registerIndex_nameBytes {index : UInt8} (h : index.toNat < namedRegisters) :
    registerIndex (nameBytes index ++ rest) = some (index, rest) := by
  have hlt : index.toNat < 26 := h
  have hletter : 'A'.toUInt8 ≤ 'A'.toUInt8 + index ∧ 'A'.toUInt8 + index ≤ 'Z'.toUInt8 := by
    have hfirst : 'A'.toUInt8.toNat = 65 := rfl
    have hlast : 'Z'.toUInt8.toNat = 90 := rfl
    simp only [UInt8.le_iff_toNat_le, UInt8.toNat_add, hfirst, hlast]
    omega
  simp only [registerIndex, nameBytes, List.cons_append, List.nil_append, bind, Option.bind,
    expect_self, anyByte]
  rw [if_pos hletter]
  simp

/-- Only capital letters are in the names of registers. -/
theorem toNat_sub_letter {letter : UInt8}
    (h : 'A'.toUInt8 ≤ letter ∧ letter ≤ 'Z'.toUInt8) :
    (letter - 'A'.toUInt8).toNat < namedRegisters := by
  have hfirst : 'A'.toUInt8.toNat = 65 := rfl
  have hlast : 'Z'.toUInt8.toNat = 90 := rfl
  have hle := h.1
  simp only [UInt8.le_iff_toNat_le, hfirst, hlast] at h
  simp only [UInt8.toNat_sub_of_le _ _ hle, hfirst, namedRegisters]
  omega

theorem registerIndex_eq_some_iff {index : UInt8} :
    registerIndex text = some (index, rest) ↔
      index.toNat < namedRegisters ∧ text = nameBytes index ++ rest := by
  constructor
  · intro h
    simp only [registerIndex, bind, Option.bind_eq_some_iff, expect_eq_some_iff, Prod.exists,
      anyByte_eq_some_iff, Option.ite_none_right_eq_some, Option.some.injEq, Prod.mk.injEq] at h
    obtain ⟨_, rfl, letter, _, rfl, _, rfl, hletter, rfl, rfl⟩ := h
    exact ⟨toNat_sub_letter hletter, by simp [nameBytes]⟩
  · rintro ⟨hi, rfl⟩
    exact registerIndex_nameBytes hi

theorem registerIndex_skipBlanks_iff {index : UInt8} :
    registerIndex (skipBlanks text) = some (index, rest) ↔
      index.toNat < namedRegisters ∧ ∃ w, Blanks w ∧ text = w ++ nameBytes index ++ rest := by
  have hletter : isBlankByte 'R'.toUInt8 = false := by decide
  simp only [registerIndex_eq_some_iff, nameBytes, List.cons_append, List.nil_append,
    skipBlanks_eq_cons_iff, hletter, true_and, List.append_assoc]

end Pieces

section Numbers

variable {text rest digits : List UInt8}

theorem toInt32_sub_of_digit {b : UInt8} (h : isDigitByte b = true) :
    (b - 0x30).toUInt32.toInt32 = Int32.ofNat (b.toNat - 0x30) := by
  simp only [isDigitByte, Bool.and_eq_true, decide_eq_true_eq] at h
  rw [← UInt32.ofNat_uInt8ToNat, UInt32.toInt32_ofNat', UInt8.toNat_sub_of_le _ _ h.1]
  rfl

/-- The word of digits is the number that they stand for, as far as it fits. -/
theorem wordOfDigits_eq (h : ∀ b ∈ digits, isDigitByte b = true) :
    wordOfDigits digits = Int32.ofNat (decimalValue digits) := by
  induction digits using List.reverseRecOn with
  | nil => rfl
  | append_singleton digits b ih =>
    have hword := ih fun b' hb => h b' (List.mem_append_left _ hb)
    have hvalue : decimalValue (digits ++ [b]) = decimalValue digits * 10 + (b.toNat - 0x30) := by
      simp [decimalValue, Nat.ofDigits_cons, Nat.mul_comm, Nat.add_comm]
    simp only [wordOfDigits, List.foldl_append, List.foldl_cons, List.foldl_nil] at hword ⊢
    rw [hword, hvalue, toInt32_sub_of_digit (h b (by simp)), Int32.ofNat_add, Int32.ofNat_mul]
    rfl

theorem signed_wordOfDigits (hd : Digits digits) (negative : Bool) :
    (if negative then -wordOfDigits digits else wordOfDigits digits) =
      Int32.ofInt (if negative then -(decimalValue digits : Int) else decimalValue digits) := by
  rw [wordOfDigits_eq hd.digit]
  cases negative with
  | false => exact Int32.ofInt_eq_ofNat.symm
  | true => rw [if_pos rfl, if_pos rfl, Int32.ofInt_neg, Int32.ofInt_eq_ofNat]

theorem sign_cons_digit {b : UInt8} (h : isDigitByte b = true) (rest : List UInt8) :
    sign (b :: rest) = (false, b :: rest) := by
  rw [sign, if_neg, if_neg] <;> rintro rfl <;> cases h

/-- A numeral starts with something that starts neither brackets nor names nor quotes. -/
theorem Numeral.exists_first {numeral : List UInt8} {n : Int} (h : Numeral numeral n) :
    ∃ b body, numeral = b :: body ∧ isBlankByte b = false ∧ b ≠ '['.toUInt8 ∧ b ≠ 'R'.toUInt8 ∧
      b ≠ '\''.toUInt8 := by
  cases h with
  | unsigned hd =>
    obtain ⟨b, digits, rfl⟩ := List.exists_cons_of_ne_nil hd.ne_nil
    have hb := hd.digit b List.mem_cons_self
    refine ⟨b, digits, rfl, not_blank_of_isDigitByte hb, ?_, ?_, ?_⟩ <;> rintro rfl <;> cases hb
  | positive hd | negative hd => exact ⟨_, _, rfl, by decide⟩

/-- The sign of a numeral can be taken off. -/
theorem Numeral.sign_eq {numeral : List UInt8} {n : Int} (h : Numeral numeral n)
    (rest : List UInt8) : ∃ negative digits, Digits digits ∧
      sign (numeral ++ rest) = (negative, digits ++ rest) ∧
      n = if negative then -(decimalValue digits : Int) else decimalValue digits := by
  cases h with
  | unsigned hd =>
    obtain ⟨b, digits, rfl⟩ := List.exists_cons_of_ne_nil hd.ne_nil
    exact ⟨false, _, hd, sign_cons_digit (hd.digit b List.mem_cons_self) _, rfl⟩
  | positive hd => exact ⟨false, _, hd, rfl, rfl⟩
  | negative hd => exact ⟨true, _, hd, rfl, rfl⟩

/-- A sign that is taken off belongs to a numeral with the digits behind it. -/
theorem numeral_of_sign {negative : Bool} {tail : List UInt8} (hd : Digits digits)
    (h : sign text = (negative, digits ++ tail)) : ∃ numeral, text = numeral ++ tail ∧
      Numeral numeral (if negative then -(decimalValue digits : Int) else decimalValue digits) := by
  unfold sign at h
  split at h
  · obtain ⟨rfl, hnil⟩ := Prod.mk.inj h
    exact ⟨digits, hnil, .unsigned hd⟩
  · split at h
    · rename_i heq
      obtain ⟨rfl, rfl⟩ := Prod.mk.inj h
      exact ⟨_, by rw [heq]; rfl, .negative hd⟩
    · split at h
      · rename_i heq
        obtain ⟨rfl, rfl⟩ := Prod.mk.inj h
        exact ⟨_, by rw [heq]; rfl, .positive hd⟩
      · obtain ⟨rfl, hsame⟩ := Prod.mk.inj h
        exact ⟨digits, hsame, .unsigned hd⟩

/-- What is read as a number is a numeral with all of its digits, after blanks. -/
theorem number_eq_some_iff {value : Int32} :
    number text = some (value, rest) ↔
      ∃ w numeral n, Blanks w ∧ Numeral numeral n ∧ EndsNumber rest ∧ value = Int32.ofInt n ∧
        text = w ++ numeral ++ rest := by
  constructor
  · intro h
    rcases hs : sign (skipBlanks text) with ⟨negative, tail⟩
    have hsplit := @List.takeWhile_append_dropWhile _ isDigitByte tail
    have hstop := List.head?_dropWhile_not isDigitByte tail
    simp only [number, hs] at h
    split at h
    · cases h
    · rename_i hempty
      obtain ⟨rfl, rfl⟩ := Prod.mk.inj (Option.some.inj h)
      have hd : Digits (tail.takeWhile isDigitByte) :=
        ⟨by simpa using hempty, fun b hb => List.mem_takeWhile_imp hb⟩
      obtain ⟨numeral, htext, hnumeral⟩ := numeral_of_sign hd (hs.trans (by rw [hsplit]))
      refine ⟨text.takeWhile isBlankByte, numeral, _, fun b hb => List.mem_takeWhile_imp hb,
        hnumeral, ?_, signed_wordOfDigits hd negative, ?_⟩
      · intro b hb
        rw [Option.mem_def] at hb
        rw [hb] at hstop
        exact hstop
      · rw [List.append_assoc, ← htext, skipBlanks, List.takeWhile_append_dropWhile]
  · rintro ⟨w, numeral, n, hw, hnumeral, hrest, rfl, rfl⟩
    have hskip : skipBlanks (w ++ numeral ++ rest) = numeral ++ rest := by
      obtain ⟨b, body, rfl, hb, -⟩ := hnumeral.exists_first
      rw [List.append_assoc]
      apply skipBlanks_append hw
      rintro b' ⟨⟩
      exact hb
    obtain ⟨negative, digits, hd, hsign, rfl⟩ := hnumeral.sign_eq rest
    have htake := takeWhile_run hd.digit hrest
    have hdrop := dropWhile_run hd.digit hrest
    have hempty : digits.isEmpty = false := by simpa using hd.ne_nil
    simp only [number, hskip, hsign, htake, hdrop, hempty, signed_wordOfDigits hd,
      Bool.false_eq_true, ↓reduceIte]

/-- Where blanks or a bracket follow, no digit does. -/
theorem endsNumber_close {w : List UInt8} (hw : Blanks w) :
    EndsNumber (w ++ ']'.toUInt8 :: rest) := by
  intro b hb
  cases w with
  | nil =>
    cases hb
    rfl
  | cons b' w =>
    cases hb
    cases hdigit : isDigitByte b with
    | false => rfl
    | true =>
      have hblank := hw b List.mem_cons_self
      rw [not_blank_of_isDigitByte hdigit] at hblank
      cases hblank

end Numbers

theorem escaped_eq (c : UInt8) : escaped c = (controlCodes.lookup c).getD c := by
  simp only [escaped, controlCodes, List.lookup_cons, List.lookup_nil]
  repeat' split
  all_goals simp_all

section Forms

variable {text rest : List UInt8} {o : Operand}

/-- A reader takes a text up to where the form is spelled. -/
def Form.TakenBy (form : Form) (reader : Reader Operand) : Prop :=
  ∀ text o rest, reader text = some (o, rest) ↔
    ∃ taken, text = taken ++ rest ∧ form.Spells taken o ∧ (form = .number → EndsNumber rest)

/-- Only a number asks for something behind it. -/
theorem Form.takenBy_of_spells {form : Form} {reader : Reader Operand} (hform : form ≠ .number)
    (h : ∀ text o rest, reader text = some (o, rest) ↔
      ∃ taken, text = taken ++ rest ∧ form.Spells taken o) : form.TakenBy reader := by
  intro text o rest
  simp only [h, hform, IsEmpty.forall_iff, and_true]

theorem takenBy_indexedForm : Form.offset.TakenBy indexedForm := by
  apply Form.takenBy_of_spells (by decide)
  intro text o rest
  have hopen : isBlankByte '['.toUInt8 = false := by decide
  have hclose : isBlankByte ']'.toUInt8 = false := by decide
  simp only [indexedForm, bind, Option.bind_eq_some_iff, Prod.exists, expect_skipBlanks_iff hopen,
    expect_skipBlanks_iff hclose, registerIndex_skipBlanks_iff, anyByte_eq_some_iff,
    skipBlanks_eq_cons_iff, number_eq_some_iff]
  constructor
  · rintro ⟨_, ⟨w₁, h₁, rfl⟩, base, _, ⟨hbase, w₂, h₂, rfl⟩, direction, _, ⟨-, w₃, h₃, rfl⟩, _, _,
      ⟨w₄, numeral, n, h₄, hnumeral, -, rfl, rfl⟩, _, ⟨w₅, h₅, rfl⟩, h⟩
    split at h
    · rename_i hdirection
      obtain ⟨rfl, rfl⟩ := Prod.mk.inj (Option.some.inj h)
      rw [← Int32.ofInt_neg]
      have hspelled := @Displaced.intro _ _ _ _ _ _ _ true _ h₁ h₂ h₃ h₄ h₅ hbase hnumeral
      exact ⟨_, by simp [hdirection], .offset hspelled⟩
    · split at h
      · rename_i hdirection
        obtain ⟨rfl, rfl⟩ := Prod.mk.inj (Option.some.inj h)
        have hspelled := @Displaced.intro _ _ _ _ _ _ _ false _ h₁ h₂ h₃ h₄ h₅ hbase hnumeral
        exact ⟨_, by simp [hdirection], .offset hspelled⟩
      · cases h
  · rintro ⟨_, rfl, hspells⟩
    cases hspells with
    | @offset _ base _ hspelled =>
      obtain @⟨w₁, w₂, w₃, w₄, w₅, numeral, _, minus, n, h₁, h₂, h₃, h₄, h₅, hbase, hnumeral⟩ :=
        hspelled
      simp only [List.append_assoc, List.cons_append, List.nil_append]
      refine ⟨_, ⟨w₁, h₁, rfl⟩, base, _, ⟨hbase, w₂, h₂, rfl⟩,
        if minus then '-'.toUInt8 else '+'.toUInt8, _, ⟨by cases minus <;> decide, w₃, h₃, rfl⟩,
        _, _, ⟨w₄, numeral, n, h₄, hnumeral, endsNumber_close h₅, rfl, rfl⟩, _, ⟨w₅, h₅, rfl⟩, ?_⟩
      cases minus with
      | false => rfl
      | true =>
        simp only [↓reduceIte, Int32.ofInt_neg]

theorem takenBy_pointerForm : Form.pointer.TakenBy pointerForm := by
  apply Form.takenBy_of_spells (by decide)
  intro text o rest
  have hopen : isBlankByte '['.toUInt8 = false := by decide
  have hclose : isBlankByte ']'.toUInt8 = false := by decide
  simp only [pointerForm, bind, Option.bind_eq_some_iff, Prod.exists, expect_skipBlanks_iff hopen,
    expect_skipBlanks_iff hclose, registerIndex_skipBlanks_iff]
  constructor
  · rintro ⟨_, ⟨w₁, h₁, rfl⟩, base, _, ⟨hbase, w₂, h₂, rfl⟩, _, ⟨w₃, h₃, rfl⟩, h⟩
    obtain ⟨rfl, rfl⟩ := Prod.mk.inj (Option.some.inj h)
    exact ⟨_, by simp, .pointer h₁ h₂ h₃ hbase⟩
  · rintro ⟨_, rfl, hspells⟩
    cases hspells with
    | @pointer w₁ w₂ w₃ base h₁ h₂ h₃ hbase =>
      simp only [List.append_assoc, List.cons_append, List.nil_append]
      exact ⟨_, ⟨w₁, h₁, rfl⟩, base, _, ⟨hbase, w₂, h₂, rfl⟩, _,
        ⟨w₃, h₃, rfl⟩, rfl⟩

theorem takenBy_memoryForm : Form.cell.TakenBy memoryForm := by
  apply Form.takenBy_of_spells (by decide)
  intro text o rest
  have hopen : isBlankByte '['.toUInt8 = false := by decide
  have hclose : isBlankByte ']'.toUInt8 = false := by decide
  simp only [memoryForm, bind, Option.bind_eq_some_iff, Prod.exists, expect_skipBlanks_iff hopen,
    expect_skipBlanks_iff hclose, number_eq_some_iff]
  constructor
  · rintro ⟨_, ⟨w₁, h₁, rfl⟩, _, _, ⟨w₂, numeral, n, h₂, hnumeral, -, rfl, rfl⟩, _, ⟨w₃, h₃, rfl⟩,
      h⟩
    obtain ⟨rfl, rfl⟩ := Prod.mk.inj (Option.some.inj h)
    exact ⟨_, by simp, .cell h₁ h₂ h₃ hnumeral⟩
  · rintro ⟨_, rfl, hspells⟩
    cases hspells with
    | @cell w₁ w₂ w₃ numeral n h₁ h₂ h₃ hnumeral =>
      simp only [List.append_assoc, List.cons_append, List.nil_append]
      exact ⟨_, ⟨w₁, h₁, rfl⟩, _, _, ⟨w₂, numeral, n, h₂, hnumeral, endsNumber_close h₃, rfl,
        rfl⟩, _, ⟨w₃, h₃, rfl⟩, rfl⟩

theorem takenBy_registerForm : Form.register.TakenBy registerForm := by
  apply Form.takenBy_of_spells (by decide)
  intro text o rest
  simp only [registerForm, Option.map_eq_some_iff, Prod.exists, registerIndex_skipBlanks_iff,
    Prod.mk.injEq]
  constructor
  · rintro ⟨index, _, ⟨hindex, w, hw, rfl⟩, rfl, rfl⟩
    exact ⟨_, rfl, .register hw hindex⟩
  · rintro ⟨_, rfl, hspells⟩
    cases hspells with
    | @register w index hw hindex => exact ⟨index, _, ⟨hindex, w, hw, rfl⟩, rfl, rfl⟩

theorem takenBy_numberForm : Form.number.TakenBy numberForm := by
  intro text o rest
  simp only [numberForm, Option.map_eq_some_iff, Prod.exists, number_eq_some_iff, Prod.mk.injEq]
  constructor
  · rintro ⟨_, _, ⟨w, numeral, n, hw, hnumeral, hrest, rfl, rfl⟩, rfl, rfl⟩
    exact ⟨_, rfl, .number hw hnumeral, fun _ => hrest⟩
  · rintro ⟨_, rfl, hspells, hrest⟩
    cases hspells with
    | @number w numeral n hw hnumeral =>
      exact ⟨_, _, ⟨w, numeral, n, hw, hnumeral, hrest trivial, rfl, rfl⟩, rfl, rfl⟩

theorem takenBy_characterForm : Form.character.TakenBy characterForm := by
  apply Form.takenBy_of_spells (by decide)
  intro text o rest
  have hquote : isBlankByte '\''.toUInt8 = false := by decide
  simp only [characterForm, bind, Option.bind_eq_some_iff, Prod.exists,
    expect_skipBlanks_iff hquote, anyByte_eq_some_iff, expect_eq_some_iff]
  constructor
  · rintro ⟨_, ⟨w, hw, rfl⟩, c, _, rfl, _, rfl, h⟩
    obtain ⟨rfl, rfl⟩ := Prod.mk.inj (Option.some.inj h)
    exact ⟨_, by simp, .character hw⟩
  · rintro ⟨_, rfl, hspells⟩
    cases hspells with
    | @character w c hw =>
      simp only [List.append_assoc, List.cons_append, List.nil_append]
      exact ⟨_, ⟨w, hw, rfl⟩, c, _, rfl, _, rfl, rfl⟩

theorem takenBy_escapeForm : Form.escape.TakenBy escapeForm := by
  apply Form.takenBy_of_spells (by decide)
  intro text o rest
  have hquote : isBlankByte '\''.toUInt8 = false := by decide
  simp only [escapeForm, bind, Option.bind_eq_some_iff, Prod.exists,
    expect_skipBlanks_iff hquote, anyByte_eq_some_iff, expect_eq_some_iff, escaped_eq]
  constructor
  · rintro ⟨_, ⟨w, hw, rfl⟩, _, rfl, c, _, rfl, _, rfl, h⟩
    obtain ⟨rfl, rfl⟩ := Prod.mk.inj (Option.some.inj h)
    exact ⟨_, by simp, .escape hw⟩
  · rintro ⟨_, rfl, hspells⟩
    cases hspells with
    | @escape w c hw =>
      simp only [List.append_assoc, List.cons_append, List.nil_append]
      exact ⟨_, ⟨w, hw, rfl⟩, _, rfl, c, _, rfl, _, rfl, rfl⟩

/-- The reader of each form takes what is spelled in that form. -/
theorem Form.takenBy_reader (form : Form) : form.TakenBy form.reader := by
  cases form with
  | offset => exact takenBy_indexedForm
  | pointer => exact takenBy_pointerForm
  | cell => exact takenBy_memoryForm
  | register => exact takenBy_registerForm
  | number => exact takenBy_numberForm
  | character => exact takenBy_characterForm
  | escape => exact takenBy_escapeForm

/-- What the reader of a form matches at the start of a text. -/
theorem matchOf_eq_some_iff {form : Form} {used : Nat} :
    matchOf form.reader text = some (o, used) ↔ form.Matches text o used := by
  simp only [matchOf, Option.map_eq_some_iff, Prod.exists, form.takenBy_reader text, Form.Matches,
    Prod.mk.injEq]
  constructor
  · rintro ⟨_, rest, ⟨taken, rfl, hspells, hrest⟩, rfl, rfl⟩
    exact ⟨taken, rest, rfl, by simp, hspells, hrest⟩
  · rintro ⟨taken, rest, rfl, rfl, hspells, hrest⟩
    exact ⟨o, rest, ⟨taken, rfl, hspells, hrest⟩, rfl, by simp⟩

end Forms

end StackMachine.Operand
