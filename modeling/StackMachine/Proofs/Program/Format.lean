import StackMachine.Proofs.Bytes
import StackMachine.Proofs.Program
import Mathlib.Data.Nat.Digits.Defs

namespace StackMachine.Program

/-- The version that a file states: four bytes behind the magic ones, the low one first. -/
def statedVersion (file : Array UInt8) : Nat :=
  Nat.ofDigits 256 ((file.extract 4 8).toList.map UInt8.toNat)

/-- What stands in the header behind the version. -/
def padding (file : Array UInt8) : List UInt8 :=
  (file.extract 8 16).toList

/-- A file holds a program. -/
structure Accepted (file : Array UInt8) : Prop where
  size_le : 16 ≤ file.size
  magic_eq : (file.extract 0 4).toList = Bytes.ofString "SPUB"
  version_le : statedVersion file ≤ 3

/-- A file holds no program, and why. A fault hides those that come after it. -/
inductive Refused (file : Array UInt8) : Fault → Prop where
  | short (h : file.size < 16) : Refused file (.truncatedHeader 16 file.size)
  | foreign (h : 16 ≤ file.size) (hm : (file.extract 0 4).toList ≠ Bytes.ofString "SPUB") :
      Refused file (.badMagic (file.extract 0 4).toList (Bytes.ofString "SPUB"))
  | newer (h : 16 ≤ file.size) (hm : (file.extract 0 4).toList = Bytes.ofString "SPUB")
      (hv : 3 < statedVersion file) : Refused file (.unsupportedVersion (statedVersion file) 3)

theorem ofString_magic : Bytes.ofString "SPUB" = magic := by
  decide +kernel

variable {file : Array UInt8} {p : Program}

/-- A file states its version in the bytes of a word. -/
theorem ofWord_versionOf (h : 16 ≤ file.size) :
    (file.extract 4 8).toList = Bytes.ofWord (versionOf file) := by
  have hsize : (file.extract 4 8).size = 4 := by
    simp only [Array.size_extract]
    omega
  have hbyte {i : Nat} (hi : i < 4) : (file.extract 4 8).getD i 0 = file.getD (4 + i) 0 := by
    have hin : i < min 8 file.size - 4 := by omega
    have hin' : 4 + i < file.size := by omega
    rw [Array.getD_eq_getD_getElem?, Array.getD_eq_getD_getElem?, Array.getElem?_extract_of_lt hin,
      Array.getElem?_eq_getElem hin']
  rw [Bytes.toList_of_size hsize, hbyte (by decide), hbyte (by decide), hbyte (by decide),
    hbyte (by decide), versionOf, Bytes.ofWord_word]

theorem statedVersion_eq (h : 16 ≤ file.size) : statedVersion file = (versionOf file).toNat := by
  have hword := Bytes.word_ofWord (versionOf file)
  rw [statedVersion, ofWord_versionOf h, Bytes.ofWord]
  rw [← hword, Bytes.toNat_word, hword]
  simp only [List.map_cons, List.map_nil, Nat.ofDigits_cons, Nat.ofDigits_nil]
  omega

/-- The header of a file, piece by piece. -/
theorem take_header (h : 16 ≤ file.size) : file.toList.take headerSize =
    (file.extract 0 4).toList ++ Bytes.ofWord (versionOf file) ++ padding file := by
  have hsize : headerSize = 4 + 4 + 8 := rfl
  rw [← ofWord_versionOf h, padding, hsize, List.take_add, List.take_add]
  simp only [Array.toList_extract, List.extract_eq_take_drop, List.drop_zero, Nat.reduceSub,
    Nat.reduceAdd]

theorem eq_iff_bytes {q : Program} : p = q ↔ p.bytes = q.bytes := by
  cases p
  cases q
  rw [Program.mk.injEq]

/-- A program with the magic bytes is the one that is made of its body, if all else in its header is
what is put there. -/
theorem ofBody_body_iff (hm : (p.bytes.extract 0 4).toList = magic) :
    ofBody p.body = p ↔ p.version = newest ∧ padding p.bytes = List.replicate 8 0 := by
  have hwhole := List.take_append_drop headerSize p.bytes.toList
  have hheader : ofBody p.body = p ↔ header = p.bytes.toList.take headerSize := by
    rw [eq_iff_bytes, ← Array.toList_inj, toList_ofBody, toList_body]
    nth_rewrite 2 [← hwhole]
    exact List.append_left_inj _
  have hlength : (magic ++ Bytes.ofWord newest).length =
      (magic ++ Bytes.ofWord (versionOf p.bytes)).length := rfl
  rw [hheader, take_header p.header_le, hm, header]
  constructor
  · intro h
    obtain ⟨hfirst, hrest⟩ := List.append_inj h hlength
    exact ⟨(Bytes.ofWord_injective (List.append_cancel_left hfirst)).symm, hrest.symm⟩
  · rintro ⟨hversion, hpadding⟩
    rw [← hversion, hpadding]
    rfl

theorem versionOf_le_iff (h : 16 ≤ file.size) :
    versionOf file ≤ newest ↔ statedVersion file ≤ 3 := by
  rw [statedVersion_eq h, UInt32.le_iff_toNat_le]
  rfl

theorem ofBytes_of_accepted (h : Accepted file) : ofBytes file = .ok ⟨file, h.size_le⟩ := by
  have hmagic := h.magic_eq.trans ofString_magic
  have hversion := (versionOf_le_iff h.size_le).mpr h.version_le
  simp only [ofBytes, h.size_le, hmagic, hversion, ↓reduceDIte, ↓reduceIte]

theorem ofBytes_of_refused {fault : Fault} (h : Refused file fault) :
    ofBytes file = .error fault := by
  cases h with
  | short h =>
    have hsize : ¬ 16 ≤ file.size := Nat.not_le.mpr h
    simp only [ofBytes, hsize, ↓reduceDIte]
    rfl
  | foreign h hm =>
    rw [ofString_magic] at hm ⊢
    simp only [ofBytes, h, hm, ↓reduceDIte, ↓reduceIte]
  | newer h hm hv =>
    have hversion : ¬ versionOf file ≤ newest :=
      fun hle => Nat.not_le.mpr hv ((versionOf_le_iff h).mp hle)
    rw [ofString_magic] at hm
    simp only [ofBytes, h, hm, hversion, statedVersion_eq h, ↓reduceDIte, ↓reduceIte]
    rfl

theorem accepted_or_refused (file : Array UInt8) : Accepted file ∨ ∃ fault, Refused file fault := by
  by_cases hsize : 16 ≤ file.size
  · by_cases hmagic : (file.extract 0 4).toList = Bytes.ofString "SPUB"
    · by_cases hversion : statedVersion file ≤ 3
      · exact .inl ⟨hsize, hmagic, hversion⟩
      · exact .inr ⟨_, .newer hsize hmagic (Nat.not_le.mp hversion)⟩
    · exact .inr ⟨_, .foreign hsize hmagic⟩
  · exact .inr ⟨_, .short (Nat.not_le.mp hsize)⟩

theorem exists_ofBytes_iff : (∃ p, ofBytes file = .ok p) ↔ Accepted file := by
  constructor
  · rintro ⟨p, hp⟩
    rcases accepted_or_refused file with h | ⟨fault, h⟩
    · exact h
    · rw [ofBytes_of_refused h] at hp
      cases hp
  · intro h
    exact ⟨_, ofBytes_of_accepted h⟩

theorem ofBytes_error_iff {fault : Fault} : ofBytes file = .error fault ↔ Refused file fault := by
  constructor
  · intro hp
    rcases accepted_or_refused file with h | ⟨fault', h⟩
    · rw [ofBytes_of_accepted h] at hp
      cases hp
    · rw [ofBytes_of_refused h] at hp
      cases hp
      exact h
  · exact ofBytes_of_refused

/-- A file is read if and only if its header is complete, starts with the magic bytes and states a
version up to 3; if not, the first of these that fails is reported with what was found. The program
that is read is the file, and its body is what stands behind the header. What is made of a body is
read back. A program that was read is made of its body again if and only if it has version 3 and
zeros behind that. -/
theorem file_holds_program (file : Array UInt8) :
    ((∃ p, ofBytes file = .ok p) ↔ Accepted file) ∧
      (∀ fault, ofBytes file = .error fault ↔ Refused file fault) ∧
      (∀ p, ofBytes file = .ok p → p.bytes = file ∧ p.body.toList = file.toList.drop 16 ∧
        (ofBody p.body = p ↔ p.version = 3 ∧ padding file = List.replicate 8 0)) ∧
      ∀ body, ofBytes (ofBody body).bytes = .ok (ofBody body) := by
  refine ⟨exists_ofBytes_iff, fun fault => ofBytes_error_iff, ?_, ofBytes_ofBody⟩
  intro p hp
  have h := exists_ofBytes_iff.mp ⟨p, hp⟩
  rw [ofBytes_of_accepted h] at hp
  cases hp
  exact ⟨rfl, toList_body _, ofBody_body_iff (h.magic_eq.trans ofString_magic)⟩

/-- An older version is read, and is not what is made of its body. -/
theorem file_holds_program_older :
    let file := #[0x53, 0x50, 0x55, 0x42, 2, 0, 0, 0, 0, 0, 0, 0, 0, 0, 0, 0, 0x50]
    ∃ p, ofBytes file = .ok p ∧ p.body.toList = [0x50] ∧ ofBody p.body ≠ p := by
  intro file
  obtain ⟨hread, -, hprogram, -⟩ := file_holds_program file
  obtain ⟨p, hp⟩ := hread.mpr ⟨by decide, by decide +kernel, by decide⟩
  obtain ⟨hbytes, hbody, hagain⟩ := hprogram p hp
  refine ⟨p, hp, hbody, ?_⟩
  intro hsame
  obtain ⟨hversion, -⟩ := hagain.mp hsame
  rw [version, hbytes] at hversion
  exact absurd hversion (by decide)

end StackMachine.Program
