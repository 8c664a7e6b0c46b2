import StackMachine.Proofs.Coded
import StackMachine.Proofs.GuardedStack.Strict

namespace StackMachine.Cursor

open GuardedStack (Strict.add Strict.add_eq)

/-- Something that is read at a cursor. -/
inductive Read where
  | byte
  | word
  | piece (count : Nat)
  deriving Repr, DecidableEq

namespace Read

/-- The number of bytes that are asked for. -/
def count : Read → Nat
  | byte => 1
  | word => 4
  | piece count => count

/-- The bytes of what is read, and the cursor behind them. -/
def on (c : Cursor) : Read → Except Fault (List UInt8 × Cursor)
  | byte => c.byte.map fun (b, next) => ([b], next)
  | word => c.word.map fun (w, next) => (Bytes.ofWord w.toUInt32, next)
  | piece count => (c.take count).map fun (bytes, next) => (bytes.toList, next)

end Read

/-- Reads one thing after another, and puts together the bytes of those that go through. -/
def gather (c : Cursor) : List Read → List UInt8 × Cursor
  | [] => ([], c)
  | read :: rest =>
    match read.on c with
    | .ok (got, next) =>
      let later := gather next rest
      (got ++ later.1, later.2)
    | .error _ => gather c rest

section Step

variable {c c' : Cursor} {got : List UInt8} {fault : Fault}

/-- A byte and a word are the bytes of which they are made. -/
theorem Read.on_eq (c : Cursor) (read : Read) :
    read.on c = (c.take read.count).map fun (bytes, next) => (bytes.toList, next) := by
  cases read with
  | byte =>
    cases ht : c.take 1 with
    | error fault => simp [on, count, Cursor.byte, ht, bind, Except.bind, Except.map]
    | ok r =>
      obtain ⟨piece, next⟩ := r
      obtain ⟨-, hsize, -⟩ := take_eq ht
      obtain ⟨b, rfl⟩ := Array.size_eq_one_iff.mp hsize
      simp [on, count, Cursor.byte, ht, bind, Except.bind, Except.map]
  | word =>
    cases ht : c.take 4 with
    | error fault => simp [on, count, Cursor.word, ht, bind, Except.bind, Except.map]
    | ok r =>
      obtain ⟨piece, next⟩ := r
      obtain ⟨-, hsize, -⟩ := take_eq ht
      simp only [on, count, Cursor.word, ht, bind, Except.bind, Except.map,
        UInt32.toUInt32_toInt32, Bytes.ofWord_word, Bytes.toList_of_size hsize]
  | piece count => rfl

theorem Read.on_ok_iff {read : Read} : read.on c = .ok (got, c') ↔
    c.position + read.count ≤ c.bytes.size ∧
      got = (c.bytes.extract c.position (c.position + read.count)).toList ∧
      c' = ⟨c.bytes, c.position + read.count⟩ := by
  rw [Read.on_eq, take]
  by_cases hfits : c.position + read.count ≤ c.bytes.size
  · simp [hfits, Except.map, @eq_comm _ got, @eq_comm _ c']
  · simp [hfits, Except.map]

theorem Read.on_error_iff {read : Read} : read.on c = .error fault ↔
    c.bytes.size < c.position + read.count ∧
      fault = .unexpectedEnd c.position read.count (c.bytes.size - c.position) := by
  rw [Read.on_eq, take]
  by_cases hfits : c.position + read.count ≤ c.bytes.size
  · simp [hfits, Except.map, Nat.not_lt.mpr hfits]
  · simp [hfits, Except.map, Nat.lt_of_not_le hfits, @eq_comm _ fault]

/-- A cursor has moved on, and these are the bytes that it passed. -/
structure Passed (c : Cursor) (got : List UInt8) (c' : Cursor) : Prop where
  bytes_eq : c'.bytes = c.bytes
  position_le : c.position ≤ c'.position
  le_size : c'.position ≤ max c.position c.bytes.size
  got_eq : got = (c.bytes.extract c.position c'.position).toList

theorem Passed.refl (c : Cursor) : Passed c [] c :=
  ⟨rfl, Nat.le_refl _, Nat.le_max_left _ _, by simp⟩

theorem Passed.trans {c'' : Cursor} {more : List UInt8} (h : Passed c got c')
    (h' : Passed c' more c'') : Passed c (got ++ more) c'' := by
  have hle := h.position_le
  have hle' := h'.position_le
  have hsize := h.le_size
  have hsize' := h'.le_size
  rw [h.bytes_eq] at hsize'
  refine ⟨h'.bytes_eq.trans h.bytes_eq, hle.trans hle', by omega, ?_⟩
  rw [h.got_eq, h'.got_eq, h.bytes_eq, ← Array.toList_append, Array.extract_append_extract,
    Nat.min_eq_left hle, Nat.max_eq_right hle']

theorem Passed.of_on {read : Read} (h : read.on c = .ok (got, c')) : Passed c got c' := by
  obtain ⟨hfits, rfl, rfl⟩ := Read.on_ok_iff.mp h
  exact ⟨rfl, Nat.le_add_right _ _, hfits.trans (Nat.le_max_right _ _), rfl⟩

/-- Whatever is read, the bytes that come are those that the cursor passes. -/
theorem passed_gather (c : Cursor) (reads : List Read) :
    Passed c (gather c reads).1 (gather c reads).2 := by
  induction reads generalizing c with
  | nil => exact .refl c
  | cons read rest ih =>
    rw [gather]
    cases hread : read.on c with
    | ok r =>
      obtain ⟨got, next⟩ := r
      exact (Passed.of_on hread).trans (ih next)
    | error fault => exact ih c

end Step

/-- Takes bytes where the place and the count are double words. The sum that decides may be too
large for one, and then nothing is taken. With any other sum that is too large it stops. -/
def strictTake (bytes : Array UInt8) (position count : UInt64) :
    Option (Except Fault (Array UInt8 × UInt64)) :=
  let refusal := Fault.unexpectedEnd position.toNat count.toNat (bytes.size - position.toNat)
  match Strict.add position count with
  | none => some (.error refusal)
  | some stop =>
    if position ≤ stop ∧ stop.toNat ≤ bytes.size then do
      let next ← Strict.add position count
      some (.ok (bytes.extract position.toNat stop.toNat, next))
    else some (.error refusal)

/-- Double words do as well as exact numbers. -/
theorem strictTake_eq {bytes : Array UInt8} (hb : bytes.size < 2 ^ 64) (position count : UInt64) :
    (strictTake bytes position count).map (Except.map fun (piece, next) =>
      (piece, Cursor.mk bytes next.toNat)) =
        some ((Cursor.mk bytes position.toNat).take count.toNat) := by
  by_cases hsum : position.toNat + count.toNat < 2 ^ 64
  · have hadd := Strict.add_eq hsum
    have hstop : (position + count).toNat = position.toNat + count.toNat :=
      GuardedStack.toNat_add_of_lt hsum
    have hle : position ≤ position + count := by
      rw [UInt64.le_iff_toNat_le, hstop]
      exact Nat.le_add_right _ _
    by_cases hfits : position.toNat + count.toNat ≤ bytes.size
    · simp [strictTake, take, hadd, hstop, hle, hfits, Except.map]
    · simp [strictTake, take, hadd, hstop, hfits, Except.map]
  · have hadd : Strict.add position count = none := if_neg hsum
    have hlong : ¬ position.toNat + count.toNat ≤ bytes.size := by omega
    simp [strictTake, take, hadd, hlong, Except.map]

/-- Wherever reading starts and whatever is read, the bytes that come are those from the first place
up to the cursor. The next read goes through if as many bytes are left, and then passes them. If
not, it tells where the cursor stands, how many bytes were asked for and how many are left, and the
cursor stays. If the first place is a double word, then so are all others, and the next read does in
double words what it does in exact numbers. -/
theorem reads_pass_bytes (bytes : Array UInt8) (start : Nat) (reads : List Read) :
    let got := (gather ⟨bytes, start⟩ reads).1
    let c := (gather ⟨bytes, start⟩ reads).2
    got = (bytes.extract start c.position).toList ∧ c = ⟨bytes, start + got.length⟩ ∧
      (∀ (read : Read) piece next, read.on c = .ok (piece, next) ↔
        c.position + read.count ≤ bytes.size ∧
          piece = (bytes.extract c.position (c.position + read.count)).toList ∧
          next = ⟨bytes, c.position + read.count⟩) ∧
      (∀ (read : Read) fault, read.on c = .error fault ↔
        bytes.size < c.position + read.count ∧
          fault = .unexpectedEnd c.position read.count (bytes.size - c.position)) ∧
      (∀ (read : Read) fault later, read.on c = .error fault →
        gather c (read :: later) = gather c later) ∧
      (bytes.size < 2 ^ 64 → start < 2 ^ 64 → c.position < 2 ^ 64 ∧
        ∀ count, (strictTake bytes (UInt64.ofNat c.position) count).map
          (Except.map fun (piece, next) => (piece, Cursor.mk bytes next.toNat)) =
            some (c.take count.toNat)) := by
  intro got c
  obtain ⟨hbytes, hstart, hsize, hgot⟩ := passed_gather ⟨bytes, start⟩ reads
  replace hbytes : c.bytes = bytes := hbytes
  replace hstart : start ≤ c.position := hstart
  replace hsize : c.position ≤ max start bytes.size := hsize
  replace hgot : got = (bytes.extract start c.position).toList := hgot
  have hlength : c.position = start + got.length := by
    rw [hgot, Array.length_toList, Array.size_extract]
    omega
  have hc : c = ⟨bytes, c.position⟩ := by rw [← hbytes]
  refine ⟨hgot, by rw [← hlength, ← hc], ?_, ?_, ?_, ?_⟩
  · intro read piece next
    rw [Read.on_ok_iff, hbytes]
  · intro read fault
    rw [Read.on_error_iff, hbytes]
  · intro read fault later hread
    rw [gather, hread]
  · intro hb hs
    have hposition : c.position < 2 ^ 64 := by omega
    refine ⟨hposition, ?_⟩
    intro count
    rw [strictTake_eq hb, UInt64.toNat_ofNat_of_lt' hposition, ← hc]

/-- Two reads that fail, one of them with a sum that is too large for a double word, are as if they
had not been tried. -/
theorem reads_pass_bytes_short :
    let bytes : Array UInt8 := #[7, 0x2A, 0, 0, 0, 0xFF]
    let greatest : UInt64 := 0xFFFFFFFFFFFFFFFF
    let c := (gather ⟨bytes, 0⟩ [.byte, .word, .word, .piece greatest.toNat]).2
    bytes.size < 2 ^ 64 ∧ c = ⟨bytes, 5⟩ ∧ Read.word.on c = .error (.unexpectedEnd 5 4 1) ∧
      gather c [.word, .byte] = gather c [.byte] ∧
      (strictTake bytes 5 greatest).map (Except.map fun (piece, next) =>
        (piece, Cursor.mk bytes next.toNat)) = some (c.take greatest.toNat) := by
  intro bytes greatest c
  have hb : bytes.size < 2 ^ 64 := by decide
  have hc : c = ⟨bytes, 5⟩ := by rfl
  obtain ⟨-, -, -, herror, hstays, hstrict⟩ := reads_pass_bytes bytes 0
    [.byte, .word, .word, .piece greatest.toNat]
  have hread : Read.word.on c = .error (.unexpectedEnd 5 4 1) :=
    (herror .word _).mpr ⟨by decide, rfl⟩
  exact ⟨hb, hc, hread, hstays .word _ [.byte] hread, (hstrict hb (by decide)).2 greatest⟩

end StackMachine.Cursor
