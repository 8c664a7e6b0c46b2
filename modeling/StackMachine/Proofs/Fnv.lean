import StackMachine.Fnv
import StackMachine.Proofs.Bytes

namespace StackMachine.Fnv

/-- The inverse of the prime, which is odd, modulo the size of a double word. -/
def inverse : UInt64 := 0xce965057aff6957b

theorem prime_mul_inverse : prime * inverse = 1 := rfl

theorem mul_prime_injective : Function.Injective fun state => state * prime := by
  intro a b h
  have hproduct := congrArg (fun state => state * inverse) h
  simpa only [UInt64.mul_assoc, prime_mul_inverse, UInt64.mul_one] using hproduct

/-- States that differ still do so after the same byte. -/
theorem addByte_injective (byte : UInt8) : Function.Injective fun state => addByte state byte := by
  intro a b h
  have hxor := congrArg UInt64.toBitVec (mul_prime_injective h)
  simp only [UInt64.toBitVec_xor] at hxor
  exact UInt64.toBitVec_inj.mp ((BitVec.xor_left_inj _).mp hxor)

/-- Bytes that differ take a state to different ones. -/
theorem addByte_right_injective (state : UInt64) : Function.Injective (addByte state) := by
  intro a b h
  have hxor := congrArg UInt64.toBitVec (mul_prime_injective h)
  simp only [UInt64.toBitVec_xor] at hxor
  exact UInt8.toUInt64_inj.mp (UInt64.toBitVec_inj.mp ((BitVec.xor_right_inj _).mp hxor))

theorem addBytes_injective (bytes : List UInt8) :
    Function.Injective fun state => addBytes state bytes := by
  induction bytes with
  | nil =>
    intro a b h
    exact h
  | cons byte bytes ih =>
    intro a b h
    exact addByte_injective byte (ih h)

/-- The hash stays the same only if the byte that was replaced does. -/
theorem set_eq_of_addBytes {bytes : List UInt8} {i : Nat} {byte : UInt8} {state : UInt64}
    (h : addBytes state (bytes.set i byte) = addBytes state bytes) : bytes.set i byte = bytes := by
  induction bytes generalizing i state with
  | nil => rfl
  | cons first rest ih =>
    cases i with
    | zero =>
      have hstate := addBytes_injective rest h
      rw [List.set_cons_zero, addByte_right_injective state hstate]
    | succ i => rw [List.set_cons_succ, ih h]

theorem addDoubleWord_injective (word : UInt64) :
    Function.Injective fun state => addDoubleWord state word :=
  addBytes_injective (Bytes.ofDoubleWord word)

theorem setByte_eq_of_addDoubleWord {word state : UInt64} {place : Nat} {byte : UInt8}
    (hp : place < 8)
    (h : addDoubleWord state (Bytes.setByte word place byte) = addDoubleWord state word) :
    Bytes.setByte word place byte = word := by
  rw [addDoubleWord_eq, addDoubleWord_eq, Bytes.ofDoubleWord_setByte hp] at h
  apply Bytes.ofDoubleWord_injective
  rw [Bytes.ofDoubleWord_setByte hp, set_eq_of_addBytes h]

theorem foldl_addDoubleWord_injective (words : List UInt64) :
    Function.Injective fun state => words.foldl addDoubleWord state := by
  induction words with
  | nil =>
    intro a b h
    exact h
  | cons word words ih =>
    intro a b h
    exact addDoubleWord_injective word (ih h)

/-- The same for one byte of one of many double words. -/
theorem modify_eq_of_foldl_addDoubleWord {words : List UInt64} {i place : Nat} {byte : UInt8}
    {state : UInt64} (hp : place < 8)
    (h : (words.modify i fun word => Bytes.setByte word place byte).foldl addDoubleWord state =
      words.foldl addDoubleWord state) :
    (words.modify i fun word => Bytes.setByte word place byte) = words := by
  induction words generalizing i state with
  | nil => exact List.modify_nil _ _
  | cons word rest ih =>
    cases i with
    | zero =>
      rw [List.modify_zero_cons] at h ⊢
      have hstate := foldl_addDoubleWord_injective rest h
      rw [setByte_eq_of_addDoubleWord hp hstate]
    | succ i =>
      rw [List.modify_succ_cons] at h ⊢
      rw [ih h]

/-- The state in which a byte leads to the given one. -/
def removeByte (state : UInt64) (byte : UInt8) : UInt64 :=
  (state * inverse) ^^^ byte.toUInt64

theorem addByte_removeByte (state : UInt64) (byte : UInt8) :
    addByte (removeByte state byte) byte = state := by
  have hinverse : inverse * prime = 1 := by rw [UInt64.mul_comm, prime_mul_inverse]
  rw [addByte, removeByte, UInt64.xor_assoc, UInt64.xor_self, UInt64.xor_zero, UInt64.mul_assoc,
    hinverse, UInt64.mul_one]

theorem addBytes_surjective (bytes : List UInt8) :
    Function.Surjective fun state => addBytes state bytes := by
  induction bytes with
  | nil => exact fun state => ⟨state, rfl⟩
  | cons byte bytes ih =>
    intro state
    obtain ⟨second, hsecond⟩ := ih state
    refine ⟨removeByte second byte, ?_⟩
    change addBytes (addByte (removeByte second byte) byte) bytes = state
    rw [addByte_removeByte]
    exact hsecond

/-- What a hash is given at one go. -/
inductive Part where
  | bytes (run : List UInt8)
  | doubleWord (word : UInt64)
  deriving Repr, DecidableEq

def Part.toBytes : Part → List UInt8
  | bytes run => run
  | doubleWord word => Bytes.ofDoubleWord word

def addPart (state : UInt64) : Part → UInt64
  | .bytes run => addBytes state run
  | .doubleWord word => addDoubleWord state word

theorem addPart_eq (state : UInt64) (part : Part) :
    addPart state part = addBytes state part.toBytes := by
  cases part with
  | bytes run => rfl
  | doubleWord word => exact addDoubleWord_eq state word

theorem foldl_addPart (state : UInt64) (parts : List Part) :
    parts.foldl addPart state = addBytes state (parts.flatMap Part.toBytes) := by
  induction parts generalizing state with
  | nil => rfl
  | cons part parts ih =>
    rw [List.foldl_cons, ih, addPart_eq, List.flatMap_cons, addBytes_append]

/-- Two runs of bytes of the same length differ in exactly one place. -/
def DifferOnce (a b : List UInt8) : Prop :=
  a.length = b.length ∧ ∃! i : Nat, a[i]? ≠ b[i]?

/-- One of them comes from the other by a replacement. -/
theorem DifferOnce.eq_set {a b : List UInt8} (h : DifferOnce a b) :
    a ≠ b ∧ ∃ i byte, b = a.set i byte := by
  obtain ⟨hl, i, hi, honly⟩ := h
  have hlt : i < b.length := by
    by_contra hout
    rw [Nat.not_lt] at hout
    have hnone : a[i]? = b[i]? := by
      rw [List.getElem?_eq_none hout, List.getElem?_eq_none (hl ▸ hout)]
    exact hi hnone
  refine ⟨fun heq => hi (by rw [heq]), i, b[i], ?_⟩
  apply List.ext_getElem?
  intro j
  by_cases hj : i = j
  · rw [← hj, List.getElem?_set_self (hl ▸ hlt), List.getElem?_eq_getElem hlt]
  · rw [List.getElem?_set_ne hj]
    by_contra hne
    exact hj (honly j (Ne.symm hne)).symm

/-- Bytes that are taken in one run after another lead to the same state as all of them at once, and
so do parts of any kind, where a double word counts as its eight bytes, the low one first. For given
bytes each state is the one after exactly one other. Two runs of the same length that differ in one
place lead from a state to different ones. -/
theorem hash_follows_bytes :
    (∀ state a b, addBytes (addBytes state a) b = addBytes state (a ++ b)) ∧
    (∀ state (parts : List Part),
      parts.foldl addPart state = addBytes state (parts.flatMap Part.toBytes)) ∧
    (∀ word, (Part.doubleWord word).toBytes.length = 8 ∧
      Nat.ofDigits 256 ((Part.doubleWord word).toBytes.map UInt8.toNat) = word.toNat) ∧
    (∀ bytes, Function.Bijective fun state => addBytes state bytes) ∧
    ∀ state a b, DifferOnce a b → addBytes state a ≠ addBytes state b := by
  refine ⟨fun state a b => (addBytes_append state a b).symm, foldl_addPart,
    fun word => ⟨rfl, Bytes.ofDigits_ofDoubleWord word⟩,
    fun bytes => ⟨addBytes_injective bytes, addBytes_surjective bytes⟩, ?_⟩
  intro state a b hd heq
  obtain ⟨hne, i, byte, rfl⟩ := hd.eq_set
  exact hne (set_eq_of_addBytes heq.symm).symm

/-- Two names that differ in one letter have different hashes. -/
theorem hash_follows_bytes_letter :
    DifferOnce (Bytes.ofString "LOOP1") (Bytes.ofString "LOOP2") ∧
      ofChars "LOOP1".toList ≠ ofChars "LOOP2".toList := by
  have hd : DifferOnce (Bytes.ofString "LOOP1") (Bytes.ofString "LOOP2") := by
    refine ⟨by decide +kernel, 4, by decide +kernel, ?_⟩
    have hall : ∀ j < 5, (Bytes.ofString "LOOP1")[j]? ≠ (Bytes.ofString "LOOP2")[j]? → j = 4 := by
      decide +kernel
    intro j hj
    by_cases hlt : j < 5
    · exact hall j hlt hj
    · have hone : (Bytes.ofString "LOOP1").length = 5 := by decide +kernel
      have htwo : (Bytes.ofString "LOOP2").length = 5 := by decide +kernel
      exact absurd (by rw [List.getElem?_eq_none (by omega), List.getElem?_eq_none (by omega)]) hj
  obtain ⟨-, -, -, -, hdiffer⟩ := hash_follows_bytes
  exact ⟨hd, hdiffer start _ _ hd⟩

end StackMachine.Fnv
