import StackMachine.Proofs.Fnv
import StackMachine.Proofs.GuardedStack.Lifo

namespace StackMachine.GuardedStack

/-- What can happen to a stack from outside. -/
inductive Alteration where
  /-- One byte of a word in the buffer: a live word, poison or a guard. -/
  | bufferByte (index : Nat) (place : Fin 8) (byte : UInt8)
  | sizeByte (place : Fin 8) (byte : UInt8)
  | leftGuard (word : UInt64)
  | rightGuard (word : UInt64)
  | bufferStart (word : Int64)
  | bufferEnd (word : Int64)
  | capacity (slots : UInt64)
  | hash (word : UInt64)
  /-- The buffer loses the words from an index on. -/
  | truncate (length : Nat)
  deriving Repr, DecidableEq

namespace Alteration

def apply (s : GuardedStack) : Alteration → GuardedStack
  | bufferByte index place byte =>
    { s with buffer := s.buffer.modify index fun word =>
        (Bytes.setByte word.toUInt64 place byte).toInt64 }
  | sizeByte place byte => { s with size := Bytes.setByte s.size place byte }
  | leftGuard word => { s with leftGuard := word }
  | rightGuard word => { s with rightGuard := word }
  | bufferStart word => { s with buffer := s.buffer.setIfInBounds 0 word }
  | bufferEnd word => { s with buffer := s.buffer.setIfInBounds (s.buffer.size - 1) word }
  | capacity slots => { s with capacity := slots }
  | hash word => { s with hash := word }
  | truncate length => { s with buffer := s.buffer.take length }

/-- The words of a buffer with so many slots can be counted. -/
def Countable : Alteration → Prop
  | capacity slots => slots.toNat < 2 ^ 64 - 2
  | _ => True

instance (a : Alteration) : Decidable a.Countable :=
  match a with
  | capacity _ => inferInstanceAs (Decidable (_ < _))
  | bufferByte .. | sizeByte .. | leftGuard _ | rightGuard _ | bufferStart _ | bufferEnd _ | hash _
  | truncate _ => inferInstanceAs (Decidable True)

end Alteration

theorem require_eq_nil {test : Bool} {finding : Finding} :
    require test finding = [] ↔ test = true := by
  cases test <;> simp [require]

/-- What is known of a stack without findings. -/
theorem status_eq_nil_iff {s : GuardedStack} :
    s.status = [] ↔ s.size ≤ s.capacity ∧ s.buffer.size = (s.capacity + 2).toNat ∧
      s.leftGuard = guardWord ∧ s.rightGuard = guardWord ∧
      s.buffer[0]? = some guardWord.toInt64 ∧ s.buffer.back? = some guardWord.toInt64 ∧
      s.hash = s.computeHash := by
  simp only [status, List.append_eq_nil_iff, require_eq_nil, Bool.or_eq_true, Bool.not_eq_true',
    beq_iff_eq, beq_eq_false_iff_ne, decide_eq_true_eq]
  constructor
  · intro h
    obtain ⟨⟨⟨⟨⟨⟨hle, hsize⟩, hleft⟩, hright⟩, hstart⟩, hend⟩, hhash⟩ := h
    exact ⟨hle, hsize, hleft, hright, hstart.resolve_left (absurd hsize),
      hend.resolve_left (absurd hsize), hhash⟩
  · intro h
    obtain ⟨hle, hsize, hleft, hright, hstart, hend, hhash⟩ := h
    exact ⟨⟨⟨⟨⟨⟨hle, hsize⟩, hleft⟩, hright⟩, .inr hstart⟩, .inr hend⟩, hhash⟩

/-- The hash is that of the header and the buffer as double words. -/
theorem computeHash_eq (s : GuardedStack) :
    s.computeHash = ([s.leftGuard, s.size, s.capacity, s.rightGuard] ++
      s.buffer.toList.map Int64.toUInt64).foldl Fnv.addDoubleWord Fnv.start := by
  simp only [computeHash, List.foldl_append, List.foldl_map, Array.foldl_toList]

theorem toUInt64_injective : Function.Injective Int64.toUInt64 :=
  Function.LeftInverse.injective Int64.toInt64_toUInt64

theorem map_toUInt64_modify (words : List Int64) (index : Nat) (change : UInt64 → UInt64) :
    (words.modify index fun word => (change word.toUInt64).toInt64).map Int64.toUInt64 =
      (words.map Int64.toUInt64).modify index change := by
  induction words generalizing index with
  | nil => simp
  | cons word words ih =>
    cases index with
    | zero => simp
    | succ index => simp [ih]

/-- A word that is found where another one stood was not changed by that. -/
theorem set_eq_of_getElem? {buffer : Array Int64} {i : Nat} {word old : Int64}
    (ho : buffer[i]? = some old) (hn : (buffer.setIfInBounds i word)[i]? = some old) :
    buffer.setIfInBounds i word = buffer := by
  obtain ⟨hi, hold⟩ := Array.getElem?_eq_some_iff.mp ho
  rw [Array.getElem?_setIfInBounds_self_of_lt hi, Option.some.injEq] at hn
  rw [Array.setIfInBounds_def, dif_pos hi, hn, ← hold, Array.set_getElem_self]

namespace Alteration

/-- A stack in which one double word was changed in one byte has another hash. -/
theorem setByte_eq_of_computeHash {s t : GuardedStack} (index : Nat) (place : Fin 8) (byte : UInt8)
    (ht : [t.leftGuard, t.size, t.capacity, t.rightGuard] ++ t.buffer.toList.map Int64.toUInt64 =
      ([s.leftGuard, s.size, s.capacity, s.rightGuard] ++
        s.buffer.toList.map Int64.toUInt64).modify index fun word => Bytes.setByte word place byte)
    (h : t.computeHash = s.computeHash) :
    t.size = s.size ∧ t.buffer = s.buffer := by
  rw [computeHash_eq, computeHash_eq, ht] at h
  rw [Fnv.modify_eq_of_foldl_addDoubleWord place.isLt h] at ht
  simp only [List.cons_append, List.nil_append, List.cons.injEq] at ht
  obtain ⟨-, hsize, -, -, hwords⟩ := ht
  exact ⟨hsize, Array.toList_inj.mp (List.map_injective_iff.mpr toUInt64_injective hwords)⟩

/-- An altered stack without findings is the stack that it was before. -/
theorem apply_eq_of_status {s : GuardedStack} {words : List Int64} {a : Alteration}
    (h : s.Holds words) (hc : a.Countable) (hn : (a.apply s).status = []) : a.apply s = s := by
  obtain ⟨-, hsize, hleft, hright, hstart, hend, hhash⟩ := status_eq_nil_iff.mp hn
  cases a with
  | bufferByte index place byte =>
    have hwords := map_toUInt64_modify s.buffer.toList index fun word =>
      Bytes.setByte word place byte
    have hsame : (apply s (bufferByte index place byte)).buffer = s.buffer := by
      refine (setByte_eq_of_computeHash (index + 4) place byte ?_ (hhash.symm.trans h.hash_eq)).2
      simp only [apply, Array.toList_modify, hwords, List.cons_append, List.nil_append,
        List.modify_succ_cons]
    simp only [apply] at hsame ⊢
    rw [hsame]
  | sizeByte place byte =>
    have hsame : (apply s (sizeByte place byte)).size = s.size :=
      (setByte_eq_of_computeHash 1 place byte rfl (hhash.symm.trans h.hash_eq)).1
    simp only [apply] at hsame ⊢
    rw [hsame]
  | leftGuard word =>
    have hsame : word = s.leftGuard := hleft.trans h.leftGuard.symm
    rw [apply, hsame]
  | rightGuard word =>
    have hsame : word = s.rightGuard := hright.trans h.rightGuard.symm
    rw [apply, hsame]
  | bufferStart word =>
    rw [apply, set_eq_of_getElem? h.getElem?_zero hstart]
  | bufferEnd word =>
    have hback := h.back?
    rw [Array.back?_eq_getElem?] at hback hend
    simp only [apply, Array.size_setIfInBounds] at hend ⊢
    rw [set_eq_of_getElem? hback hend]
  | capacity slots =>
    have hslots : slots.toNat < 2 ^ 64 - 2 := hc
    have hsame : slots = s.capacity := by
      apply UInt64.toNat_inj.mp
      simp only [apply, h.buffer_size, UInt64.toNat_add, UInt64.reduceToNat] at hsize
      omega
    rw [apply, hsame]
  | hash word =>
    have hsame : word = s.hash := hhash.trans h.hash_eq.symm
    rw [apply, hsame]
  | truncate length =>
    have hcapacity := h.capacity_lt
    simp only [apply, Array.take_eq_extract, Array.size_extract, UInt64.toNat_add,
      UInt64.reduceToNat] at hsize ⊢
    have hwhole : s.buffer.extract 0 length = s.buffer := by
      apply Array.extract_eq_self_of_le
      have := h.buffer_size
      omega
    rw [hwhole]

end Alteration

end StackMachine.GuardedStack
