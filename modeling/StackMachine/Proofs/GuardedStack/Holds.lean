import StackMachine.GuardedStack
import Mathlib.Data.UInt
import Mathlib.Tactic.Common

namespace StackMachine.GuardedStack

/-- The fields but the hash are those of a stack with the given live words, the top in front. Four
times the size is still a number of 64 bits, as it is for all buffers that can be allocated. -/
structure Arranged (s : GuardedStack) (words : List Int64) : Prop where
  leftGuard : s.leftGuard = guardWord
  rightGuard : s.rightGuard = guardWord
  size_eq : s.size.toNat = words.length
  size_le : words.length ≤ s.capacity.toNat
  capacity_lt : s.capacity.toNat + 2 < 2 ^ 62
  buffer_eq : s.buffer = fill words.reverse.toArray (s.capacity.toNat - words.length)

/-- The stack is whole, and its live words are the given ones, the top in front. -/
structure Holds (s : GuardedStack) (words : List Int64) : Prop extends Arranged s words where
  hash_eq : s.hash = s.computeHash

theorem toNat_add_of_lt {a b : UInt64} (h : a.toNat + b.toNat < 2 ^ 64) :
    (a + b).toNat = a.toNat + b.toNat := by
  rw [UInt64.toNat_add, Nat.mod_eq_of_lt h]

theorem toNat_mul_of_lt {a b : UInt64} (h : a.toNat * b.toNat < 2 ^ 64) :
    (a * b).toNat = a.toNat * b.toNat := by
  rw [UInt64.toNat_mul, Nat.mod_eq_of_lt h]

theorem toNat_next {n : UInt64} (h : n.toNat + 1 < 2 ^ 64) : (n + 1).toNat = n.toNat + 1 :=
  toNat_add_of_lt h

/-- The slots of a stack that grows. -/
theorem toNat_larger {capacity : UInt64} (h : 2 * capacity.toNat + 1 < 2 ^ 64) :
    (capacity * 2 + 1).toNat = 2 * capacity.toNat + 1 := by
  have htwo : (2 : UInt64).toNat = 2 := rfl
  have htwice : (capacity * 2).toNat = capacity.toNat * 2 :=
    toNat_mul_of_lt (by rw [htwo]; omega)
  rw [toNat_next (by omega), htwice, Nat.mul_comm]

/-- The slots of a stack that shrinks. -/
theorem toNat_smaller (capacity : UInt64) :
    (capacity / 2 + 1).toNat = capacity.toNat / 2 + 1 := by
  have hlt := capacity.toNat_lt
  have hhalf : (capacity / 2).toNat = capacity.toNat / 2 := UInt64.toNat_div _ _
  rw [toNat_next (by omega), hhalf]

theorem toNat_fourfold {n : UInt64} (h : 4 * n.toNat < 2 ^ 64) :
    (n * 4).toNat = 4 * n.toNat := by
  have hfour : (4 : UInt64).toNat = 4 := rfl
  have hmul : (n * 4).toNat = n.toNat * 4 := toNat_mul_of_lt (by rw [hfour]; omega)
  rw [hmul, Nat.mul_comm]

theorem toNat_sub_one {n : UInt64} (h : n ≠ 0) : (n - 1).toNat + 1 = n.toNat := by
  have hpos : 1 ≤ n := by
    rw [UInt64.le_iff_toNat_le, UInt64.toNat_one, Nat.one_le_iff_ne_zero]
    exact fun hz => h (UInt64.toNat_inj.mp hz)
  have hle := UInt64.le_iff_toNat_le.mp hpos
  rw [UInt64.toNat_sub_of_le _ _ hpos]
  simp only [UInt64.toNat_one] at hle ⊢
  omega

@[simp] theorem size_fill (live : Array Int64) (dead : Nat) :
    (fill live dead).size = live.size + dead + 2 := by
  simp [fill]
  omega

theorem fill_toList (live : Array Int64) (dead : Nat) :
    (fill live dead).toList =
      guardWord.toInt64 :: (live.toList ++ List.replicate dead poison ++ [guardWord.toInt64]) := by
  simp [fill]

theorem getElem?_fill_zero (live : Array Int64) (dead : Nat) :
    (fill live dead)[0]? = some guardWord.toInt64 := by
  rw [← Array.getElem?_toList, fill_toList]
  rfl

theorem back?_fill (live : Array Int64) (dead : Nat) :
    (fill live dead).back? = some guardWord.toInt64 := by
  simp [fill]

theorem extract_fill (live : Array Int64) (dead : Nat) :
    (fill live dead).extract 1 (1 + live.size) = live := by
  apply Array.toList_inj.mp
  simp [fill_toList, Array.toList_extract]

/-- The first dead slot takes a new word. -/
theorem set_fill_push (live : Array Int64) (dead : Nat) (word : Int64) :
    (fill live (dead + 1)).setIfInBounds (live.size + 1) word = fill (live.push word) dead := by
  apply Array.toList_inj.mp
  simp [fill_toList, List.replicate_succ]

theorem set_fill_pop (live : Array Int64) (dead : Nat) (word : Int64) :
    (fill (live.push word) dead).setIfInBounds (live.size + 1) poison = fill live (dead + 1) := by
  apply Array.toList_inj.mp
  simp [fill_toList, List.replicate_succ]

/-- Poison stands in every slot that is not live. -/
theorem getElem?_fill_dead (live : Array Int64) (dead i : Nat) (hl : live.size ≤ i)
    (hd : i < live.size + dead) : (fill live dead)[i + 1]? = some poison := by
  rw [← Array.getElem?_toList, fill_toList]
  simp only [List.getElem?_cons_succ]
  rw [List.getElem?_append_left (by simp; omega), List.getElem?_append_right (by simpa using hl),
    List.getElem?_replicate_of_lt (by simp; omega)]

theorem Arranged.rehash {s : GuardedStack} {words : List Int64} (h : Arranged s words) :
    Holds s.rehash words :=
  { h with hash_eq := rfl }

theorem Holds.empty (capacity : UInt64) (hc : capacity.toNat + 2 < 2 ^ 62) :
    Holds (empty capacity) [] :=
  Arranged.rehash ⟨rfl, rfl, rfl, Nat.zero_le _, hc, rfl⟩

theorem Arranged.buffer_size {s : GuardedStack} {words : List Int64} (h : Arranged s words) :
    s.buffer.size = s.capacity.toNat + 2 := by
  have hle := h.size_le
  rw [h.buffer_eq, size_fill]
  simp only [List.size_toArray, List.length_reverse]
  omega

theorem Arranged.getElem?_zero {s : GuardedStack} {words : List Int64} (h : Arranged s words) :
    s.buffer[0]? = some guardWord.toInt64 := by
  rw [h.buffer_eq, getElem?_fill_zero]

theorem Arranged.back? {s : GuardedStack} {words : List Int64} (h : Arranged s words) :
    s.buffer.back? = some guardWord.toInt64 := by
  rw [h.buffer_eq, back?_fill]

/-- The live words stand behind the guard, bottom first. -/
theorem Arranged.getD {s : GuardedStack} {words : List Int64} (h : Arranged s words) {i : Nat}
    (hi : i < words.length) : s.buffer.getD (words.length - i) poison = words[i] := by
  have hj : words.length - i = (words.length - 1 - i) + 1 := by omega
  rw [h.buffer_eq, Array.getD_eq_getD_getElem?, ← Array.getElem?_toList, fill_toList, hj,
    List.getElem?_cons_succ, List.append_assoc, List.getElem?_append_left (by simp; omega),
    List.getElem?_reverse (by omega)]
  have hk : words.length - 1 - (words.length - 1 - i) = i := by omega
  simp [hk, List.getElem?_eq_getElem hi]

theorem Holds.status {s : GuardedStack} {words : List Int64} (h : Holds s words) :
    s.status = [] := by
  have hc := h.capacity_lt
  have hfits : s.buffer.size = (s.capacity + 2).toNat := by
    rw [h.buffer_size, UInt64.toNat_add]
    exact (Nat.mod_eq_of_lt (by simp; omega)).symm
  have hle : s.size ≤ s.capacity := by
    rw [UInt64.le_iff_toNat_le, h.size_eq]
    exact h.size_le
  simp [GuardedStack.status, require, hle, hfits, h.leftGuard, h.rightGuard, h.getElem?_zero,
    h.back?, h.hash_eq]

theorem Holds.check {s : GuardedStack} {words : List Int64} (h : Holds s words) :
    s.check = .ok () := by
  simp [GuardedStack.check, h.status]

/-- Moving the live words into a buffer of another size keeps them. -/
theorem Arranged.resize {s : GuardedStack} {words : List Int64} (h : Arranged s words)
    {capacity : UInt64} (hle : words.length ≤ capacity.toNat) (hlt : capacity.toNat + 2 < 2 ^ 62) :
    Arranged (s.resize capacity) words := by
  have hmin : (min s.size capacity).toNat = words.length := by
    have hs : s.size ≤ capacity := by
      rw [UInt64.le_iff_toNat_le, h.size_eq]
      exact hle
    change (if s.size ≤ capacity then s.size else capacity).toNat = words.length
    rw [if_pos hs, h.size_eq]
  have hlive : s.buffer.extract 1 (1 + (min s.size capacity).toNat) = words.reverse.toArray := by
    rw [hmin, h.buffer_eq]
    simpa using extract_fill words.reverse.toArray (s.capacity.toNat - words.length)
  simp only [GuardedStack.resize, hlive]
  refine ⟨h.leftGuard, h.rightGuard, h.size_eq, hle, hlt, ?_⟩
  simp

/-- A full stack grows, and then there is a dead slot in any case. -/
theorem Arranged.grow {s : GuardedStack} {words : List Int64} (h : Arranged s words)
    (hroom : 2 * words.length + 3 < 2 ^ 62) :
    ∃ t, (if s.capacity < s.size + 1 then s.resize (s.capacity * 2 + 1) else s) = t ∧
      Arranged t words ∧ words.length < t.capacity.toNat := by
  have hold := h.size_eq
  have hle := h.size_le
  have hsize : (s.size + 1).toNat = words.length + 1 := by
    rw [toNat_next (by omega), hold]
  by_cases hfull : s.capacity < s.size + 1
  · rw [if_pos hfull]
    rw [UInt64.lt_iff_toNat_lt, hsize] at hfull
    have hnew := @toNat_larger s.capacity (by omega)
    have hfit : words.length ≤ (s.capacity * 2 + 1).toNat := by omega
    have hcount : (s.capacity * 2 + 1).toNat + 2 < 2 ^ 62 := by omega
    refine ⟨_, rfl, h.resize hfit hcount, ?_⟩
    change words.length < (s.capacity * 2 + 1).toNat
    omega
  · rw [if_neg hfull]
    rw [UInt64.lt_iff_toNat_lt, hsize] at hfull
    exact ⟨s, rfl, h, by omega⟩

/-- A word takes the first dead slot. -/
theorem Arranged.addTop {s : GuardedStack} {words : List Int64} (h : Arranged s words)
    (hdead : words.length < s.capacity.toNat) (word : Int64) :
    Arranged { s with
      buffer := s.buffer.setIfInBounds (s.size + 1).toNat word, size := s.size + 1 }
      (word :: words) := by
  have hlt := h.capacity_lt
  have hold := h.size_eq
  have hsize : (s.size + 1).toNat = words.length + 1 := by
    rw [toNat_next (by omega), hold]
  refine ⟨h.leftGuard, h.rightGuard, hsize, hdead, hlt, ?_⟩
  have hset := set_fill_push words.reverse.toArray (s.capacity.toNat - (words.length + 1)) word
  have hslots : s.capacity.toNat - (words.length + 1) + 1 = s.capacity.toNat - words.length := by
    omega
  simp only [List.size_toArray, List.length_reverse, hslots] at hset
  simpa [hsize, h.buffer_eq] using hset

/-- The slot of the top word gets poisoned. -/
theorem Arranged.removeTop {s : GuardedStack} {word : Int64} {words : List Int64}
    (h : Arranged s (word :: words)) :
    Arranged { s with
      buffer := s.buffer.setIfInBounds s.size.toNat poison, size := s.size - 1 } words := by
  have hsize : s.size.toNat = words.length + 1 := h.size_eq
  have hle : words.length + 1 ≤ s.capacity.toNat := h.size_le
  have hless : (s.size - 1).toNat = words.length := by
    have hne : s.size ≠ 0 := by
      intro hz
      rw [hz] at hsize
      cases hsize
    have hone := toNat_sub_one hne
    omega
  refine ⟨h.leftGuard, h.rightGuard, hless, Nat.le_of_succ_le hle, h.capacity_lt, ?_⟩
  have hset := set_fill_pop words.reverse.toArray (s.capacity.toNat - (words.length + 1)) word
  have hslots : s.capacity.toNat - (words.length + 1) + 1 = s.capacity.toNat - words.length := by
    omega
  simp only [List.size_toArray, List.length_reverse, hslots] at hset
  simpa [hsize, h.buffer_eq] using hset

theorem Arranged.shrink {s : GuardedStack} {words : List Int64} (h : Arranged s words) :
    Arranged (if s.size * 4 < s.capacity then s.resize (s.capacity / 2 + 1) else s) words := by
  by_cases hfew : s.size * 4 < s.capacity
  · rw [if_pos hfew]
    have hle := h.size_le
    have hlt := h.capacity_lt
    have hsize := h.size_eq
    have hnew := toNat_smaller s.capacity
    rw [UInt64.lt_iff_toNat_lt, toNat_fourfold (by omega)] at hfew
    exact h.resize (by omega) (by omega)
  · rw [if_neg hfew]
    exact h

theorem Holds.push {s : GuardedStack} {words : List Int64} (h : Holds s words) (word : Int64)
    (hroom : 2 * words.length + 3 < 2 ^ 62) :
    ∃ t, s.push word = .ok t ∧ Holds t (word :: words) := by
  obtain ⟨t, ht, ha, hdead⟩ := h.grow hroom
  exact ⟨_, by simp only [GuardedStack.push, h.check, bind, Except.bind, ht],
    (ha.addTop hdead word).rehash⟩

/-- An empty stack has no word to give. -/
theorem Holds.pop_nil {s : GuardedStack} (h : Holds s []) : s.pop = .error .underflow := by
  have hs : s.size = 0 := UInt64.toNat_inj.mp h.size_eq
  simp [GuardedStack.pop, h.check, bind, Except.bind, hs]

/-- The word on top comes off. -/
theorem Holds.pop {s : GuardedStack} {word : Int64} {words : List Int64}
    (h : Holds s (word :: words)) : ∃ t, s.pop = .ok (word, t) ∧ Holds t words := by
  have hsize : s.size.toNat = words.length + 1 := h.size_eq
  have hne : s.size ≠ 0 := by
    intro h0
    simp [h0] at hsize
  have hword : s.buffer.getD s.size.toNat poison = word := by
    rw [hsize]
    exact h.getD (i := 0) (by simp)
  have hold := h.removeTop.shrink.rehash
  refine ⟨_, ?_, hold⟩
  simp only [GuardedStack.pop, h.check, bind, Except.bind, hne, hword, ↓reduceIte]

/-- A word below the top, as deep as there is one, can be looked at. -/
theorem Holds.peek {s : GuardedStack} {words : List Int64} (h : Holds s words) {depth : Nat}
    {word : Int64} (hw : words[depth]? = some word) : s.peek depth = .ok word := by
  obtain ⟨hd, he⟩ := List.getElem?_eq_some_iff.mp hw
  have hget := h.getD hd
  simp only [GuardedStack.peek, h.check, bind, Except.bind, h.size_eq, hget, he]
  rw [if_neg (by omega)]

theorem Holds.peek_none {s : GuardedStack} {words : List Int64} (h : Holds s words) {depth : Nat}
    (hd : words.length ≤ depth) : s.peek depth = .error .underflow := by
  simp [GuardedStack.peek, h.check, bind, Except.bind, h.size_eq, hd]

theorem Holds.toList {s : GuardedStack} {words : List Int64} (h : Holds s words) :
    s.toList = words.reverse := by
  have hle := h.size_le
  have hlt := h.capacity_lt
  have hsize : (s.size + 1).toNat = 1 + words.length := by
    simp only [UInt64.toNat_add, h.size_eq, UInt64.reduceToNat]
    omega
  have hne : s.size + 1 ≠ 0 := by
    intro h0
    rw [h0] at hsize
    have hzero : 0 = 1 + words.length := hsize
    omega
  have hin : ¬ s.buffer.size < 1 + words.length := by
    rw [h.buffer_size]
    omega
  have hlive := extract_fill words.reverse.toArray (s.capacity.toNat - words.length)
  simp only [List.size_toArray, List.length_reverse] at hlive
  rw [GuardedStack.toList, if_neg (by simp only [hne, hsize, hin, or_self, not_false_eq_true]),
    hsize, h.buffer_eq, hlive]

end StackMachine.GuardedStack
