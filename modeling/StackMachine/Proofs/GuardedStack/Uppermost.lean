import StackMachine.Proofs.GuardedStack.Alteration

namespace StackMachine.GuardedStack

/-- Behind the guard a buffer has its live words and then poison. -/
theorem getD_fill {live : Array Int64} {dead i : Nat} (hi : i < live.size + dead) :
    (fill live dead).getD (i + 1) poison = live.getD i poison := by
  rw [Array.getD_eq_getD_getElem?, Array.getD_eq_getD_getElem?]
  by_cases hl : i < live.size
  · rw [← Array.getElem?_toList, fill_toList, List.getElem?_cons_succ, List.append_assoc,
      List.getElem?_append_left (by simpa using hl), Array.getElem?_toList]
  · rw [getElem?_fill_dead live dead i (Nat.le_of_not_lt hl) hi,
      Array.getElem?_eq_none (Nat.le_of_not_lt hl)]
    rfl

theorem peek_of_status {s : GuardedStack} (h : s.status = []) (depth : Nat) :
    s.peek depth = if s.size.toNat ≤ depth then .error .underflow
      else .ok (s.buffer.getD (s.size.toNat - depth) poison) := by
  simp [peek, check, h, bind, Except.bind]

@[simp] theorem size_resize (s : GuardedStack) (capacity : UInt64) :
    (s.resize capacity).size = s.size := rfl

@[simp] theorem capacity_resize (s : GuardedStack) (capacity : UInt64) :
    (s.resize capacity).capacity = capacity := rfl

/-- Moving to a buffer that is large enough for the size keeps the words below it. -/
theorem getD_resize {s : GuardedStack} {capacity : UInt64} (hle : s.size ≤ capacity) {i : Nat}
    (hi : i < s.size.toNat) :
    (s.resize capacity).buffer.getD (i + 1) poison = s.buffer.getD (i + 1) poison := by
  have hmin : min s.size capacity = s.size := by
    change (if s.size ≤ capacity then s.size else capacity) = s.size
    rw [if_pos hle]
  have hcount := UInt64.le_iff_toNat_le.mp hle
  simp only [resize, hmin]
  rw [getD_fill (by omega)]
  simp only [Array.getD_eq_getD_getElem?, Array.getElem?_extract]
  split
  · rw [Nat.add_comm]
  · rw [Array.getElem?_eq_none (by omega)]

/-- What a stack is, but for the hash, after its top was taken: the slot is poisoned, and the rest
may have moved. -/
theorem pop_eq {s t : GuardedStack} {word : Int64} (h : s.pop = .ok (word, t)) :
    s.status = [] ∧ (t.size.toNat + 1 = s.size.toNat) ∧ word = s.buffer.getD s.size.toNat poison ∧
      (t.size ≤ t.capacity → ∀ i < t.size.toNat,
        t.buffer.getD (i + 1) poison = s.buffer.getD (i + 1) poison) := by
  have hs : s.status = [] := by
    by_contra hne
    simp [pop, check, hne, bind, Except.bind] at h
  simp only [pop, check, hs, List.isEmpty_nil, ↓reduceIte, bind, Except.bind] at h
  split at h
  · cases h
  · rename_i hne
    have hsize := toNat_sub_one hne
    have hpoisoned {i : Nat} (hi : i < (s.size - 1).toNat) :
        (s.buffer.setIfInBounds s.size.toNat poison).getD (i + 1) poison =
          s.buffer.getD (i + 1) poison := by
      simp only [Array.getD_eq_getD_getElem?]
      rw [Array.getElem?_setIfInBounds_ne (by omega)]
    obtain ⟨rfl, rfl⟩ := Prod.mk.inj (Except.ok.inj h)
    by_cases hfew : (s.size - 1) * 4 < s.capacity
    · simp only [hfew, ↓reduceIte, rehash, size_resize, capacity_resize]
      refine ⟨hs, hsize, trivial, fun hle i hi => ?_⟩
      rw [getD_resize hle hi]
      exact hpoisoned hi
    · simp only [hfew, ↓reduceIte, rehash]
      exact ⟨hs, hsize, trivial, fun _ i hi => hpoisoned hi⟩

end StackMachine.GuardedStack
