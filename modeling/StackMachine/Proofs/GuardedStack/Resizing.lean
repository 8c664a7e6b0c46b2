import StackMachine.Proofs.GuardedStack.Uppermost

namespace StackMachine.GuardedStack

/-- What a call does to the size and the capacity. -/
inductive Moves : Nat → Nat → Nat → Nat → Prop where
  | stay (size capacity : Nat) : Moves size capacity size capacity
  | push {size capacity : Nat} (hroom : size < capacity) :
      Moves size capacity (size + 1) capacity
  /-- A full stack grows. -/
  | grow (size : Nat) : Moves size size (size + 1) (2 * size + 1)
  | pop {size capacity : Nat} (hmany : capacity ≤ 4 * size) :
      Moves (size + 1) capacity size capacity
  /-- A stack with few live words shrinks, to a buffer that may have as many slots as before. -/
  | shrink {size capacity : Nat} (hfew : 4 * size < capacity) :
      Moves (size + 1) capacity size (capacity / 2 + 1)

theorem moves_of_push {s t : GuardedStack} {word : Int64} (h : s.push word = .ok t)
    (hs : s.size.toNat < 2 ^ 62) :
    Moves s.size.toNat s.capacity.toNat t.size.toNat t.capacity.toNat := by
  have hstatus : s.status = [] := by
    by_contra hne
    simp [push, check, hne, bind, Except.bind] at h
  obtain ⟨hle, -⟩ := status_eq_nil_iff.mp hstatus
  have hfit := UInt64.le_iff_toNat_le.mp hle
  have hnext := @toNat_next s.size (by omega)
  simp only [push, check, hstatus, List.isEmpty_nil, ↓reduceIte, bind, Except.bind] at h
  obtain rfl := Except.ok.inj h
  by_cases hfull : s.capacity < s.size + 1
  · have hsize : s.capacity.toNat = s.size.toNat := by
      rw [UInt64.lt_iff_toNat_lt, hnext] at hfull
      omega
    have hslots := @toNat_larger s.capacity (by omega)
    simp only [hfull, ↓reduceIte, rehash, size_resize, capacity_resize, hnext, hslots, hsize]
    exact .grow s.size.toNat
  · have hroom : s.size.toNat < s.capacity.toNat := by
      rw [UInt64.lt_iff_toNat_lt, hnext] at hfull
      omega
    simp only [hfull, ↓reduceIte, rehash, hnext]
    exact .push hroom

theorem moves_of_pop {s t : GuardedStack} {word : Int64} (h : s.pop = .ok (word, t))
    (hs : s.size.toNat < 2 ^ 62) :
    Moves s.size.toNat s.capacity.toNat t.size.toNat t.capacity.toNat := by
  obtain ⟨hstatus, hsize, -⟩ := pop_eq h
  simp only [pop, check, hstatus, List.isEmpty_nil, ↓reduceIte, bind, Except.bind] at h
  split at h
  · cases h
  · rename_i hne
    have hless := toNat_sub_one hne
    have hfourfold := @toNat_fourfold (s.size - 1) (by omega)
    obtain ⟨-, rfl⟩ := Prod.mk.inj (Except.ok.inj h)
    by_cases hfew : (s.size - 1) * 4 < s.capacity
    · simp only [hfew, ↓reduceIte, rehash, size_resize, capacity_resize, toNat_smaller, ← hless]
      rw [UInt64.lt_iff_toNat_lt, hfourfold] at hfew
      exact .shrink hfew
    · simp only [hfew, ↓reduceIte, rehash, ← hless]
      rw [UInt64.lt_iff_toNat_lt, hfourfold] at hfew
      exact .pop (Nat.le_of_not_lt hfew)

/-- Every call makes a move. -/
theorem Call.moves (call : Call) {s : GuardedStack} (hs : s.size.toNat < 2 ^ 62) :
    Moves s.size.toNat s.capacity.toNat (call.on s).2.size.toNat (call.on s).2.capacity.toNat := by
  cases call with
  | push word =>
    simp only [on]
    split
    · rename_i t ht
      exact moves_of_push ht hs
    · exact .stay _ _
  | pop =>
    simp only [on]
    split
    · rename_i word t ht
      exact moves_of_pop ht hs
    · exact .stay _ _
  | top => exact .stay _ _
  | peek depth => exact .stay _ _

namespace Moves

variable {size capacity size' capacity' : Nat} (h : Moves size capacity size' capacity')

include h

theorem size_le : size' ≤ size + 1 := by
  cases h <;> omega

theorem le_size : size ≤ size' + 1 := by
  cases h <;> omega

theorem capacity_le : capacity' ≤ max capacity (2 * size' - 1) := by
  cases h <;> omega

theorem capacity_pos (hpos : 0 < capacity) : 0 < capacity' := by
  cases h <;> omega

/-- A capacity gets larger only when the stack was full. -/
theorem of_grown (hlt : capacity < capacity') :
    size = capacity ∧ size' = size + 1 ∧ capacity' = 2 * capacity + 1 := by
  cases h with
  | grow => exact ⟨rfl, rfl, rfl⟩
  | stay | push | pop | shrink => omega

/-- A capacity gets smaller only when less than a quarter of it is live. -/
theorem of_shrunk (hlt : capacity' < capacity) :
    4 * size' < capacity ∧ capacity' = capacity / 2 + 1 := by
  cases h with
  | shrink hfew => exact ⟨hfew, rfl⟩
  | stay | push | pop | grow => omega

end Moves

/-- The largest of the first numbers of a sequence, up to the one with the given index. -/
def peak (size : Nat → Nat) : Nat → Nat
  | 0 => size 0
  | n + 1 => max (peak size n) (size (n + 1))

theorem le_peak (size : Nat → Nat) {i n : Nat} (h : i ≤ n) : size i ≤ peak size n := by
  induction n with
  | zero =>
    rw [Nat.le_zero.mp h]
    exact Nat.le_refl _
  | succ n ih =>
    rcases Nat.le_succ_iff.mp h with hle | rfl
    · exact (ih hle).trans (Nat.le_max_left _ _)
    · exact Nat.le_max_right _ _

section Run

variable {size capacity : Nat → Nat}
  (hmoves : ∀ n, Moves (size n) (capacity n) (size (n + 1)) (capacity (n + 1)))

include hmoves

theorem capacity_le_peak (n : Nat) : capacity n ≤ max (capacity 0) (2 * peak size n - 1) := by
  induction n with
  | zero => exact Nat.le_max_left _ _
  | succ n ih =>
    have hstep := (hmoves n).capacity_le
    simp only [peak]
    omega

theorem capacity_stays_pos {i j : Nat} (hij : i ≤ j) (hpos : 0 < capacity i) : 0 < capacity j := by
  induction j, hij using Nat.le_induction with
  | base => exact hpos
  | succ j hij ih => exact (hmoves j).capacity_pos ih

/-- A size changes by at most one with each move. -/
theorem size_near (i k : Nat) : size (i + k) ≤ size i + k ∧ size i ≤ size (i + k) + k := by
  induction k with
  | zero => exact ⟨Nat.le_refl _, Nat.le_refl _⟩
  | succ k ih =>
    have hup := (hmoves (i + k)).size_le
    have hdown := (hmoves (i + k)).le_size
    rw [← Nat.add_assoc]
    omega

variable {i j : Nat} (hij : i < j) (hsame : capacity j = capacity (i + 1))

include hij hsame

/-- A full stack that grew has to lose a quarter of its new capacity before it shrinks. -/
theorem grown_then_shrunk (hgrown : capacity i < capacity (i + 1))
    (hshrunk : capacity (j + 1) < capacity j) : capacity (i + 1) < 4 * (j - i) := by
  obtain ⟨hfull, hsize, hnew⟩ := (hmoves i).of_grown hgrown
  obtain ⟨hfew, -⟩ := (hmoves j).of_shrunk hshrunk
  obtain ⟨-, hnear⟩ := size_near hmoves (i + 1) (j - i)
  have hindex : i + 1 + (j - i) = j + 1 := by omega
  rw [hindex] at hnear
  omega

/-- A stack that shrank has to gain a quarter of its old capacity before it grows. -/
theorem shrunk_then_grown (hshrunk : capacity (i + 1) < capacity i)
    (hgrown : capacity j < capacity (j + 1)) : capacity i < 4 * (j - i) := by
  obtain ⟨hfew, hnew⟩ := (hmoves i).of_shrunk hshrunk
  obtain ⟨hfull, hsize, -⟩ := (hmoves j).of_grown hgrown
  obtain ⟨hnear, -⟩ := size_near hmoves (i + 1) (j - i)
  have hindex : i + 1 + (j - i) = j + 1 := by omega
  rw [hindex] at hnear
  omega

end Run

/-- The stack that was made with a capacity, after so many of the calls. -/
def made (capacity : UInt64) (calls : List Call) (n : Nat) : GuardedStack :=
  (replay Call.on (empty capacity) (calls.take n)).2

def sizeAfter (capacity : UInt64) (calls : List Call) (n : Nat) : Nat :=
  (made capacity calls n).size.toNat

def capacityAfter (capacity : UInt64) (calls : List Call) (n : Nat) : Nat :=
  (made capacity calls n).capacity.toNat

theorem replay_snoc {σ : Type} (make : σ → Call → Answer × σ) (state : σ) (calls : List Call)
    (call : Call) :
    (replay make state (calls ++ [call])).2 = (make (replay make state calls).2 call).2 := by
  induction calls generalizing state with
  | nil => rfl
  | cons first rest ih => exact ih (make state first).2

theorem made_succ {capacity : UInt64} {calls : List Call} {n : Nat} (hn : n < calls.length) :
    made capacity calls (n + 1) = (calls[n].on (made capacity calls n)).2 := by
  rw [made, List.take_add_one, List.getElem?_eq_getElem hn, Option.toList_some, replay_snoc, made]

/-- Behind the last call nothing happens. -/
theorem made_of_length_le {capacity : UInt64} {calls : List Call} {n : Nat}
    (hn : calls.length ≤ n) : made capacity calls n = made capacity calls calls.length := by
  rw [made, made, List.take_of_length_le hn, List.take_length]

section Made

variable {capacity : UInt64} {calls : List Call}
  (hpeak : peak (sizeAfter capacity calls) calls.length < 2 ^ 62)

include hpeak

theorem moves_made (n : Nat) :
    Moves (sizeAfter capacity calls n) (capacityAfter capacity calls n)
      (sizeAfter capacity calls (n + 1)) (capacityAfter capacity calls (n + 1)) := by
  by_cases hn : n < calls.length
  · have hsize : (made capacity calls n).size.toNat < 2 ^ 62 :=
      (le_peak (sizeAfter capacity calls) (Nat.le_of_lt hn)).trans_lt hpeak
    simp only [sizeAfter, capacityAfter, made_succ hn]
    exact calls[n].moves hsize
  · have hlast := @made_of_length_le capacity calls n (Nat.le_of_not_lt hn)
    have hbehind := @made_of_length_le capacity calls (n + 1)
      ((Nat.le_of_not_lt hn).trans (Nat.le_succ n))
    simp only [sizeAfter, capacityAfter, hlast, hbehind]
    exact .stay _ _

/-- The capacity is never larger than it was in the beginning and than twice the largest size up to
then, less one. Once it is positive it stays so. If it grew, and the next time that it changes it
shrinks, then the calls since then are more than a quarter of what it grew to. If it shrank, and the
next time that it changes it grows, then they are more than a quarter of what it was before. The
sizes are such that four times a size can be counted, as it is with any buffer that fits in
memory. -/
theorem resizing_is_paid_for :
    (∀ n, capacityAfter capacity calls n ≤
      max capacity.toNat (2 * peak (sizeAfter capacity calls) n - 1)) ∧
    (∀ i j, i ≤ j → 0 < capacityAfter capacity calls i → 0 < capacityAfter capacity calls j) ∧
    (∀ i j, i < j →
      (∀ k, i < k → k ≤ j →
        capacityAfter capacity calls k = capacityAfter capacity calls (i + 1)) →
      (capacityAfter capacity calls i < capacityAfter capacity calls (i + 1) →
        capacityAfter capacity calls (j + 1) < capacityAfter capacity calls j →
        capacityAfter capacity calls (i + 1) < 4 * (j - i)) ∧
      (capacityAfter capacity calls (i + 1) < capacityAfter capacity calls i →
        capacityAfter capacity calls j < capacityAfter capacity calls (j + 1) →
        capacityAfter capacity calls i < 4 * (j - i))) := by
  have hmoves := moves_made hpeak
  refine ⟨capacity_le_peak hmoves, fun i j => capacity_stays_pos hmoves, ?_⟩
  intro i j hij hsame
  have hkept := hsame j hij (Nat.le_refl j)
  exact ⟨grown_then_shrunk hmoves hij hkept, shrunk_then_grown hmoves hij hkept⟩

end Made

/-- A stack of one slot grows, shrinks and grows again. -/
theorem resizing_is_paid_for_twice :
    let calls : List Call := [.push 1, .push 2, .pop, .pop, .push 3, .push 4, .push 5]
    peak (sizeAfter 1 calls) 7 = 3 ∧
      (List.range 8).map (capacityAfter 1 calls) = [1, 1, 3, 3, 2, 2, 2, 5] ∧
      capacityAfter 1 calls 7 ≤ max 1 (2 * 3 - 1) ∧
      capacityAfter 1 calls 2 < 4 * (3 - 1) ∧ capacityAfter 1 calls 3 < 4 * (6 - 3) := by
  intro calls
  have hpeak : peak (sizeAfter 1 calls) 7 = 3 := by decide +kernel
  have hcapacities : (List.range 8).map (capacityAfter 1 calls) = [1, 1, 3, 3, 2, 2, 2, 5] := by
    decide +kernel
  have hvalue {n : Nat} (hn : n < 8) :
      capacityAfter 1 calls n = [1, 1, 3, 3, 2, 2, 2, 5].getD n 0 := by
    rw [← hcapacities]
    simp [hn]
  have hsmall : peak (sizeAfter 1 calls) calls.length < 2 ^ 62 := by
    change peak (sizeAfter 1 calls) 7 < 2 ^ 62
    omega
  obtain ⟨hbound, -, hpaid⟩ := resizing_is_paid_for hsmall
  have hlast := hbound 7
  rw [hpeak] at hlast
  refine ⟨hpeak, hcapacities, hlast, ?_, ?_⟩
  · refine (hpaid 1 3 (by omega) ?_).1 ?_ ?_
    · intro k hlow hhigh
      have hk : k = 2 ∨ k = 3 := by omega
      rcases hk with rfl | rfl
      · rfl
      · rw [hvalue (by omega), hvalue (by omega)]
        rfl
    · rw [hvalue (by omega), hvalue (by omega)]
      decide
    · rw [hvalue (by omega), hvalue (by omega)]
      decide
  · refine (hpaid 3 6 (by omega) ?_).2 ?_ ?_
    · intro k hlow hhigh
      have hk : k = 4 ∨ k = 5 ∨ k = 6 := by omega
      rcases hk with rfl | rfl | rfl
      · rfl
      · rw [hvalue (by omega), hvalue (by omega)]
        rfl
      · rw [hvalue (by omega), hvalue (by omega)]
        rfl
    · rw [hvalue (by omega), hvalue (by omega)]
      decide
    · rw [hvalue (by omega), hvalue (by omega)]
      decide

end StackMachine.GuardedStack
