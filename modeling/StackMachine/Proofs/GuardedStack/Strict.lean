import StackMachine.Proofs.GuardedStack.Uppermost

namespace StackMachine.GuardedStack

namespace Strict

/-- A number as a double word, if it fits. -/
def count (n : Nat) : Option UInt64 :=
  if n < 2 ^ 64 then some (UInt64.ofNat n) else none

def add (a b : UInt64) : Option UInt64 :=
  count (a.toNat + b.toNat)

def mul (a b : UInt64) : Option UInt64 :=
  count (a.toNat * b.toNat)

def sub (a b : UInt64) : Option UInt64 :=
  if b ≤ a then some (a - b) else none

def read (buffer : Array Int64) (place : UInt64) : Option Int64 :=
  buffer[place.toNat]?

def write (buffer : Array Int64) (place : UInt64) (word : Int64) : Option (Array Int64) :=
  if place.toNat < buffer.size then some (buffer.setIfInBounds place.toNat word) else none

/-- The words from one place up to another. -/
def slice (buffer : Array Int64) (start stop : UInt64) : Option (Array Int64) :=
  if start ≤ stop ∧ stop.toNat ≤ buffer.size then
    some (buffer.extract start.toNat stop.toNat)
  else none

/-- The findings, if the words that the capacity asks for can be counted. -/
def status (s : GuardedStack) : Option (List Finding) := do
  let _ ← add s.capacity 2
  some s.status

/-- Does something with a stack that has no findings, and refuses one that has. -/
def checked {α : Type} (s : GuardedStack) (action : Option (Except Failure α)) :
    Option (Except Failure α) := do
  let findings ← status s
  if findings.isEmpty then action else some (.error (.damaged findings))

def resize (s : GuardedStack) (capacity : UInt64) : Option GuardedStack := do
  let words ← add capacity 2
  -- The place of the second guard.
  let _ ← sub words 1
  let stop ← add 1 (min s.size capacity)
  let live ← slice s.buffer 1 stop
  if stop ≤ words then
    some { s with buffer := fill live (capacity.toNat - live.size), capacity }
  else none

/-- A stack with room for one more word. -/
def grown (s : GuardedStack) : Option GuardedStack := do
  let next ← add s.size 1
  if s.capacity < next then
    let twice ← mul s.capacity 2
    let slots ← add twice 1
    resize s slots
  else some s

/-- A stack that has not too many dead slots. -/
def shrunk (s : GuardedStack) : Option GuardedStack := do
  let twice ← mul s.size 2
  let fourfold ← mul twice 2
  if fourfold < s.capacity then
    let slots ← add (s.capacity / 2) 1
    resize s slots
  else some s

/-- The place of the word on top. -/
def topPlace (s : GuardedStack) : Option UInt64 := do
  let above ← add 1 s.size
  sub above 1

def push (s : GuardedStack) (word : Int64) : Option (Except Failure GuardedStack) :=
  checked s do
    let s ← grown s
    let slot ← add 1 s.size
    let buffer ← write s.buffer slot word
    let size ← add s.size 1
    some (.ok (rehash { s with buffer, size }))

def pop (s : GuardedStack) : Option (Except Failure (Int64 × GuardedStack)) :=
  checked s do
    if s.size = 0 then some (.error .underflow)
    else
      let slot ← topPlace s
      let word ← read s.buffer slot
      let buffer ← write s.buffer slot poison
      let size ← sub s.size 1
      let s ← shrunk { s with buffer, size }
      some (.ok (word, rehash s))

def peek (s : GuardedStack) (depth : Nat) : Option (Except Failure Int64) :=
  checked s do
    if s.size.toNat ≤ depth then some (.error .underflow)
    else
      let top ← topPlace s
      let slot ← sub top (UInt64.ofNat depth)
      let word ← read s.buffer slot
      some (.ok word)

/-- What a call gives back and what it leaves, unless it stops: at a number that does not fit in 64
bits, or at a place outside of the buffer. Memory for a new buffer is taken to be there. -/
def on (s : GuardedStack) : Call → Option (Answer × GuardedStack)
  | .push word => (push s word).map fun
    | .ok t => (.ok none, t)
    | .error failure => (.error failure, s)
  | .pop => (pop s).map fun
    | .ok (word, t) => (.ok (some word), t)
    | .error failure => (.error failure, s)
  | .top => (peek s 0).map fun answer => (answer.map some, s)
  | .peek depth => (peek s depth).map fun answer => (answer.map some, s)

theorem count_eq {n : Nat} (h : n < 2 ^ 64) : count n = some (UInt64.ofNat n) :=
  if_pos h

theorem add_eq {a b : UInt64} (h : a.toNat + b.toNat < 2 ^ 64) : add a b = some (a + b) := by
  rw [add, count_eq h, UInt64.ofNat_add, UInt64.ofNat_toNat, UInt64.ofNat_toNat]

theorem mul_eq {a b : UInt64} (h : a.toNat * b.toNat < 2 ^ 64) : mul a b = some (a * b) := by
  rw [mul, count_eq h, UInt64.ofNat_mul, UInt64.ofNat_toNat, UInt64.ofNat_toNat]

theorem sub_eq {a b : UInt64} (h : b.toNat ≤ a.toNat) : sub a b = some (a - b) :=
  if_pos (UInt64.le_iff_toNat_le.mpr h)

theorem topPlace_eq {s : GuardedStack} (h : s.size.toNat + 1 < 2 ^ 64) :
    topPlace s = some s.size := by
  have hone : (1 : UInt64).toNat = 1 := rfl
  have habove : (1 + s.size).toNat = 1 + s.size.toNat := toNat_add_of_lt (by omega)
  have hadd : add 1 s.size = some (1 + s.size) := add_eq (by omega)
  have hsub : sub (1 + s.size) 1 = some (1 + s.size - 1) := sub_eq (by omega)
  simp only [topPlace, hadd, hsub, bind, Option.bind]
  rw [UInt64.add_comm, UInt64.add_sub_cancel]

theorem write_eq {buffer : Array Int64} {place : UInt64} (word : Int64)
    (h : place.toNat < buffer.size) :
    write buffer place word = some (buffer.setIfInBounds place.toNat word) :=
  if_pos h

theorem read_eq {buffer : Array Int64} {place : UInt64} (h : place.toNat < buffer.size) :
    read buffer place = some (buffer.getD place.toNat poison) := by
  rw [read, Array.getD_eq_getD_getElem?, Array.getElem?_eq_getElem h, Option.getD_some]

/-- The findings are found strictly unless the words of the buffer cannot be counted. -/
theorem status_eq (s : GuardedStack) :
    status s = if s.capacity.toNat + 2 < 2 ^ 64 then some s.status else none := by
  have htwo : (2 : UInt64).toNat = 2 := rfl
  rw [status, add, count, htwo]
  split
  · rfl
  · rfl

section Countable

variable {s : GuardedStack} (hc : s.capacity.toNat + 2 < 2 ^ 64)

include hc

theorem checked_of_status {α : Type} {action : Option (Except Failure α)} (h : s.status = []) :
    checked s action = action := by
  rw [checked, status_eq, if_pos hc, h]
  rfl

theorem checked_of_findings {α : Type} {action : Option (Except Failure α)} (h : s.status ≠ []) :
    checked s action = some (.error (.damaged s.status)) := by
  rw [checked, status_eq, if_pos hc]
  simp [h]

/-- A stack with findings is refused, and nothing stops that. -/
theorem on_of_findings (h : s.status ≠ []) (call : Call) :
    on s call = some (.error (.damaged s.status), s) := by
  cases call with
  | push word => simp [on, push, checked_of_findings hc h]
  | pop => simp [on, pop, checked_of_findings hc h]
  | top => simp [on, peek, checked_of_findings hc h, Except.map]
  | peek depth => simp [on, peek, checked_of_findings hc h, Except.map]

end Countable

end Strict

/-- The buffer is as long as the capacity asks for, exactly, and all guards are in place. -/
structure Framed (s : GuardedStack) : Prop where
  size_le : s.size.toNat ≤ s.capacity.toNat
  buffer_size : s.buffer.size = s.capacity.toNat + 2
  leftGuard : s.leftGuard = guardWord
  rightGuard : s.rightGuard = guardWord
  start_eq : s.buffer[0]? = some guardWord.toInt64
  back_eq : s.buffer.back? = some guardWord.toInt64

theorem Framed.status_rehash {s : GuardedStack} (h : s.Framed)
    (hc : s.capacity.toNat + 2 < 2 ^ 64) : s.rehash.status = [] := by
  have hwords : (s.capacity + 2).toNat = s.capacity.toNat + 2 := toNat_add_of_lt hc
  exact status_eq_nil_iff.mpr ⟨UInt64.le_iff_toNat_le.mpr h.size_le,
    h.buffer_size.trans hwords.symm, h.leftGuard, h.rightGuard, h.start_eq, h.back_eq, rfl⟩

/-- A stack without findings is framed, unless its capacity is the greatest one. Then its buffer is
a guard and nothing else. -/
theorem framed_of_status {s : GuardedStack} (h : s.status = []) :
    s.Framed ∧ s.capacity.toNat + 2 < 2 ^ 64 ∨
      s.capacity.toNat = 2 ^ 64 - 1 ∧ s.buffer = #[guardWord.toInt64] := by
  obtain ⟨hle, hsize, hleft, hright, hstart, hback, -⟩ := status_eq_nil_iff.mp h
  have hcapacity := s.capacity.toNat_lt
  obtain ⟨hpos, -⟩ := Array.getElem?_eq_some_iff.mp hstart
  simp only [UInt64.toNat_add, UInt64.reduceToNat] at hsize
  by_cases hc : s.capacity.toNat + 2 < 2 ^ 64
  · left
    rw [Nat.mod_eq_of_lt hc] at hsize
    exact ⟨⟨UInt64.le_iff_toNat_le.mp hle, hsize, hleft, hright, hstart, hback⟩, hc⟩
  · right
    have hone : s.buffer.size = 1 := by omega
    obtain ⟨word, hword⟩ := Array.size_eq_one_iff.mp hone
    rw [hword] at hstart
    have hguard : word = guardWord.toInt64 := Option.some.inj hstart
    exact ⟨by omega, by rw [hword, hguard]⟩

section Framed

variable {s : GuardedStack} (h : s.Framed)

include h

/-- Writing between the guards leaves them in place. -/
theorem Framed.write {place size : UInt64} (word : Int64) (hfirst : 0 < place.toNat)
    (hlast : place.toNat ≤ s.capacity.toNat) (hsize : size.toNat ≤ s.capacity.toNat) :
    Framed { s with buffer := s.buffer.setIfInBounds place.toNat word, size } := by
  have hwords := h.buffer_size
  refine ⟨hsize, ?_, h.leftGuard, h.rightGuard, ?_, ?_⟩
  · simp [hwords]
  · simp only
    rw [Array.getElem?_setIfInBounds_ne (by omega)]
    exact h.start_eq
  · have hback := h.back_eq
    rw [Array.back?_eq_getElem?] at hback ⊢
    simp only [Array.size_setIfInBounds]
    rw [Array.getElem?_setIfInBounds_ne (by omega)]
    exact hback

/-- Moving to a buffer that is large enough for the size stops nowhere. -/
theorem Framed.resize {capacity : UInt64} (hle : s.size.toNat ≤ capacity.toNat)
    (hcount : capacity.toNat + 2 < 2 ^ 64) :
    Strict.resize s capacity = some (s.resize capacity) ∧ Framed (s.resize capacity) := by
  have hmin : min s.size capacity = s.size := by
    change (if s.size ≤ capacity then s.size else capacity) = s.size
    rw [if_pos (UInt64.le_iff_toNat_le.mpr hle)]
  have hwords := h.buffer_size
  have hfit := h.size_le
  have hone : (1 : UInt64).toNat = 1 := rfl
  have hnew : (capacity + 2).toNat = capacity.toNat + 2 := toNat_add_of_lt hcount
  have hstop : (1 + s.size).toNat = 1 + s.size.toNat := toNat_add_of_lt (by omega)
  have hslice : Strict.slice s.buffer 1 (1 + s.size) =
      some (s.buffer.extract 1 (1 + s.size.toNat)) := by
    rw [Strict.slice, if_pos, hone, hstop]
    exact ⟨UInt64.le_iff_toNat_le.mpr (by omega), by omega⟩
  have hbelow : 1 + s.size ≤ capacity + 2 := UInt64.le_iff_toNat_le.mpr (by omega)
  have hadd : Strict.add capacity 2 = some (capacity + 2) := Strict.add_eq hcount
  have hsub : Strict.sub (capacity + 2) 1 = some (capacity + 2 - 1) := Strict.sub_eq (by omega)
  have hfirst : Strict.add 1 s.size = some (1 + s.size) := Strict.add_eq (by omega)
  have hlive : (s.buffer.extract 1 (1 + s.size.toNat)).size = s.size.toNat := by
    simp only [Array.size_extract]
    omega
  constructor
  · simp only [Strict.resize, GuardedStack.resize, hmin, hadd, hsub, hfirst, hslice, hbelow, bind,
      Option.bind, ↓reduceIte]
  · simp only [GuardedStack.resize, hmin]
    refine ⟨hle, ?_, h.leftGuard, h.rightGuard, getElem?_fill_zero _ _, back?_fill _ _⟩
    simp only [size_fill, hlive]
    omega

/-- Making room for a word on top stops nowhere. -/
theorem Framed.grow (hb : s.buffer.size < 2 ^ 60) :
    ∃ t, Strict.grown s = some t ∧
      (if s.capacity < s.size + 1 then s.resize (s.capacity * 2 + 1) else s) = t ∧ t.Framed ∧
      t.size.toNat < t.capacity.toNat ∧ t.capacity.toNat < 2 ^ 62 := by
  have hwords := h.buffer_size
  have hfit := h.size_le
  have hone : (1 : UInt64).toNat = 1 := rfl
  have htwo : (2 : UInt64).toNat = 2 := rfl
  have hnext := @toNat_next s.size (by omega)
  have hadd : Strict.add s.size 1 = some (s.size + 1) := Strict.add_eq (by omega)
  by_cases hfull : s.capacity < s.size + 1
  · have hsize : s.size.toNat = s.capacity.toNat := by
      rw [UInt64.lt_iff_toNat_lt, hnext] at hfull
      omega
    have htwice : (s.capacity * 2).toNat = s.capacity.toNat * 2 :=
      toNat_mul_of_lt (by rw [htwo]; omega)
    have hslots := @toNat_larger s.capacity (by omega)
    have hmul : Strict.mul s.capacity 2 = some (s.capacity * 2) :=
      Strict.mul_eq (by rw [htwo]; omega)
    have hodd : Strict.add (s.capacity * 2) 1 = some (s.capacity * 2 + 1) :=
      Strict.add_eq (by omega)
    obtain ⟨hstrict, hframed⟩ :=
      @Framed.resize s h (s.capacity * 2 + 1) (by omega) (by omega)
    refine ⟨_, ?_, if_pos hfull, hframed, ?_, ?_⟩
    · simp only [Strict.grown, hadd, hfull, hmul, hodd, hstrict, bind, Option.bind, ↓reduceIte]
    · rw [size_resize, capacity_resize]
      omega
    · rw [capacity_resize]
      omega
  · have hroom : s.size.toNat < s.capacity.toNat := by
      rw [UInt64.lt_iff_toNat_lt, hnext] at hfull
      omega
    refine ⟨s, ?_, if_neg hfull, h, hroom, by omega⟩
    simp only [Strict.grown, hadd, hfull, bind, Option.bind, ↓reduceIte]

/-- Giving up dead slots stops nowhere. -/
theorem Framed.shrink (hb : s.buffer.size < 2 ^ 60) :
    ∃ t, Strict.shrunk s = some t ∧
      (if s.size * 4 < s.capacity then s.resize (s.capacity / 2 + 1) else s) = t ∧ t.Framed ∧
      t.capacity.toNat < 2 ^ 62 := by
  have hwords := h.buffer_size
  have hfit := h.size_le
  have hone : (1 : UInt64).toNat = 1 := rfl
  have htwo : (2 : UInt64).toNat = 2 := rfl
  have htwice : (s.size * 2).toNat = s.size.toNat * 2 := toNat_mul_of_lt (by rw [htwo]; omega)
  have hfourfold : s.size * 2 * 2 = s.size * 4 := by
    rw [UInt64.mul_assoc]
    rfl
  have hfour := @toNat_fourfold s.size (by omega)
  have hmul : Strict.mul s.size 2 = some (s.size * 2) := Strict.mul_eq (by rw [htwo]; omega)
  have hmul' : Strict.mul (s.size * 2) 2 = some (s.size * 4) := by
    rw [← hfourfold]
    exact Strict.mul_eq (by rw [htwo]; omega)
  by_cases hfew : s.size * 4 < s.capacity
  · have hhalf : (s.capacity / 2).toNat = s.capacity.toNat / 2 := UInt64.toNat_div _ _
    have hslots := toNat_smaller s.capacity
    have hadd : Strict.add (s.capacity / 2) 1 = some (s.capacity / 2 + 1) :=
      Strict.add_eq (by omega)
    have hless : 4 * s.size.toNat < s.capacity.toNat := by
      rw [← hfour]
      exact UInt64.lt_iff_toNat_lt.mp hfew
    obtain ⟨hstrict, hframed⟩ :=
      @Framed.resize s h (s.capacity / 2 + 1) (by omega) (by omega)
    refine ⟨_, ?_, if_pos hfew, hframed, ?_⟩
    · simp only [Strict.shrunk, hmul, hmul', hfew, hadd, hstrict, bind, Option.bind, ↓reduceIte]
    · rw [capacity_resize]
      omega
  · refine ⟨s, ?_, if_neg hfew, h, by omega⟩
    simp only [Strict.shrunk, hmul, hmul', hfew, bind, Option.bind, ↓reduceIte]

section Calls

variable (hs : s.status = []) (hb : s.buffer.size < 2 ^ 60)

include hs hb

theorem Framed.push (word : Int64) :
    ∃ t, s.push word = .ok t ∧ Strict.push s word = some (.ok t) ∧ t.status = [] ∧
      t.capacity.toNat < 2 ^ 62 := by
  have hwords := h.buffer_size
  have hone : (1 : UInt64).toNat = 1 := rfl
  obtain ⟨t, hgrown, ht, hframed, hroom, hcount⟩ := h.grow hb
  have hnext := @toNat_next t.size (by omega)
  have hslot : Strict.add 1 t.size = some (t.size + 1) := by
    rw [UInt64.add_comm t.size 1]
    exact Strict.add_eq (by omega)
  have hadd : Strict.add t.size 1 = some (t.size + 1) := Strict.add_eq (by omega)
  have hwrite := @Strict.write_eq t.buffer (t.size + 1) word (by
    rw [hnext, hframed.buffer_size]
    omega)
  have hlast : (t.size + 1).toNat ≤ t.capacity.toNat := by
    rw [hnext]
    exact hroom
  have hwritten := @Framed.write t hframed (t.size + 1) (t.size + 1) word (by omega) hlast hlast
  refine ⟨_, ?_, ?_, hwritten.status_rehash (by simp only; omega), hcount⟩
  · simp only [GuardedStack.push, check, hs, List.isEmpty_nil, ht, bind, Except.bind, ↓reduceIte]
  · rw [Strict.push, Strict.checked_of_status (by omega) hs]
    simp only [hgrown, hslot, hwrite, hadd, bind, Option.bind]

theorem Framed.pop_cases :
    s.pop = .error .underflow ∧ Strict.pop s = some (.error .underflow) ∨
      ∃ word t, s.pop = .ok (word, t) ∧ Strict.pop s = some (.ok (word, t)) ∧ t.status = [] ∧
        t.capacity.toNat < 2 ^ 62 := by
  have hwords := h.buffer_size
  have hfit := h.size_le
  have hone : (1 : UInt64).toNat = 1 := rfl
  rw [Strict.pop, Strict.checked_of_status (by omega) hs]
  simp only [GuardedStack.pop, check, hs, List.isEmpty_nil, bind, Except.bind, ↓reduceIte]
  by_cases hempty : s.size = 0
  · exact .inl ⟨if_pos hempty, if_pos hempty⟩
  · right
    have hless := toNat_sub_one hempty
    have htop : Strict.topPlace s = some s.size := Strict.topPlace_eq (by omega)
    have hread := @Strict.read_eq s.buffer s.size (by omega)
    have hwrite := @Strict.write_eq s.buffer s.size poison (by omega)
    have hdown : Strict.sub s.size 1 = some (s.size - 1) := Strict.sub_eq (by omega)
    have hwritten := @Framed.write s h s.size (s.size - 1) poison (by omega) hfit (by omega)
    obtain ⟨t, hshrunk, ht, hframed, hcount⟩ := hwritten.shrink (by simpa using hb)
    refine ⟨s.buffer.getD s.size.toNat poison, t.rehash, ?_, ?_, hframed.status_rehash (by omega),
      hcount⟩
    · simp only [hempty, ↓reduceIte] at ht ⊢
      rw [ht]
    · simp only [hempty, htop, hread, hwrite, hdown, hshrunk, Option.bind, ↓reduceIte]

theorem Framed.peek (depth : Nat) : Strict.peek s depth = some (s.peek depth) := by
  have hwords := h.buffer_size
  have hfit := h.size_le
  rw [Strict.peek, Strict.checked_of_status (by omega) hs, peek_of_status hs]
  by_cases hdeep : s.size.toNat ≤ depth
  · simp only [hdeep, ↓reduceIte]
  · have hdepth : (UInt64.ofNat depth).toNat = depth := by
      rw [UInt64.toNat_ofNat']
      exact Nat.mod_eq_of_lt (by omega)
    have hplace : (s.size - UInt64.ofNat depth).toNat = s.size.toNat - depth := by
      rw [UInt64.toNat_sub_of_le _ _ (UInt64.le_iff_toNat_le.mpr (by omega)), hdepth]
    have htop : Strict.topPlace s = some s.size := Strict.topPlace_eq (by omega)
    have hdown : Strict.sub s.size (UInt64.ofNat depth) = some (s.size - UInt64.ofNat depth) :=
      Strict.sub_eq (by omega)
    have hread := @Strict.read_eq s.buffer (s.size - UInt64.ofNat depth) (by omega)
    rw [hplace] at hread
    simp only [hdeep, htop, hdown, hread, bind, Option.bind, ↓reduceIte]

/-- No call stops, and each leaves a stack without findings whose capacity is not among the greatest
ones. -/
theorem Framed.on (call : Call) :
    Strict.on s call = some (call.on s) ∧ (call.on s).2.status = [] ∧
      (call.on s).2.capacity.toNat < 2 ^ 62 := by
  have hwords := h.buffer_size
  have hsmall : s.capacity.toNat < 2 ^ 62 := by omega
  cases call with
  | push word =>
    obtain ⟨t, ht, hstrict, hleft⟩ := h.push hs hb word
    simp only [Strict.on, Call.on, hstrict, ht]
    exact ⟨rfl, hleft⟩
  | pop =>
    obtain ⟨ht, hstrict⟩ | ⟨word, t, ht, hstrict, hleft⟩ := h.pop_cases hs hb
    · simp only [Strict.on, Call.on, hstrict, ht]
      exact ⟨rfl, hs, hsmall⟩
    · simp only [Strict.on, Call.on, hstrict, ht]
      exact ⟨rfl, hleft⟩
  | top =>
    simp only [Strict.on, Call.on, h.peek hs hb 0]
    exact ⟨rfl, hs, hsmall⟩
  | peek depth =>
    simp only [Strict.on, Call.on, h.peek hs hb depth]
    exact ⟨rfl, hs, hsmall⟩

end Calls

end Framed

/-- Whatever the fields hold, every call refuses a stack with findings and leaves it as it is. A
stack without findings has the buffer that its capacity asks for. If that is one that can be
allocated, no call stops, and each leaves a stack without findings. The exception is the greatest capacity, with a buffer that is a
guard and nothing else. The words that the capacity asks for can be counted unless it is that one or
the one below, and no call leads to either of the two. -/
theorem calls_on_whole_are_safe (s : GuardedStack) :
    Strict.status s = (if s.capacity.toNat + 2 < 2 ^ 64 then some s.status else none) ∧
    (s.status ≠ [] → ∀ call : Call, call.on s = (.error (.damaged s.status), s) ∧
      (s.capacity.toNat + 2 < 2 ^ 64 → Strict.on s call = some (call.on s))) ∧
    (s.status = [] →
      (s.size.toNat ≤ s.capacity.toNat ∧ s.buffer.size = s.capacity.toNat + 2 ∧
        (s.buffer.size < 2 ^ 60 → ∀ call : Call, Strict.on s call = some (call.on s) ∧
          (call.on s).2.status = [] ∧ (call.on s).2.capacity.toNat < 2 ^ 62)) ∨
      (s.capacity.toNat = 2 ^ 64 - 1 ∧ s.buffer = #[guardWord.toInt64])) := by
  refine ⟨Strict.status_eq s, ?_, ?_⟩
  · intro hs call
    have hrefused := Call.on_of_status hs call
    refine ⟨hrefused, ?_⟩
    intro hc
    rw [Strict.on_of_findings hc hs, hrefused]
  · intro hs
    rcases framed_of_status hs with ⟨hframed, -⟩ | hsingle
    · exact .inl ⟨hframed.size_le, hframed.buffer_size, hframed.on hs⟩
    · exact .inr hsingle

/-- A dead slot that does not hold poison is no finding and does no harm. -/
theorem calls_on_whole_are_safe_dirty :
    let s := rehash ⟨guardWord, #[guardWord.toInt64, 5, 42, guardWord.toInt64], 1, 2, 0, guardWord⟩
    s.buffer.size < 2 ^ 60 ∧ s.status = [] ∧
      Strict.on s .pop = some (Call.pop.on s) ∧ (Call.pop.on s).2.status = [] ∧
      (Call.pop.on s).2.capacity.toNat < 2 ^ 62 := by
  intro s
  have hb : s.buffer.size < 2 ^ 60 := by decide
  have hs : s.status = [] := by decide +kernel
  obtain ⟨-, -, hwhole⟩ := calls_on_whole_are_safe s
  rcases hwhole hs with ⟨-, -, hcalls⟩ | ⟨hgreatest, -⟩
  · exact ⟨hb, hs, hcalls hb .pop⟩
  · exact absurd hgreatest (by decide)

/-- A single guard passes for the buffer that the greatest capacity asks for. -/
theorem single_guard_passes :
    ¬ ∀ s : GuardedStack, s.buffer.size < 2 ^ 60 →
      Strict.status s = some s.status ∧
      (s.status = [] → s.size.toNat ≤ s.capacity.toNat ∧ s.buffer.size = s.capacity.toNat + 2 ∧
        ∀ call : Call, Strict.on s call = some (call.on s) ∧ (call.on s).2.status = []) ∧
      (s.status ≠ [] → ∀ call : Call, call.on s = (.error (.damaged s.status), s)) := by
  intro h
  let s := rehash ⟨guardWord, #[guardWord.toInt64], 0, 0xFFFFFFFFFFFFFFFF, 0, guardWord⟩
  have hs : s.status = [] := by decide +kernel
  obtain ⟨-, hwhole, -⟩ := h s (by decide)
  obtain ⟨-, hsize, -⟩ := hwhole hs
  have hone : s.buffer.size = 1 := rfl
  omega

end StackMachine.GuardedStack
