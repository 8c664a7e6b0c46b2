import StackMachine.Proofs.GuardedStack.Holds

namespace StackMachine.GuardedStack

inductive Call where
  | push (word : Int64)
  | pop
  | top
  | peek (depth : Nat)
  deriving Repr, DecidableEq

/-- What a call gives back, a word or nothing, or why it was refused. -/
abbrev Answer := Except Failure (Option Int64)

namespace Call

def on (s : GuardedStack) : Call → Answer × GuardedStack
  | push word =>
    match s.push word with
    | .ok t => (.ok none, t)
    | .error failure => (.error failure, s)
  | pop =>
    match s.pop with
    | .ok (word, t) => (.ok (some word), t)
    | .error failure => (.error failure, s)
  | top => (s.top.map some, s)
  | peek depth => ((s.peek depth).map some, s)

/-- The element at a place of a list, or the failure of not having one. -/
def elementAt (words : List Int64) (place : Nat) : Answer :=
  match words[place]? with
  | some word => .ok (some word)
  | none => .error .underflow

/-- Makes a call on a plain list, which has its top in front. -/
def onList (words : List Int64) : Call → Answer × List Int64
  | push word => (.ok none, word :: words)
  | pop => (elementAt words 0, words.tail)
  | top => (elementAt words 0, words)
  | peek depth => (elementAt words depth, words)

/-- The list has no element for the call. -/
def Lacks (words : List Int64) : Call → Prop
  | push _ => False
  | pop => words = []
  | top => words = []
  | peek depth => words.length ≤ depth

theorem elementAt_eq_underflow {words : List Int64} {place : Nat} :
    elementAt words place = .error .underflow ↔ words.length ≤ place := by
  unfold elementAt
  split
  · rename_i word hw
    have := (List.getElem?_eq_some_iff.mp hw).1
    simp
    omega
  · rename_i hw
    simpa using List.getElem?_eq_none_iff.mp hw

/-- A list refuses a call exactly if it has no element for it. -/
theorem onList_underflow {words : List Int64} {call : Call} :
    (call.onList words).1 = .error .underflow ↔ call.Lacks words := by
  cases call with
  | push word => simp [onList, Lacks]
  | pop => simp [onList, Lacks, elementAt_eq_underflow]
  | top => simp [onList, Lacks, elementAt_eq_underflow]
  | peek depth => simp [onList, Lacks, elementAt_eq_underflow]

/-- A refused call leaves a stack as it was. -/
theorem on_refused {s : GuardedStack} {call : Call} {failure : Failure}
    (h : (call.on s).1 = .error failure) : (call.on s).2 = s := by
  cases call with
  | push word =>
    simp only [on] at h ⊢
    split at h
    · cases h
    · rfl
  | pop =>
    simp only [on] at h ⊢
    split at h
    · cases h
    · rfl
  | top => rfl
  | peek depth => rfl

/-- Every call on a stack with findings is refused for them, and the stack stays as it is. -/
theorem on_of_status {s : GuardedStack} (h : s.status ≠ []) (call : Call) :
    call.on s = (.error (.damaged s.status), s) := by
  have hcheck : s.check = .error (.damaged s.status) := by
    simp [GuardedStack.check, h]
  cases call with
  | push word => simp [on, GuardedStack.push, hcheck, bind, Except.bind]
  | pop => simp [on, GuardedStack.pop, hcheck, bind, Except.bind]
  | top =>
    simp [on, GuardedStack.top, GuardedStack.peek, hcheck, bind, Except.bind, Except.map]
  | peek depth => simp [on, GuardedStack.peek, hcheck, bind, Except.bind, Except.map]

theorem peek_on {s : GuardedStack} {words : List Int64} (h : Holds s words) (depth : Nat) :
    (s.peek depth).map some = elementAt words depth := by
  unfold elementAt
  split
  · rename_i word hw
    rw [h.peek hw]
    rfl
  · rename_i hw
    rw [h.peek_none (List.getElem?_eq_none_iff.mp hw)]
    rfl

/-- One call does the same to a stack and to the list that it holds. -/
theorem on_eq {s : GuardedStack} {words : List Int64} (h : Holds s words)
    (hroom : 2 * words.length + 3 < 2 ^ 62) (call : Call) :
    (call.on s).1 = (call.onList words).1 ∧ Holds (call.on s).2 (call.onList words).2 := by
  cases call with
  | push word =>
    obtain ⟨t, ht, hold⟩ := h.push word hroom
    have hon : on s (.push word) = (.ok none, t) := by simp only [on, ht]
    rw [hon]
    exact ⟨rfl, hold⟩
  | pop =>
    cases words with
    | nil =>
      have hon : on s .pop = (.error .underflow, s) := by simp only [on, h.pop_nil]
      rw [hon]
      exact ⟨rfl, h⟩
    | cons word words =>
      obtain ⟨t, ht, hold⟩ := h.pop
      have hon : on s .pop = (.ok (some word), t) := by simp only [on, ht]
      rw [hon]
      exact ⟨rfl, hold⟩
  | top => exact ⟨peek_on h 0, h⟩
  | peek depth => exact ⟨peek_on h depth, h⟩

end Call

/-- Makes calls one after another and collects the answers. -/
def replay {σ : Type} (make : σ → Call → Answer × σ) : σ → List Call → List Answer × σ
  | state, [] => ([], state)
  | state, call :: rest =>
    let first := make state call
    let later := replay make first.2 rest
    (first.1 :: later.1, later.2)

/-- While the calls are made, the list never gets so long that the size of a buffer with twice
the room could not be counted. -/
def Roomy (words : List Int64) (calls : List Call) : Prop :=
  ∀ before, before <+: calls → 2 * (replay Call.onList words before).2.length + 3 < 2 ^ 62

theorem Roomy.rest {words : List Int64} {call : Call} {rest : List Call}
    (h : Roomy words (call :: rest)) : Roomy (call.onList words).2 rest := by
  intro before hb
  exact h (call :: before) (List.cons_prefix_cons.mpr ⟨rfl, hb⟩)

theorem length_onList_le (call : Call) (words : List Int64) :
    (call.onList words).2.length ≤ words.length + 1 := by
  cases call with
  | push word => exact Nat.le_refl _
  | pop => simp [Call.onList]; omega
  | top => exact Nat.le_succ _
  | peek depth => exact Nat.le_succ _

theorem length_replay_le (calls : List Call) (words : List Int64) :
    (replay Call.onList words calls).2.length ≤ words.length + calls.length := by
  induction calls generalizing words with
  | nil => exact Nat.le_refl _
  | cons call rest ih =>
    have hfirst := length_onList_le call words
    have hrest := ih (call.onList words).2
    simp only [replay, List.length_cons]
    omega

/-- No list gets longer than by one for each call. -/
theorem roomy_of_length {words : List Int64} {calls : List Call}
    (h : 2 * (words.length + calls.length) + 3 < 2 ^ 62) : Roomy words calls := by
  intro before hb
  have hle := length_replay_le before words
  have hlength := hb.length_le
  omega

/-- Calls get the same answers from a stack and from the list that it holds. -/
theorem replay_eq {s : GuardedStack} {words : List Int64} (h : Holds s words)
    {calls : List Call} (hroom : Roomy words calls) :
    (replay Call.on s calls).1 = (replay Call.onList words calls).1 ∧
      Holds (replay Call.on s calls).2 (replay Call.onList words calls).2 := by
  induction calls generalizing s words with
  | nil => exact ⟨rfl, h⟩
  | cons call rest ih =>
    obtain ⟨hanswer, hold⟩ := call.on_eq h (hroom [] List.nil_prefix)
    obtain ⟨hanswers, hend⟩ := ih hold hroom.rest
    exact ⟨by simp only [replay, hanswer, hanswers], hend⟩

/-- The guards stand at both ends, and everything between the live words and the end is poison. -/
theorem Holds.layout {s : GuardedStack} {words : List Int64} (h : Holds s words) :
    s.buffer[0]? = some guardWord.toInt64 ∧
      s.buffer[s.capacity.toNat + 1]? = some guardWord.toInt64 ∧
      ∀ i, s.size.toNat ≤ i → i < s.capacity.toNat → s.buffer[i + 1]? = some poison := by
  have hle := h.size_le
  refine ⟨h.getElem?_zero, ?_, ?_⟩
  · have hback := h.back?
    rw [Array.back?, h.buffer_size] at hback
    exact hback
  · intro i hi hc
    rw [h.size_eq] at hi
    rw [h.buffer_eq]
    exact getElem?_fill_dead _ _ i (by simpa using hi) (by simp; omega)

theorem status_destroy (s : GuardedStack) : Finding.buffer ∈ s.destroy.status := by
  simp [GuardedStack.status, destroy, require]

theorem on_destroy (s : GuardedStack) (call : Call) :
    call.on s.destroy = (.error (.damaged s.destroy.status), s.destroy) :=
  call.on_of_status (List.ne_nil_of_mem s.status_destroy)

theorem replay_destroy (s : GuardedStack) (calls : List Call) :
    ∀ answer ∈ (replay Call.on s.destroy calls).1,
      ∃ findings, answer = .error (.damaged findings) ∧ Finding.buffer ∈ findings := by
  induction calls with
  | nil => simp [replay]
  | cons call rest ih =>
    intro answer ha
    simp only [replay, on_destroy, List.mem_cons] at ha
    rcases ha with rfl | ha
    · exact ⟨_, rfl, s.status_destroy⟩
    · exact ih answer ha

/-- A new stack is a plain list with its top in front, whatever is called on it: the answers are
the same, and afterwards it holds that list, in a buffer that is laid out as it should be. Once
the buffer was given up, every call is refused because it is missing. -/
theorem replay_empty_eq (capacity : UInt64) (calls : List Call)
    (hc : capacity.toNat + 2 < 2 ^ 62) (hroom : Roomy [] calls) :
    let s := (replay Call.on (empty capacity) calls).2
    let words := (replay Call.onList [] calls).2
    (replay Call.on (empty capacity) calls).1 = (replay Call.onList [] calls).1 ∧
      (∀ call : Call, ((call.on s).1 = .error .underflow ↔ call.Lacks words) ∧
        ((call.on s).1 = .error .underflow → (call.on s).2 = s)) ∧
      s.size.toNat = words.length ∧ s.toList = words.reverse ∧ s.size ≤ s.capacity ∧
      s.buffer.size = s.capacity.toNat + 2 ∧
      s.leftGuard = guardWord ∧ s.rightGuard = guardWord ∧
      s.buffer[0]? = some guardWord.toInt64 ∧
      s.buffer[s.capacity.toNat + 1]? = some guardWord.toInt64 ∧
      (∀ i, s.size.toNat ≤ i → i < s.capacity.toNat → s.buffer[i + 1]? = some poison) ∧
      s.status = [] ∧
      ∀ (t : GuardedStack) (later : List Call), ∀ answer ∈ (replay Call.on t.destroy later).1,
        ∃ findings, answer = .error (.damaged findings) ∧ Finding.buffer ∈ findings := by
  intro s words
  obtain ⟨hanswers, hold⟩ := replay_eq (Holds.empty capacity hc) hroom
  have hlast := hroom calls (List.prefix_refl calls)
  have hle : s.size ≤ s.capacity := by
    rw [UInt64.le_iff_toNat_le, hold.size_eq]
    exact hold.size_le
  obtain ⟨hfirst, hback, hdead⟩ := hold.layout
  refine ⟨hanswers, ?_, hold.size_eq, hold.toList, hle, hold.buffer_size, hold.leftGuard,
    hold.rightGuard, hfirst, hback, hdead, hold.status, replay_destroy⟩
  intro call
  refine ⟨?_, Call.on_refused⟩
  rw [(call.on_eq hold hlast).1]
  exact Call.onList_underflow

/-- A stack made without room grows, gives its words back in reverse and has none left then. -/
theorem replay_empty_eq_grown :
    (replay Call.on (empty 0) [.push 5, .push 7, .peek 1, .pop, .pop, .pop]).1 =
      [.ok none, .ok none, .ok (some 5), .ok (some 7), .ok (some 5), .error .underflow] :=
  (replay_empty_eq 0 [.push 5, .push 7, .peek 1, .pop, .pop, .pop] (by decide)
    (roomy_of_length (by decide))).1.trans rfl

end StackMachine.GuardedStack
