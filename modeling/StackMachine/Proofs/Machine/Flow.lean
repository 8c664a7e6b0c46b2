import StackMachine.Proofs.Machine.PlainStore

namespace StackMachine

/-- The instruction is a branch that is taken, going by the values on the data stack. -/
def Instruction.Jumps : Instruction → List Int32 → Prop
  | .jump, _ => True
  | .call, _ => True
  | .jumpGreater, a :: b :: _ => b < a
  | .jumpLess, a :: b :: _ => a < b
  | .jumpEqual, a :: b :: _ => a = b
  | .jumpGreaterEqual, a :: b :: _ => b ≤ a
  | .jumpLessEqual, a :: b :: _ => a ≤ b
  | _, _ => False

/-- Where control goes, and the call stack after that. -/
inductive Decoded.Goes (d : Decoded) (p : PlainStore) : Flow → List Int64 → Prop where
  | next (hj : ¬ d.instruction.Jumps p.data) (hr : d.instruction ≠ .ret)
      (hh : d.instruction ≠ .halt) : Goes d p .next p.calls
  | jump (hj : d.instruction.Jumps p.data) (hc : d.instruction ≠ .call) :
      Goes d p (.jump d.payload) p.calls
  | call (hc : d.instruction = .call) :
      Goes d p (.jump d.payload) (Int64.ofNat d.next :: p.calls)
  | back (target : Int64) (rest : List Int64) (hr : d.instruction = .ret)
      (hp : p.calls = target :: rest) : Goes d p (.goto target.toInt) rest
  | halt (hh : d.instruction = .halt) : Goes d p .halt p.calls

namespace PlainStore

/-- If the effect is no fault, control goes to the next instruction and the call stack stays. -/
def GoesOn (p : PlainStore) (effect : Effect) : Prop :=
  ∀ flow q, effect = .ok (flow, q) → flow = .next ∧ q.calls = p.calls

section GoesOn

variable {p : PlainStore}

theorem GoesOn.ok {q : PlainStore} (h : q.calls = p.calls) : p.GoesOn (.ok (.next, q)) := by
  rintro flow q' ⟨⟩
  exact ⟨rfl, h⟩

theorem GoesOn.error (fault : Fault) : p.GoesOn (.error fault) := by
  intro flow q h
  cases h

theorem GoesOn.bind {α : Type} {answer : Except Fault α} {rest : α → Effect}
    (h : ∀ a, p.GoesOn (rest a)) : p.GoesOn (answer >>= rest) := by
  cases answer with
  | error fault => exact .error fault
  | ok a => exact h a

end GoesOn

variable (p : PlainStore) (d : Decoded)

theorem goesOn_push {q : PlainStore} (h : q.calls = p.calls) (value : Except Fault Int32) :
    p.GoesOn (q.push value) :=
  .bind fun _ => .ok h

theorem goesOn_pop : p.GoesOn (p.pop d) := by
  unfold pop
  split
  · exact .ok rfl
  · exact .error _

theorem goesOn_dup : p.GoesOn (p.dup d) := by
  unfold dup
  split
  · exact p.goesOn_push rfl _
  · exact .error _

theorem goesOn_move : p.GoesOn (p.move d) := by
  unfold move
  split
  · split
    · exact .ok rfl
    · exact .bind fun _ => .ok rfl
  · exact .error _

theorem goesOn_combine (operation : Int32 → Int32 → Int32) :
    p.GoesOn (p.combine d operation) := by
  unfold combine
  split
  · exact .ok rfl
  · exact .error _

theorem goesOn_divide : p.GoesOn (p.divide d) := by
  unfold divide
  split
  · split
    · exact .error _
    · exact p.goesOn_combine d _
  · exact .error _

theorem goesOn_copyToRegister : p.GoesOn (p.copyToRegister d) := by
  unfold copyToRegister
  split
  · exact .bind fun _ => .ok rfl
  · exact .error _

theorem goesOn_setPixel : p.GoesOn (p.setPixel d) := by
  unfold setPixel
  split
  · exact .bind fun _ => .ok rfl
  · exact .error _

theorem goesOn_store : p.GoesOn (p.store d) := by
  unfold store
  split
  · exact .bind fun _ => .ok rfl
  · exact .error _

theorem goesOn_lookUp (find : Int32 → Except Fault Int32) : p.GoesOn (p.lookUp d find) := by
  unfold lookUp
  split
  · exact .bind fun _ => .ok rfl
  · exact .error _

/-- An instruction that is no branch, no return and no halt goes on. -/
theorem goesOn_effect (callDepth : Nat) (hb : d.instruction.isBranch = false)
    (hr : d.instruction ≠ .ret) (hh : d.instruction ≠ .halt) :
    p.GoesOn (p.effect callDepth d) := by
  unfold effect
  cases hi : d.instruction <;> rw [hi] at hb hr hh
  case halt => exact absurd rfl hh
  case ret => exact absurd rfl hr
  case abort => exact .error _
  case push => exact p.goesOn_push rfl _
  case pop => exact p.goesOn_pop d
  case dup => exact p.goesOn_dup d
  case move => exact p.goesOn_move d
  case add => exact p.goesOn_combine d _
  case sub => exact p.goesOn_combine d _
  case mul => exact p.goesOn_combine d _
  case div => exact p.goesOn_divide d
  case getRegister => exact p.goesOn_push rfl _
  case setRegister => exact p.goesOn_copyToRegister d
  case setPixel => exact p.goesOn_setPixel d
  case getPixel => exact p.goesOn_lookUp d _
  case store => exact p.goesOn_store d
  case load => exact p.goesOn_lookUp d _
  case print => exact .error _
  case printChar => exact .error _
  case read => exact .error _
  case clear => exact .error _
  case draw => exact .error _
  all_goals cases hb

variable {p d} {flow : Flow} {q : PlainStore}

theorem not_jumps {i : Instruction} {data : List Int32} (hb : i.isBranch = false) :
    ¬ i.Jumps data := by
  cases i
  all_goals first | exact id | cases hb

theorem isBranch_of_jumps {i : Instruction} {data : List Int32} (hj : i.Jumps data) :
    i.isBranch = true := by
  by_contra hb
  exact not_jumps (Bool.not_eq_true _ ▸ hb) hj

theorem GoesOn.goes {effect : Effect} (h : p.GoesOn effect) (he : effect = .ok (flow, q))
    (hb : d.instruction.isBranch = false) (hr : d.instruction ≠ .ret)
    (hh : d.instruction ≠ .halt) : d.Goes p flow q.calls := by
  obtain ⟨rfl, hcalls⟩ := h flow q he
  rw [hcalls]
  exact .next (not_jumps hb) hr hh

theorem distance_eq {distance : Int32} (h : Store.distance d d.payload = .ok distance) :
    distance = d.payload := by
  unfold Store.distance at h
  split at h
  · cases h
  · cases h
    rfl

theorem goes_jump (hi : d.instruction = .jump) (h : p.jump d = .ok (flow, q)) :
    d.Goes p flow q.calls := by
  unfold jump at h
  cases hd : Store.distance d d.payload with
  | error fault => simp [hd, bind, Except.bind] at h
  | ok distance =>
    simp only [hd, bind, Except.bind, Except.ok.injEq, Prod.mk.injEq] at h
    obtain ⟨rfl, rfl⟩ := h
    rw [distance_eq hd]
    exact .jump (by rw [hi]; trivial) (by rw [hi]; nofun)

theorem goes_branch {test : Int32 → Int32 → Bool}
    (hj : ∀ a b rest, d.instruction.Jumps (a :: b :: rest) ↔ test a b = true)
    (hc : d.instruction ≠ .call) (hr : d.instruction ≠ .ret) (hh : d.instruction ≠ .halt)
    (h : p.branch d test = .ok (flow, q)) : d.Goes p flow q.calls := by
  unfold branch at h
  cases hd : Store.distance d d.payload with
  | error fault => simp [hd, bind, Except.bind] at h
  | ok distance =>
    simp only [hd, bind, Except.bind] at h
    split at h
    · rename_i a b rest hp
      simp only [Except.ok.injEq, Prod.mk.injEq] at h
      obtain ⟨rfl, rfl⟩ := h
      rw [distance_eq hd]
      split
      · rename_i htest
        exact .jump (by rw [hp, hj]; exact htest) hc
      · rename_i htest
        exact .next (by rw [hp, hj]; exact htest) hr hh
    · cases h

theorem goes_call {callDepth : Nat} (hi : d.instruction = .call)
    (h : p.call d callDepth = .ok (flow, q)) : d.Goes p flow q.calls := by
  unfold call at h
  cases hd : Store.distance d d.payload with
  | error fault => simp [hd, bind, Except.bind] at h
  | ok distance =>
    simp only [hd, bind, Except.bind] at h
    split at h
    · cases h
    · simp only [Except.ok.injEq, Prod.mk.injEq] at h
      obtain ⟨rfl, rfl⟩ := h
      rw [distance_eq hd]
      exact .call hi

theorem goes_goBack (hi : d.instruction = .ret) (h : p.goBack d = .ok (flow, q)) :
    d.Goes p flow q.calls := by
  unfold goBack at h
  split at h
  · rename_i target rest hp
    simp only [Except.ok.injEq, Prod.mk.injEq] at h
    obtain ⟨rfl, rfl⟩ := h
    exact .back target rest hi hp
  · cases h

/-- An instruction that is carried out sends control where it should go. -/
theorem goes_of_effect {callDepth : Nat} (h : p.effect callDepth d = .ok (flow, q)) :
    d.Goes p flow q.calls := by
  cases hi : d.instruction
  case halt =>
    simp only [effect, hi] at h
    cases h
    exact .halt hi
  case jump =>
    simp only [effect, hi] at h
    exact goes_jump hi h
  case call =>
    simp only [effect, hi] at h
    exact goes_call hi h
  case ret =>
    simp only [effect, hi] at h
    exact goes_goBack hi h
  case jumpGreater | jumpLess | jumpEqual | jumpGreaterEqual | jumpLessEqual =>
    simp only [effect, hi] at h
    exact goes_branch (by simp [hi, Instruction.Jumps]) (by simp [hi]) (by simp [hi])
      (by simp [hi]) h
  all_goals
    have hb : d.instruction.isBranch = false := by rw [hi]; rfl
    have hr : d.instruction ≠ .ret := by simp [hi]
    have hh : d.instruction ≠ .halt := by simp [hi]
    exact (p.goesOn_effect d callDepth hb hr hh).goes h hb hr hh

/-- The same with the console. -/
theorem goes_of_execute {callDepth : Nat} {c c' : Console}
    (h : p.execute callDepth d c = (.ok (flow, q), c')) : d.Goes p flow q.calls := by
  obtain ⟨hi, value, hpush⟩ | ⟨hi, rfl, rfl⟩ | heffect := execute_cases h
  · exact (p.goesOn_push rfl (.ok value)).goes hpush (by rw [hi]; rfl) (by simp [hi]) (by simp [hi])
  · simp only [List.mem_cons, List.not_mem_nil, or_false] at hi
    rcases hi with hi | hi | hi | hi <;>
      exact .next (not_jumps (by rw [hi]; rfl)) (by simp [hi]) (by simp [hi])
  · exact goes_of_effect heffect

end PlainStore

end StackMachine
