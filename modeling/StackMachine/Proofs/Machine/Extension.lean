import StackMachine.Proofs.Machine.Faults
import StackMachine.Proofs.Machine.PlainMachine

namespace StackMachine

theorem indexIn?_of_le {size larger : Nat} {index : Int} {i : Nat}
    (h : indexIn? size index = some i) (hle : size ≤ larger) :
    i < size ∧ indexIn? larger index = some i := by
  obtain ⟨hindex, hlt⟩ := indexIn?_eq_some_iff.mp h
  exact ⟨hlt, indexIn?_eq_some_iff.mpr ⟨hindex, Nat.lt_of_lt_of_le hlt hle⟩⟩

/-- What a larger machine has more of. -/
structure Extension where
  /-- Operands beneath all others, the uppermost in front. -/
  beneath : List Int32
  registers : Nat
  /-- Calls that may be open. -/
  calls : Nat

namespace Extension

/-- The fault is for want of something that there is more of. -/
def Supplies (e : Extension) : Fault → Prop
  | .stackUnderflow _ _ => e.beneath ≠ []
  | .noRegister _ _ => e.registers ≠ 0
  | .callsTooDeep _ _ => e.calls ≠ 0
  | _ => False

/-- A result that does not hang on what there is more of. -/
def Leaves {α : Type} (e : Extension) (result : Except Fault α) : Prop :=
  FailsWith (fun fault => ¬ e.Supplies fault) result

def file (e : Extension) (r : Registers) : Registers :=
  r ++ Array.replicate e.registers 0

def cells (e : Extension) (c : Cells) : Cells :=
  { c with registers := e.file c.registers }

def store (e : Extension) (p : PlainStore) : PlainStore :=
  { p with data := p.data ++ e.beneath, cells := e.cells p.cells }

def effect (e : Extension) (effect : PlainStore.Effect) : PlainStore.Effect :=
  effect.map fun (flow, q) => (flow, e.store q)

variable {e : Extension}

theorem le_size_file (r : Registers) : r.size ≤ (e.file r).size := by
  simp [file]

theorem getD_file {r : Registers} {i : Nat} (hi : i < r.size) :
    (e.file r).getD i 0 = r.getD i 0 := by
  simp [file, Array.getD_eq_getD_getElem?, Array.getElem?_append_left hi]

theorem file_of_leaves {α : Type} {r : Registers} {index available : Nat}
    (h : e.Leaves (.error (.noRegister index available) : Except Fault α)) : e.file r = r := by
  have hnone : e.registers = 0 := by
    by_contra hne
    exact h _ rfl hne
  simp [file, hnone]

theorem registers_get {r : Registers} {index : Int32} (h : e.Leaves (Registers.get r index)) :
    Registers.get (e.file r) index = Registers.get r index := by
  cases hi : indexIn? r.size index.toInt with
  | none =>
    simp only [Registers.get, hi] at h
    rw [file_of_leaves h]
  | some i =>
    obtain ⟨hlt, hlarger⟩ := indexIn?_of_le hi (e.le_size_file r)
    simp only [Registers.get, hi, hlarger, getD_file hlt]

theorem set_file {r : Registers} {i : Nat} (hi : i < r.size) (value : Int32) :
    (e.file r).setIfInBounds i value = e.file (r.setIfInBounds i value) := by
  simp [file, Array.setIfInBounds_append_left hi]

theorem registers_set {r : Registers} {index value : Int32}
    (h : e.Leaves (Registers.set r index value)) :
    Registers.set (e.file r) index value = (Registers.set r index value).map e.file := by
  cases hi : indexIn? r.size index.toInt with
  | none =>
    simp only [Registers.set, hi] at h ⊢
    rw [file_of_leaves h, hi]
    rfl
  | some i =>
    obtain ⟨hlt, hlarger⟩ := indexIn?_of_le hi (e.le_size_file r)
    simp only [Registers.set, hi, hlarger, set_file hlt]
    rfl

theorem registerCell {c : Cells} {index : UInt8} (h : e.Leaves (c.registerCell index)) :
    (e.cells c).registerCell index = c.registerCell index := by
  by_cases hlt : index.toNat < c.registers.size
  · have hlarger : index.toNat < (e.file c.registers).size :=
      hlt.trans_le (e.le_size_file c.registers)
    simp only [Cells.registerCell, cells, hlt, hlarger, ↓reduceIte]
  · simp only [Cells.registerCell, hlt, ↓reduceIte] at h
    simp only [Cells.registerCell, cells, file_of_leaves h]

/-- The cell has the same value and takes a new one in the same way. -/
def Keeps (e : Extension) (c : Cells) (cell : Cell) : Prop :=
  (e.cells c).value cell = c.value cell ∧
    ∀ new, (e.cells c).set cell new = e.cells (c.set cell new)

theorem keeps_registerCell {c : Cells} {index : UInt8} {cell : Cell}
    (h : c.registerCell index = .ok cell) : e.Keeps c cell := by
  unfold Cells.registerCell at h
  split at h
  · rename_i hlt
    cases h
    exact ⟨getD_file hlt, fun new => by simp [cells, Cells.set, set_file hlt]⟩
  · cases h

theorem keeps_memoryCell {c : Cells} {index : Int} {cell : Cell}
    (h : c.memoryCell index = .ok cell) : e.Keeps c cell := by
  unfold Cells.memoryCell at h
  split at h
  · cases h
    exact ⟨rfl, fun _ => rfl⟩
  · cases h

@[simp] theorem memoryCell (c : Cells) (index : Int) :
    (e.cells c).memoryCell index = c.memoryCell index := rfl

/-- An operand names the same cell. -/
theorem locate {c : Cells} {operand : Operand} (h : e.Leaves (c.locate operand)) :
    (e.cells c).locate operand = c.locate operand ∧
      ∀ cell, c.locate operand = .ok cell → e.Keeps c cell := by
  cases operand with
  | immediate value => exact ⟨rfl, nofun⟩
  | memory index =>
    simp only [Cells.locate, memoryCell]
    exact ⟨trivial, fun _ => keeps_memoryCell⟩
  | register index =>
    simp only [Cells.locate] at h ⊢
    exact ⟨registerCell h, fun _ => keeps_registerCell⟩
  | indexed base offset =>
    simp only [Cells.locate] at h ⊢
    rw [registerCell (FailsWith.of_bind h).1]
    cases hc : c.registerCell base with
    | error fault =>
      simp only [bind, Except.bind]
      exact ⟨trivial, nofun⟩
    | ok cell =>
      simp only [bind, Except.bind, (keeps_registerCell hc).1, memoryCell]
      exact ⟨trivial, fun _ => keeps_memoryCell⟩

theorem read {c : Cells} {operand : Operand} (h : e.Leaves (c.read operand)) :
    (e.cells c).read operand = c.read operand := by
  have hcell (hl : c.read operand = do let cell ← c.locate operand; .ok (c.value cell))
      (hl' : (e.cells c).read operand =
        do let cell ← (e.cells c).locate operand; .ok ((e.cells c).value cell)) :
      (e.cells c).read operand = c.read operand := by
    rw [hl] at h
    obtain ⟨hlocate, hkeeps⟩ := locate (FailsWith.of_bind h).1
    rw [hl, hl', hlocate]
    cases hc : c.locate operand with
    | error fault => rfl
    | ok cell => simp only [bind, Except.bind, (hkeeps cell hc).1]
  cases operand with
  | immediate value => rfl
  | memory index => exact hcell rfl rfl
  | register index => exact hcell rfl rfl
  | indexed base offset => exact hcell rfl rfl

theorem read_memory (c : Cells) (key : Int32) :
    (e.cells c).read (.memory key) = c.read (.memory key) := by
  simp only [Cells.read, Cells.locate, memoryCell]
  cases hc : c.memoryCell key.toInt with
  | error fault => rfl
  | ok cell => simp only [bind, Except.bind, (keeps_memoryCell hc).1]

theorem assigned {c : Cells} {operand : Operand} {value : Int32}
    (h : e.Leaves (PlainStore.assigned c operand value)) :
    PlainStore.assigned (e.cells c) operand value =
      (PlainStore.assigned c operand value).map e.cells := by
  obtain ⟨hlocate, hkeeps⟩ := locate (FailsWith.of_bind h).1
  simp only [PlainStore.assigned, hlocate]
  cases hc : c.locate operand with
  | error fault => rfl
  | ok cell => simp only [bind, Except.bind, (hkeeps cell hc).2, Except.map]

section Effect

variable {p : PlainStore} {d : Decoded}

theorem push (value : Except Fault Int32) : (e.store p).push value = e.effect (p.push value) := by
  cases value <;> rfl

theorem pop (hin : 1 ≤ p.data.length) : (e.store p).pop d = e.effect (p.pop d) := by
  obtain ⟨value, rest, hp⟩ := List.exists_cons_of_length_pos hin
  simp only [PlainStore.pop, store, hp, List.cons_append]
  rfl

theorem dup (hin : 1 ≤ p.data.length) : (e.store p).dup d = e.effect (p.dup d) := by
  obtain ⟨value, rest, hp⟩ := List.exists_cons_of_length_pos hin
  have htop : (e.store p).data = value :: (rest ++ e.beneath) := by
    simp only [store, hp, List.cons_append]
  simp only [PlainStore.dup, hp, htop]
  exact push (.ok value)

theorem combine (hin : 2 ≤ p.data.length) (operation : Int32 → Int32 → Int32) :
    (e.store p).combine d operation = e.effect (p.combine d operation) := by
  obtain ⟨b, a, rest, hp⟩ := exists_cons_cons hin
  simp only [PlainStore.combine, store, hp, List.cons_append]
  rfl

theorem divide (hin : 2 ≤ p.data.length) :
    (e.store p).divide d = e.effect (p.divide d) := by
  obtain ⟨b, a, rest, hp⟩ := exists_cons_cons hin
  have hb : (e.store p).data = b :: (a :: rest ++ e.beneath) := by simp [store, hp]
  simp only [PlainStore.divide, hp, hb]
  split
  · rfl
  · exact combine hin _

theorem move (hin : 1 ≤ p.data.length) (h : e.Leaves (p.move d)) :
    (e.store p).move d = e.effect (p.move d) := by
  obtain ⟨value, rest, hp⟩ := List.exists_cons_of_length_pos hin
  simp only [PlainStore.move, hp] at h
  simp only [PlainStore.move, store, hp, List.cons_append]
  split at h
  · rfl
  · rw [assigned (FailsWith.of_bind h).1]
    cases PlainStore.assigned p.cells d.operand value <;> rfl

theorem branch (hin : 2 ≤ p.data.length) (test : Int32 → Int32 → Bool) :
    (e.store p).branch d test = e.effect (p.branch d test) := by
  obtain ⟨a, b, rest, hp⟩ := exists_cons_cons hin
  simp only [PlainStore.branch, store, hp, List.cons_append]
  cases Store.distance d d.payload <;> rfl

theorem jump : (e.store p).jump d = e.effect (p.jump d) := by
  unfold PlainStore.jump
  cases Store.distance d d.payload <;> rfl

theorem call {callDepth : Nat} (h : e.Leaves (p.call d callDepth)) :
    (e.store p).call d (callDepth + e.calls) = e.effect (p.call d callDepth) := by
  unfold PlainStore.call at h ⊢
  cases hd : Store.distance d d.payload with
  | error fault => rfl
  | ok distance =>
    rw [hd] at h
    simp only [bind, Except.bind] at h ⊢
    by_cases hdeep : callDepth ≤ p.calls.length
    · have hnone : e.calls = 0 := by
        by_contra hne
        simp only [hdeep, ↓reduceIte] at h
        exact h _ rfl hne
      have hsame : callDepth + e.calls ≤ (e.store p).calls.length := by rwa [hnone]
      simp only [hdeep, hsame, ↓reduceIte]
      rfl
    · have hless : ¬ callDepth + e.calls ≤ (e.store p).calls.length := by
        simp only [store]
        omega
      simp only [hdeep, hless, ↓reduceIte]
      rfl

theorem goBack : (e.store p).goBack d = e.effect (p.goBack d) := by
  simp only [PlainStore.goBack, store]
  cases p.calls <;> rfl

theorem copyToRegister (hin : 1 ≤ p.data.length) (h : e.Leaves (p.copyToRegister d)) :
    (e.store p).copyToRegister d = e.effect (p.copyToRegister d) := by
  obtain ⟨value, rest, hp⟩ := List.exists_cons_of_length_pos hin
  simp only [PlainStore.copyToRegister, hp] at h
  simp only [PlainStore.copyToRegister, store, hp, List.cons_append, cells]
  rw [registers_set (FailsWith.of_bind h).1]
  cases Registers.set p.cells.registers d.payload value <;> rfl

theorem setPixel (hin : 2 ≤ p.data.length) :
    (e.store p).setPixel d = e.effect (p.setPixel d) := by
  obtain ⟨key, value, rest, hp⟩ := exists_cons_cons hin
  simp only [PlainStore.setPixel, store, hp, List.cons_append]
  cases p.screen.set key value <;> rfl

theorem storeTop (hin : 2 ≤ p.data.length) (h : e.Leaves (p.store d)) :
    (e.store p).store d = e.effect (p.store d) := by
  obtain ⟨key, value, rest, hp⟩ := exists_cons_cons hin
  simp only [PlainStore.store, hp] at h
  simp only [PlainStore.store, store, hp, List.cons_append]
  rw [assigned (FailsWith.of_bind h).1]
  cases PlainStore.assigned p.cells (.memory key) value <;> rfl

theorem lookUp (hin : 1 ≤ p.data.length) {find find' : Int32 → Except Fault Int32}
    (hf : ∀ key, find' key = find key) :
    (e.store p).lookUp d find' = e.effect (p.lookUp d find) := by
  obtain ⟨key, rest, hp⟩ := List.exists_cons_of_length_pos hin
  simp only [PlainStore.lookUp, store, hp, List.cons_append, hf]
  cases find key <;> rfl

/-- An instruction whose inputs are there does the same with a larger store, and what there is more
of stays as it is. -/
theorem effect_store (hin : d.instruction.inputs ≤ p.data.length) {callDepth : Nat}
    (h : e.Leaves (p.effect callDepth d)) :
    (e.store p).effect (callDepth + e.calls) d = e.effect (p.effect callDepth d) := by
  unfold PlainStore.effect at h ⊢
  cases hi : d.instruction <;> simp only [hi] at hin h ⊢
  case halt => rfl
  case abort => rfl
  case push =>
    rw [← push, ← read (FailsWith.of_bind h).1]
    rfl
  case pop => exact pop hin
  case dup => exact dup hin
  case move => exact move hin h
  case add | sub | mul => exact combine hin _
  case div => exact divide hin
  case jump => exact jump
  case jumpGreater | jumpLess | jumpEqual | jumpGreaterEqual | jumpLessEqual =>
    exact branch hin _
  case call => exact call h
  case ret => exact goBack
  case getRegister =>
    rw [← push, ← registers_get (FailsWith.of_bind h).1]
    rfl
  case setRegister => exact copyToRegister hin h
  case setPixel => exact setPixel hin
  case getPixel => exact lookUp hin fun _ => rfl
  case store => exact storeTop hin h
  case load => exact lookUp hin fun key => read_memory p.cells key
  case print | printChar | read | clear | draw => rfl

theorem printed?_store {i : Instruction} (hin : i.inputs ≤ p.data.length) :
    (e.store p).printed? i = p.printed? i := by
  cases i
  case print | printChar =>
    obtain ⟨value, rest, hp⟩ := List.exists_cons_of_length_pos hin
    simp only [PlainStore.printed?, store, hp, List.cons_append]
  all_goals rfl

/-- The same with the console, to which there is no difference. -/
theorem execute_store (hin : d.instruction.inputs ≤ p.data.length) {callDepth : Nat} {c : Console}
    (h : e.Leaves (p.execute callDepth d c).1) :
    (e.store p).execute (callDepth + e.calls) d c =
      (e.effect (p.execute callDepth d c).1, (p.execute callDepth d c).2) := by
  unfold PlainStore.execute at h ⊢
  by_cases hr : d.instruction = .read
  · simp only [hr, ↓reduceIte]
    rcases c.readNumber with ⟨fault | value, c'⟩ <;> rfl
  · simp only [hr, printed?_store hin, ↓reduceIte] at h ⊢
    cases hb : p.printed? d.instruction with
    | some bytes =>
      simp only
      rcases c.print bytes with ⟨fault | _, c'⟩ <;> rfl
    | none =>
      simp only [hb] at h
      simp only [effect_store hin h]

end Effect

end Extension

/-- The inputs of an instruction that is fetched are there. -/
theorem PlainMachine.inputs_le_of_fetch {m : PlainMachine} {d : Decoded} (h : m.fetch = .ok d) :
    d.instruction.inputs ≤ m.store.data.length := by
  cases ho : Opening.read ⟨m.program.bytes, m.ip⟩ with
  | error fault => simp [fetch, ho, bind, Except.bind] at h
  | ok r =>
    simp only [fetch, ho, bind, Except.bind] at h
    split at h
    · cases h
    · rename_i hin
      rw [(Opening.offset_of_finish h).2]
      exact Nat.le_of_not_lt hin

namespace Extension

variable {e : Extension}

/-- The larger machine. -/
def machine (e : Extension) (m : PlainMachine) : PlainMachine :=
  { m with callDepth := m.callDepth + e.calls, store := e.store m.store }

theorem fetch_machine {m : PlainMachine} (h : e.Leaves m.fetch) :
    (e.machine m).fetch = m.fetch := by
  cases ho : Opening.read ⟨m.program.bytes, m.ip⟩ with
  | error fault => simp only [PlainMachine.fetch, machine, ho, bind, Except.bind]
  | ok r =>
    simp only [PlainMachine.fetch, machine, store, List.length_append, ho, bind,
      Except.bind] at h ⊢
    by_cases hless : m.store.data.length < r.1.instruction.inputs
    · simp only [hless, ↓reduceIte] at h
      have hnone : e.beneath = [] := by
        by_contra hne
        exact h _ rfl hne
      simp only [hnone, List.length_nil, Nat.add_zero]
    · have hmore : ¬ m.store.data.length + e.beneath.length < r.1.instruction.inputs := by omega
      simp only [hless, hmore, ↓reduceIte]

theorem advance_machine (m : PlainMachine) (target : Option Int) :
    (e.machine m).advance target = ((m.advance target).1, e.machine (m.advance target).2) := by
  cases target with
  | none => rfl
  | some target =>
    by_cases hout : target < Program.headerSize ∨ (m.program.size : Int) ≤ target
    · simp only [PlainMachine.advance, machine, hout, ↓reduceIte]
    · simp only [PlainMachine.advance, machine, hout, ↓reduceIte]

theorem settle_machine (m : PlainMachine) (d : Decoded) (result : PlainStore.Effect × Console) :
    (e.machine m).settle d (e.effect result.1, result.2) =
      ((m.settle d result).1, e.machine (m.settle d result).2) := by
  match result with
  | (.error fault, c) => rfl
  | (.ok (flow, q), c) => exact advance_machine { m with store := q, console := c } _

theorem leaves_of_settle {m : PlainMachine} {d : Decoded} {result : PlainStore.Effect × Console}
    (h : e.Leaves (m.settle d result).1) : e.Leaves result.1 := by
  match result with
  | (.error fault, c) =>
    rintro fault' ⟨⟩
    exact h fault rfl
  | (.ok (flow, q), c) => exact .ok _

/-- A step of the larger machine ends in the same way, unless it hangs on what there is more of,
and what there is more of stays as it is. -/
theorem step_machine {m : PlainMachine} (h : e.Leaves m.step.1) :
    (e.machine m).step = (m.step.1, e.machine m.step.2) := by
  unfold PlainMachine.step at h ⊢
  cases hd : m.fetch with
  | error fault =>
    simp only [hd] at h
    have hfetch : (e.machine m).fetch = .error fault := by
      rw [← hd]
      apply fetch_machine
      rintro fault' hf
      rw [hd] at hf
      cases hf
      exact h fault rfl
    simp only [hfetch]
  | ok d =>
    simp only [hd] at h
    have hfetch : (e.machine m).fetch = .ok d := by
      rw [← hd]
      apply fetch_machine
      rw [hd]
      exact .ok d
    have hexecute := execute_store (m.inputs_le_of_fetch hd) (leaves_of_settle h)
    simp only [hfetch]
    rw [← settle_machine, ← hexecute]
    rfl

/-- The same for any number of steps. -/
theorem after_machine {m : PlainMachine} {count : Nat}
    (h : ∀ k < count, e.Leaves (m.after k).step.1) :
    (e.machine m).after count = e.machine (m.after count) := by
  induction count with
  | zero => rfl
  | succ count ih =>
    have hbefore := ih fun k hk => h k (Nat.lt_succ_of_lt hk)
    simp only [PlainMachine.after, hbefore, step_machine (h count (Nat.lt_succ_self count))]

end Extension
end StackMachine
