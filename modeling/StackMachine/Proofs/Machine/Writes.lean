import StackMachine.Proofs.Machine.PlainStore

namespace StackMachine

/-- The instruction is there to store a value in a cell. -/
def Decoded.Stores (d : Decoded) : Prop :=
  match d.instruction with
  | .move => ∀ value, d.operand ≠ .immediate value
  | .setRegister | .setPixel | .store => True
  | _ => False

/-- The cells and the screen after an instruction was carried out. -/
inductive Decoded.Writes (d : Decoded) (p : PlainStore) : Cells → Screen → Prop where
  | nothing (hn : ¬ d.Stores) : Writes d p p.cells p.screen
  | move (value : Int32) (rest : List Int32) (cell : Cell) (hi : d.instruction = .move)
      (hp : p.data = value :: rest) (hc : p.cells.locate d.operand = .ok cell) :
      Writes d p (p.cells.set cell value) p.screen
  | store (key value : Int32) (rest : List Int32) (cell : Cell) (hi : d.instruction = .store)
      (hp : p.data = key :: value :: rest) (hc : p.cells.locate (.memory key) = .ok cell) :
      Writes d p (p.cells.set cell value) p.screen
  | register (value : Int32) (rest : List Int32) (registers : Registers)
      (hi : d.instruction = .setRegister) (hp : p.data = value :: rest)
      (hr : p.cells.registers.set d.payload value = .ok registers) :
      Writes d p { p.cells with registers } p.screen
  | pixel (key value : Int32) (rest : List Int32) (screen : Screen)
      (hi : d.instruction = .setPixel) (hp : p.data = key :: value :: rest)
      (hs : p.screen.set key value = .ok screen) : Writes d p p.cells screen

namespace PlainStore

/-- If the effect is no fault, the cells and the screen stay as they are. -/
def Keeps (p : PlainStore) (effect : Effect) : Prop :=
  ∀ flow q, effect = .ok (flow, q) → q.cells = p.cells ∧ q.screen = p.screen

section Keeps

variable {p : PlainStore}

theorem Keeps.ok {q : PlainStore} (hc : q.cells = p.cells) (hs : q.screen = p.screen)
    (flow : Flow) : p.Keeps (.ok (flow, q)) := by
  intro flow' q' h
  cases h
  exact ⟨hc, hs⟩

theorem Keeps.error (fault : Fault) : p.Keeps (.error fault) := by
  intro flow q h
  cases h

theorem Keeps.bind {α : Type} {answer : Except Fault α} {rest : α → Effect}
    (h : ∀ a, p.Keeps (rest a)) : p.Keeps (answer >>= rest) := by
  cases answer with
  | error fault => exact .error fault
  | ok a => exact h a

end Keeps

variable (p : PlainStore) (d : Decoded)

theorem keeps_push {q : PlainStore} (hc : q.cells = p.cells) (hs : q.screen = p.screen)
    (value : Except Fault Int32) : p.Keeps (q.push value) := by
  apply Keeps.bind
  intro value
  exact @Keeps.ok p { q with data := value :: q.data } hc hs _

theorem keeps_pop : p.Keeps (p.pop d) := by
  unfold pop
  split
  · exact .ok rfl rfl _
  · exact .error _

theorem keeps_dup : p.Keeps (p.dup d) := by
  unfold dup
  split
  · exact p.keeps_push rfl rfl _
  · exact .error _

theorem keeps_combine (operation : Int32 → Int32 → Int32) : p.Keeps (p.combine d operation) := by
  unfold combine
  split
  · exact .ok rfl rfl _
  · exact .error _

theorem keeps_divide : p.Keeps (p.divide d) := by
  unfold divide
  split
  · split
    · exact .error _
    · exact p.keeps_combine d _
  · exact .error _

theorem keeps_branch (test : Int32 → Int32 → Bool) : p.Keeps (p.branch d test) := by
  apply Keeps.bind
  intro distance
  split
  · exact .ok rfl rfl _
  · exact .error _

theorem keeps_call (callDepth : Nat) : p.Keeps (p.call d callDepth) := by
  apply Keeps.bind
  intro distance
  split
  · exact .error _
  · exact .ok rfl rfl _

theorem keeps_goBack : p.Keeps (p.goBack d) := by
  unfold goBack
  split
  · exact .ok rfl rfl _
  · exact .error _

theorem keeps_lookUp (find : Int32 → Except Fault Int32) : p.Keeps (p.lookUp d find) := by
  unfold lookUp
  split
  · exact .bind fun _ => .ok rfl rfl _
  · exact .error _

variable {p d} {flow : Flow} {q : PlainStore}

theorem Keeps.writes {effect : Effect} (h : p.Keeps effect) (he : effect = .ok (flow, q))
    (hn : ¬ d.Stores) : d.Writes p q.cells q.screen := by
  obtain ⟨hcells, hscreen⟩ := h flow q he
  rw [hcells, hscreen]
  exact .nothing hn

theorem locate_of_assigned {cells cells' : Cells} {operand : Operand} {value : Int32}
    (h : assigned cells operand value = .ok cells') :
    ∃ cell, cells.locate operand = .ok cell ∧ cells' = cells.set cell value := by
  unfold assigned at h
  cases hc : cells.locate operand with
  | error fault => simp [hc, bind, Except.bind] at h
  | ok cell =>
    simp only [hc, bind, Except.bind, Except.ok.injEq] at h
    exact ⟨cell, rfl, h.symm⟩

theorem writes_move (hi : d.instruction = .move) (h : p.move d = .ok (flow, q)) :
    d.Writes p q.cells q.screen := by
  unfold move at h
  split at h
  · rename_i value rest hp
    split at h
    · rename_i immediate hoperand
      cases h
      refine .nothing fun hs => ?_
      simp only [Decoded.Stores, hi] at hs
      exact hs immediate hoperand
    · cases ha : assigned p.cells d.operand value with
      | error fault => simp [ha, bind, Except.bind] at h
      | ok cells =>
        obtain ⟨cell, hc, rfl⟩ := locate_of_assigned ha
        simp only [ha, bind, Except.bind, Except.ok.injEq, Prod.mk.injEq] at h
        obtain ⟨-, rfl⟩ := h
        exact .move value rest cell hi hp hc
  · cases h

theorem writes_store (hi : d.instruction = .store) (h : p.store d = .ok (flow, q)) :
    d.Writes p q.cells q.screen := by
  unfold store at h
  split at h
  · rename_i key value rest hp
    cases ha : assigned p.cells (.memory key) value with
    | error fault => simp [ha, bind, Except.bind] at h
    | ok cells =>
      obtain ⟨cell, hc, rfl⟩ := locate_of_assigned ha
      simp only [ha, bind, Except.bind, Except.ok.injEq, Prod.mk.injEq] at h
      obtain ⟨-, rfl⟩ := h
      exact .store key value rest cell hi hp hc
  · cases h

theorem writes_copyToRegister (hi : d.instruction = .setRegister)
    (h : p.copyToRegister d = .ok (flow, q)) : d.Writes p q.cells q.screen := by
  unfold copyToRegister at h
  split at h
  · rename_i value rest hp
    cases hr : p.cells.registers.set d.payload value with
    | error fault => simp [hr, bind, Except.bind] at h
    | ok registers =>
      simp only [hr, bind, Except.bind, Except.ok.injEq, Prod.mk.injEq] at h
      obtain ⟨-, rfl⟩ := h
      exact .register value rest registers hi hp hr
  · cases h

theorem writes_setPixel (hi : d.instruction = .setPixel) (h : p.setPixel d = .ok (flow, q)) :
    d.Writes p q.cells q.screen := by
  unfold setPixel at h
  split at h
  · rename_i key value rest hp
    cases hs : p.screen.set key value with
    | error fault => simp [hs, bind, Except.bind] at h
    | ok screen =>
      simp only [hs, bind, Except.bind, Except.ok.injEq, Prod.mk.injEq] at h
      obtain ⟨-, rfl⟩ := h
      exact .pixel key value rest screen hi hp hs
  · cases h

/-- An instruction that is carried out writes what it is there to write. -/
theorem writes_of_effect {callDepth : Nat} (h : p.effect callDepth d = .ok (flow, q)) :
    d.Writes p q.cells q.screen := by
  cases hi : d.instruction <;> simp only [effect, hi] at h
  case move => exact writes_move hi h
  case store => exact writes_store hi h
  case setRegister => exact writes_copyToRegister hi h
  case setPixel => exact writes_setPixel hi h
  all_goals
    have hn : ¬ d.Stores := by simp [Decoded.Stores, hi]
  case halt => exact (Keeps.ok rfl rfl _).writes h hn
  case push => exact (p.keeps_push rfl rfl _).writes h hn
  case pop => exact (p.keeps_pop d).writes h hn
  case dup => exact (p.keeps_dup d).writes h hn
  case add | sub | mul => exact (p.keeps_combine d _).writes h hn
  case div => exact (p.keeps_divide d).writes h hn
  case jump => exact (Keeps.bind fun _ => .ok rfl rfl _).writes h hn
  case jumpGreater | jumpLess | jumpEqual | jumpGreaterEqual | jumpLessEqual =>
    exact (p.keeps_branch d _).writes h hn
  case call => exact (p.keeps_call d callDepth).writes h hn
  case ret => exact (p.keeps_goBack d).writes h hn
  case getRegister => exact (p.keeps_push rfl rfl _).writes h hn
  case getPixel | load => exact (p.keeps_lookUp d _).writes h hn
  all_goals cases h

/-- The same with the console. -/
theorem writes_of_execute {callDepth : Nat} {c c' : Console}
    (h : p.execute callDepth d c = (.ok (flow, q), c')) : d.Writes p q.cells q.screen := by
  obtain ⟨hi, value, hpush⟩ | ⟨hi, rfl, rfl⟩ | heffect := execute_cases h
  · have hn : ¬ d.Stores := by simp [Decoded.Stores, hi]
    exact (p.keeps_push rfl rfl _).writes hpush hn
  · simp only [List.mem_cons, List.not_mem_nil, or_false] at hi
    rcases hi with hi | hi | hi | hi <;> exact .nothing (by simp [Decoded.Stores, hi])
  · exact writes_of_effect heffect

end PlainStore

/-- The registers, the memory and the screen have the given sizes. -/
structure Sizes.Match (sizes : Sizes) (cells : Cells) (screen : Screen) : Prop where
  registers : cells.registers.size = sizes.registers
  memory : cells.memory.size = sizes.memory
  width : screen.width = sizes.screenWidth
  pixels : screen.cells.size = sizes.screenWidth * sizes.screenHeight

namespace Sizes.Match

variable {sizes : Sizes} {cells : Cells} {screen : Screen}

theorem set (h : sizes.Match cells screen) (cell : Cell) (value : Int32) :
    sizes.Match (cells.set cell value) screen := by
  cases cell with
  | register i => exact ⟨by simpa [Cells.set] using h.registers, h.memory, h.width, h.pixels⟩
  | memory i => exact ⟨h.registers, by simpa [Cells.set] using h.memory, h.width, h.pixels⟩

theorem setRegister (h : sizes.Match cells screen) {index value : Int32} {registers : Registers}
    (hr : cells.registers.set index value = .ok registers) :
    sizes.Match { cells with registers } screen := by
  unfold Registers.set at hr
  split at hr
  · cases hr
    exact ⟨by simpa using h.registers, h.memory, h.width, h.pixels⟩
  · cases hr

theorem setPixel (h : sizes.Match cells screen) {key value : Int32} {screen' : Screen}
    (hs : screen.set key value = .ok screen') : sizes.Match cells screen' := by
  unfold Screen.set at hs
  cases hl : screen.locate key with
  | error fault => simp [hl, bind, Except.bind] at hs
  | ok i =>
    simp only [hl, bind, Except.bind, Except.ok.injEq] at hs
    subst hs
    exact ⟨h.registers, h.memory, h.width, by simpa using h.pixels⟩

/-- What is written has room in what is there. -/
theorem of_writes {d : Decoded} {p : PlainStore} (h : sizes.Match p.cells p.screen)
    (hw : d.Writes p cells screen) : sizes.Match cells screen := by
  cases hw with
  | nothing => exact h
  | move value rest cell => exact h.set cell value
  | store key value rest cell => exact h.set cell value
  | register value rest registers hi hp hr => exact h.setRegister hr
  | pixel key value rest screen hi hp hs => exact h.setPixel hs

end Sizes.Match

end StackMachine
