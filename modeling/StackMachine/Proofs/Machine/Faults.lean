import StackMachine.Proofs.Machine.Fetch
import StackMachine.Proofs.Machine.PlainStore

namespace StackMachine

/-- A fault, if the result is one, is of the given kind. -/
def FailsWith {α : Type} (kind : Fault → Prop) (result : Except Fault α) : Prop :=
  ∀ fault, result = .error fault → kind fault

section FailsWith

variable {α β : Type} {kind : Fault → Prop}

theorem FailsWith.ok (a : α) : FailsWith kind (.ok a) := by
  intro fault h
  cases h

theorem FailsWith.error {fault : Fault} (h : kind fault) :
    FailsWith kind (.error fault : Except Fault α) := by
  intro fault' h'
  cases h'
  exact h

theorem FailsWith.bind {first : Except Fault α} {rest : α → Except Fault β}
    (hf : FailsWith kind first) (hr : ∀ a, FailsWith kind (rest a)) :
    FailsWith kind (first >>= rest) := by
  cases first with
  | error fault => exact .error (hf fault rfl)
  | ok a => exact hr a

theorem FailsWith.mono {kind' : Fault → Prop} {result : Except Fault α} (h : FailsWith kind result)
    (hk : ∀ fault, kind fault → kind' fault) : FailsWith kind' result :=
  fun fault hf => hk fault (h fault hf)

/-- The first of two actions has such faults, and so does the second if it comes to that. -/
theorem FailsWith.of_bind {first : Except Fault α} {rest : α → Except Fault β}
    (h : FailsWith kind (first >>= rest)) :
    FailsWith kind first ∧ ∀ a, first = .ok a → FailsWith kind (rest a) := by
  cases first with
  | error fault =>
    refine ⟨?_, nofun⟩
    rintro fault' ⟨⟩
    exact h fault rfl
  | ok a =>
    refine ⟨.ok a, ?_⟩
    rintro a' ⟨⟩
    exact h

end FailsWith

/-- A fault that is not about control leaving the program. -/
def Fault.Inside (fault : Fault) : Prop :=
  ∀ target source, fault ≠ .targetOutside target source

/-- A fault that carrying out an instruction can have. -/
def Decoded.Raises (d : Decoded) : Fault → Prop
  | .targetOutside _ _ => False
  | .stackDamaged _ _ => False
  | .notACell _ => False
  | .unexpectedEnd _ _ _ => False
  | .invalidInstruction _ _ => False
  | .invalidMode _ _ _ => False
  | .unresolvedBranch _ _ => d.instruction.isBranch = true ∧ d.payload = 0
  | _ => True

theorem Decoded.Raises.inside {d : Decoded} {fault : Fault} (h : d.Raises fault) :
    fault.Inside := by
  rintro target source rfl
  exact h

/-- A fault of bytes that are no instruction. -/
def Fault.OfDecoding : Fault → Prop
  | .unexpectedEnd _ _ _ | .invalidInstruction _ _ | .invalidMode _ _ _ => True
  | _ => False

/-- A fault that fetching an instruction can have. -/
def Fault.OfFetch : Fault → Prop
  | .stackUnderflow _ _ => True
  | .unexpectedEnd _ _ _ => True
  | .invalidInstruction _ _ => True
  | .invalidMode _ _ _ => True
  | _ => False

theorem Fault.OfDecoding.ofFetch {fault : Fault} (h : fault.OfDecoding) : fault.OfFetch := by
  cases fault <;> first | exact trivial | exact h.elim

theorem Fault.OfFetch.inside {fault : Fault} (h : fault.OfFetch) : fault.Inside := by
  rintro target source rfl
  exact h

theorem Cursor.ofDecoding_take (c : Cursor) (count : Nat) :
    FailsWith Fault.OfDecoding (c.take count) := by
  unfold Cursor.take
  split
  · exact .ok _
  · exact .error trivial

theorem Opening.ofDecoding_read (c : Cursor) : FailsWith Fault.OfDecoding (Opening.read c) := by
  apply FailsWith.bind
  · exact (c.ofDecoding_take 1).bind fun _ => .ok _
  · rintro ⟨byte, c⟩
    simp only
    split
    · exact .error trivial
    · split
      · exact .error trivial
      · exact .ok _

theorem Opening.ofDecoding_finish (o : Opening) (offset : Nat) (c : Cursor) :
    FailsWith Fault.OfDecoding (o.finish offset c) := by
  unfold Opening.finish
  split
  · apply FailsWith.bind
    · exact (c.ofDecoding_take 4).bind fun _ => .ok _
    · exact fun _ => .ok _
  · exact .ok _

theorem Machine.ofFetch_fetch (m : Machine) : FailsWith Fault.OfFetch m.fetch := by
  rw [fetch_eq]
  apply ((Opening.ofDecoding_read _).mono fun _ => Fault.OfDecoding.ofFetch).bind
  rintro ⟨opening, c⟩
  simp only
  split
  · exact .error trivial
  · exact (opening.ofDecoding_finish _ _).mono fun _ => Fault.OfDecoding.ofFetch

/-- A fault of an index that no cell has. -/
def Fault.OfCell : Fault → Prop
  | .noRegister _ _ | .noMemory _ _ | .noPixel _ _ => True
  | _ => False

/-- A fault of the console, or of what was read from it. -/
def Fault.OfConsole : Fault → Prop
  | .output _ | .input _ | .notANumber _ => True
  | _ => False

/-- The faults that carrying out an instruction has on a store. -/
inductive Decoded.FailsBy (d : Decoded) (p : PlainStore) : Fault → Prop where
  | cell {fault : Fault} (h : fault.OfCell) : FailsBy d p fault
  | console {fault : Fault} (h : fault.OfConsole) : FailsBy d p fault
  | lacking (h : p.data.length < d.instruction.inputs) :
      FailsBy d p (.stackUnderflow d.instruction d.offset)
  | unresolved (hi : d.instruction.isBranch = true) (hz : d.payload = 0) :
      FailsBy d p (.unresolvedBranch d.instruction d.offset)
  | division : FailsBy d p (.divisionByZero d.offset)
  | callsTooDeep (depth : Nat) : FailsBy d p (.callsTooDeep d.offset depth)
  | noReturn : FailsBy d p (.returnWithoutCall d.offset)
  | aborted : FailsBy d p (.aborted d.offset)

namespace Decoded.FailsBy

variable {d : Decoded} {p : PlainStore} {fault : Fault}

theorem raises (h : d.FailsBy p fault) : d.Raises fault := by
  cases h with
  | cell h | console h => cases fault <;> first | exact trivial | exact h.elim
  | unresolved hi hz => exact ⟨hi, hz⟩
  | _ => exact trivial

/-- Where the inputs are there, the fault is not that there are too few operands. -/
theorem supplied (h : d.FailsBy p fault) (hin : d.instruction.inputs ≤ p.data.length)
    (instruction : Instruction) (offset : Nat) : fault ≠ .stackUnderflow instruction offset := by
  rintro rfl
  cases h with
  | cell h | console h => exact h
  | lacking h => omega

end Decoded.FailsBy

section Cells

theorem Registers.ofCell_get (r : Registers) (index : Int32) :
    FailsWith Fault.OfCell (r.get index) := by
  unfold Registers.get
  split
  · exact .ok _
  · exact .error trivial

theorem Registers.ofCell_set (r : Registers) (index value : Int32) :
    FailsWith Fault.OfCell (r.set index value) := by
  unfold Registers.set
  split
  · exact .ok _
  · exact .error trivial

namespace Cells

theorem ofCell_memoryCell (c : Cells) (index : Int) :
    FailsWith Fault.OfCell (c.memoryCell index) := by
  unfold memoryCell
  split
  · exact .ok _
  · exact .error trivial

theorem ofCell_registerCell (c : Cells) (index : UInt8) :
    FailsWith Fault.OfCell (c.registerCell index) := by
  unfold registerCell
  split
  · exact .ok _
  · exact .error trivial

/-- Only an immediate operand names no cell. -/
theorem ofCell_locate (c : Cells) {operand : Operand} (h : ∀ value, operand ≠ .immediate value) :
    FailsWith Fault.OfCell (c.locate operand) := by
  cases operand with
  | immediate value => exact absurd rfl (h value)
  | memory index => exact c.ofCell_memoryCell _
  | register index => exact c.ofCell_registerCell index
  | indexed base offset =>
    exact (c.ofCell_registerCell base).bind fun _ => c.ofCell_memoryCell _

theorem ofCell_read (c : Cells) (operand : Operand) : FailsWith Fault.OfCell (c.read operand) := by
  cases operand with
  | immediate value => exact .ok value
  | _ => exact .bind (c.ofCell_locate fun _ => nofun) fun _ => .ok _

end Cells

theorem Screen.ofCell_locate (s : Screen) (key : Int32) :
    FailsWith Fault.OfCell (s.locate key) := by
  unfold Screen.locate
  split
  · exact .ok _
  · exact .error trivial

end Cells

namespace PlainStore

variable (p : PlainStore) (d : Decoded)

theorem failsBy_cell {α : Type} {result : Except Fault α} (h : FailsWith Fault.OfCell result) :
    FailsWith (d.FailsBy p) result :=
  h.mono fun _ => .cell

theorem failsBy_push {value : Except Fault Int32} (h : FailsWith Fault.OfCell value)
    (q : PlainStore) : FailsWith (d.FailsBy p) (q.push value) :=
  (failsBy_cell p d h).bind fun _ => .ok _

theorem failsBy_assigned (cells : Cells) {operand : Operand}
    (h : ∀ value, operand ≠ .immediate value) (value : Int32) :
    FailsWith (d.FailsBy p) (assigned cells operand value) :=
  (failsBy_cell p d (cells.ofCell_locate h)).bind fun _ => .ok _

theorem failsBy_distance (hi : d.instruction.isBranch = true) :
    FailsWith (d.FailsBy p) (Store.distance d d.payload) := by
  unfold Store.distance
  split
  · rename_i hzero
    exact .error (.unresolved hi hzero)
  · exact .ok _

section OneInput

variable (hin : 1 ≤ d.instruction.inputs)
include hin

theorem failsBy_nil (hp : p.data = []) : FailsWith (d.FailsBy p) (lacking d) :=
  .error (.lacking (by rw [hp]; exact hin))

theorem failsBy_pop : FailsWith (d.FailsBy p) (p.pop d) := by
  unfold pop
  split
  · exact .ok _
  · rename_i hp
    exact failsBy_nil p d hin hp

theorem failsBy_dup : FailsWith (d.FailsBy p) (p.dup d) := by
  unfold dup
  split
  · exact failsBy_push p d (.ok _) p
  · rename_i hp
    exact failsBy_nil p d hin hp

theorem failsBy_move : FailsWith (d.FailsBy p) (p.move d) := by
  unfold move
  split
  · split
    · exact .ok _
    · rename_i hcell
      exact (failsBy_assigned p d _ hcell _).bind fun _ => .ok _
  · rename_i hp
    exact failsBy_nil p d hin hp

theorem failsBy_copyToRegister : FailsWith (d.FailsBy p) (p.copyToRegister d) := by
  unfold copyToRegister
  split
  · exact (failsBy_cell p d (Registers.ofCell_set _ _ _)).bind fun _ => .ok _
  · rename_i hp
    exact failsBy_nil p d hin hp

theorem failsBy_lookUp {find : Int32 → Except Fault Int32}
    (h : ∀ key, FailsWith Fault.OfCell (find key)) : FailsWith (d.FailsBy p) (p.lookUp d find) := by
  unfold lookUp
  split
  · exact failsBy_push p d (h _) _
  · rename_i hp
    exact failsBy_nil p d hin hp

end OneInput

section TwoInputs

variable (hin : d.instruction.inputs = 2)
include hin

theorem failsBy_short (hp : ∀ a b rest, p.data ≠ a :: b :: rest) :
    FailsWith (d.FailsBy p) (lacking d) := by
  apply FailsWith.error
  apply Decoded.FailsBy.lacking
  by_contra hle
  obtain ⟨a, b, rest, hdata⟩ := exists_cons_cons (l := p.data) (by omega)
  exact hp a b rest hdata

theorem failsBy_combine (operation : Int32 → Int32 → Int32) :
    FailsWith (d.FailsBy p) (p.combine d operation) := by
  unfold combine
  split
  · exact .ok _
  · rename_i hp
    exact failsBy_short p d hin hp

theorem failsBy_divide : FailsWith (d.FailsBy p) (p.divide d) := by
  unfold divide
  split
  · split
    · exact .error .division
    · exact failsBy_combine p d hin _
  · rename_i hp
    exact failsBy_nil p d (by omega) hp

theorem failsBy_branch (hi : d.instruction.isBranch = true) (test : Int32 → Int32 → Bool) :
    FailsWith (d.FailsBy p) (p.branch d test) := by
  apply (failsBy_distance p d hi).bind
  intro distance
  split
  · exact .ok _
  · rename_i hp
    exact failsBy_short p d hin hp

theorem failsBy_setPixel : FailsWith (d.FailsBy p) (p.setPixel d) := by
  unfold setPixel
  split
  · exact ((failsBy_cell p d (p.screen.ofCell_locate _)).bind fun _ => .ok _).bind fun _ => .ok _
  · rename_i hp
    exact failsBy_short p d hin hp

theorem failsBy_store : FailsWith (d.FailsBy p) (p.store d) := by
  unfold store
  split
  · rename_i key value rest _
    have hcell : ∀ v, Operand.memory key ≠ .immediate v := fun _ => nofun
    exact (failsBy_assigned p d _ hcell _).bind fun _ => .ok _
  · rename_i hp
    exact failsBy_short p d hin hp

end TwoInputs

theorem failsBy_call (hi : d.instruction.isBranch = true) (callDepth : Nat) :
    FailsWith (d.FailsBy p) (p.call d callDepth) := by
  apply (failsBy_distance p d hi).bind
  intro distance
  split
  · exact .error (.callsTooDeep _)
  · exact .ok _

theorem failsBy_goBack : FailsWith (d.FailsBy p) (p.goBack d) := by
  unfold goBack
  split
  · exact .ok _
  · exact .error .noReturn

/-- Carrying out an instruction that does not use the console has only such faults. One that is
there to print prints, if it has its input. -/
theorem failsBy_effect (callDepth : Nat) (hr : d.instruction ≠ .read)
    (hn : p.printed? d.instruction = none) : FailsWith (d.FailsBy p) (p.effect callDepth d) := by
  unfold effect
  cases hi : d.instruction <;> rw [hi] at hr hn
  case halt => exact .ok _
  case abort => exact .error .aborted
  case push => exact failsBy_push p d (p.cells.ofCell_read _) p
  case pop => exact failsBy_pop p d (by rw [hi]; decide)
  case dup => exact failsBy_dup p d (by rw [hi]; decide)
  case move => exact failsBy_move p d (by rw [hi]; decide)
  case add => exact failsBy_combine p d (by rw [hi]; rfl) _
  case sub => exact failsBy_combine p d (by rw [hi]; rfl) _
  case mul => exact failsBy_combine p d (by rw [hi]; rfl) _
  case div => exact failsBy_divide p d (by rw [hi]; rfl)
  case jump => exact (failsBy_distance p d (by rw [hi]; rfl)).bind fun _ => .ok _
  case jumpGreater | jumpLess | jumpEqual | jumpGreaterEqual | jumpLessEqual =>
    exact failsBy_branch p d (by rw [hi]; rfl) (by rw [hi]; rfl) _
  case call => exact failsBy_call p d (by rw [hi]; rfl) callDepth
  case ret => exact failsBy_goBack p d
  case getRegister => exact failsBy_push p d (Registers.ofCell_get _ _) p
  case setRegister => exact failsBy_copyToRegister p d (by rw [hi]; decide)
  case setPixel => exact failsBy_setPixel p d (by rw [hi]; rfl)
  case getPixel =>
    exact failsBy_lookUp p d (by rw [hi]; decide) fun key =>
      (p.screen.ofCell_locate key).bind fun _ => .ok _
  case store => exact failsBy_store p d (by rw [hi]; rfl)
  case load => exact failsBy_lookUp p d (by rw [hi]; decide) fun key => p.cells.ofCell_read _
  case read => exact absurd rfl hr
  case clear | draw => cases hn
  case print | printChar =>
    apply failsBy_nil p d (by rw [hi]; decide)
    cases hp : p.data with
    | nil => rfl
    | cons value rest => simp [printed?, hp] at hn

end PlainStore

end StackMachine
