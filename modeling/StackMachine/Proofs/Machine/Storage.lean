import StackMachine.Proofs.Machine.Invariant
import StackMachine.Proofs.Machine.Room
import Mathlib.Logic.Function.Basic

namespace StackMachine

/-- Where a value can be stored. There may be no place with that number. -/
inductive Place where
  | register (index : Int)
  | memory (index : Int)
  | pixel (index : Int)
  deriving Repr, DecidableEq

/-- The values in all places that there are. -/
abbrev Contents := Place → Option Int32

namespace Contents

def numbered (cells : Array Int32) (index : Int) : Option Int32 :=
  if 0 ≤ index then cells[index.toNat]? else none

def of (cells : Cells) (screen : Screen) : Contents
  | .register index => numbered cells.registers index
  | .memory index => numbered cells.memory index
  | .pixel index => numbered screen.cells index

/-- A value is stored in a place that there is, or none is stored, and nothing else changes. -/
def Becomes (before : Contents) : Option (Place × Int32) → Contents → Prop
  | none, after => after = before
  | some (place, value), after =>
    before place ≠ none ∧ after = Function.update before place (some value)

end Contents

/-- The place that an operand names. The offset of an indexed one is added to the value of the
register as a number; the sum does not wrap. -/
def Operand.place? (contents : Contents) : Operand → Option Place
  | .immediate _ => none
  | .memory index => some (.memory index.toInt)
  | .register index => some (.register index.toNat)
  | .indexed base offset =>
    (contents (.register base.toNat)).map fun value => .memory (value.toInt + offset.toInt)

namespace Decoded

/-- The place that an instruction stores a value in, and the value. The uppermost of the values on
the stack stands in front. -/
def stored? (d : Decoded) (contents : Contents) (data : List Int32) : Option (Place × Int32) :=
  match d.instruction, data with
  | .move, value :: _ => (d.operand.place? contents).map fun place => (place, value)
  | .setRegister, value :: _ => some (.register d.payload.toInt, value)
  | .setPixel, key :: value :: _ => some (.pixel key.toInt, value)
  | .store, key :: value :: _ => some (.memory key.toInt, value)
  | _, _ => none

/-- The place that an instruction reads. -/
def source? (d : Decoded) (contents : Contents) (data : List Int32) : Option Place :=
  match d.instruction, data with
  | .push, _ => d.operand.place? contents
  | .getRegister, _ => some (.register d.payload.toInt)
  | .getPixel, key :: _ => some (.pixel key.toInt)
  | .load, key :: _ => some (.memory key.toInt)
  | _, _ => none

end Decoded

namespace Machine

def contents (m : Machine) : Contents :=
  .of m.store.cells m.store.screen

/-- The values on the stack, the uppermost in front. -/
def values (m : Machine) : List Int32 :=
  m.store.data.toList.reverse.map Int64.toInt32

/-- The instruction that the next step carries out. If it leads out of the program, it is carried
out before that is reported. -/
def carried? (m : Machine) : Option Decoded :=
  match m.fetch, m.step.result with
  | .ok d, .ok _ => some d
  | .ok d, .error (.targetOutside _ _) => some d
  | _, _ => none

/-- What the next step stores. -/
def stored? (m : Machine) : Option (Place × Int32) :=
  m.carried?.bind fun d => d.stored? m.contents m.values

/-- What so many steps store, the last in front. -/
def stores (m : Machine) : Nat → List (Place × Int32)
  | 0 => []
  | count + 1 => (m.after count).stored?.toList ++ m.stores count

end Machine

/-- What there is in the places at the start: zeros, but for the first memory cells. These have the
number of memory cells, the width and the height of the screen, and the number of its shades. -/
def Sizes.contents (sizes : Sizes) : Contents
  | .register index => if 0 ≤ index ∧ index < sizes.registers then some 0 else none
  | .memory index =>
    if 0 ≤ index ∧ index < sizes.memory then
      some <| match index with
        | 0 => Int32.ofNat sizes.memory
        | 1 => Int32.ofNat sizes.screenWidth
        | 2 => Int32.ofNat sizes.screenHeight
        | 3 => 70
        | _ => 0
    else none
  | .pixel index =>
    if 0 ≤ index ∧ index < sizes.screenWidth * sizes.screenHeight then some 0 else none

namespace Contents

theorem numbered_natCast {cells : Array Int32} {i : Nat} (hi : i < cells.size) :
    numbered cells i = some (cells.getD i 0) := by
  simp [numbered, Array.getD_eq_getD_getElem?, hi]

theorem numbered_replicate (count : Nat) (index : Int) :
    numbered (Array.replicate count 0) index =
      if 0 ≤ index ∧ index < count then some 0 else none := by
  unfold numbered
  by_cases hlow : 0 ≤ index
  · simp only [hlow, true_and, ↓reduceIte, Array.getElem?_replicate, Int.toNat_lt hlow]
  · simp only [hlow, false_and, ↓reduceIte]

theorem numbered_set {cells : Array Int32} {i : Nat} (hi : i < cells.size) (value : Int32)
    (index : Int) : numbered (cells.setIfInBounds i value) index =
      if index = i then some value else numbered cells index := by
  by_cases hindex : index = i
  · subst hindex
    simp [numbered, hi]
  · rw [if_neg hindex]
    unfold numbered
    split
    · have hother : i ≠ index.toNat := by omega
      rw [Array.getElem?_setIfInBounds_ne hother]
    · rfl

variable (cells : Cells) (screen : Screen) (value : Int32)

theorem of_setRegister {i : Nat} (hi : i < cells.registers.size) :
    of { cells with registers := cells.registers.setIfInBounds i value } screen =
      Function.update (of cells screen) (.register i) (some value) := by
  funext place
  cases place with
  | register index => simp [of, numbered_set hi, Function.update_apply]
  | memory index => simp [of]
  | pixel index => simp [of]

theorem of_setMemory {i : Nat} (hi : i < cells.memory.size) :
    of { cells with memory := cells.memory.setIfInBounds i value } screen =
      Function.update (of cells screen) (.memory i) (some value) := by
  funext place
  cases place with
  | memory index => simp [of, numbered_set hi, Function.update_apply]
  | register index => simp [of]
  | pixel index => simp [of]

theorem of_setPixel {i : Nat} (hi : i < screen.cells.size) :
    of cells { screen with cells := screen.cells.setIfInBounds i value } =
      Function.update (of cells screen) (.pixel i) (some value) := by
  funext place
  cases place with
  | pixel index => simp [of, numbered_set hi, Function.update_apply]
  | register index => simp [of]
  | memory index => simp [of]

end Contents

/-- The place of a cell of the registers or the memory. -/
def Cell.place : Cell → Place
  | .register index => .register index
  | .memory index => .memory index

namespace Cells

variable {c : Cells} {cell : Cell}

/-- The cell is there. -/
def Has (c : Cells) : Cell → Prop
  | .register i => i < c.registers.size
  | .memory i => i < c.memory.size

theorem has_memoryCell {index : Int} (h : c.memoryCell index = .ok cell) :
    c.Has cell ∧ cell.place = .memory index := by
  unfold memoryCell at h
  split at h
  · rename_i i hi
    cases h
    obtain ⟨rfl, hlt⟩ := indexIn?_eq_some_iff.mp hi
    exact ⟨hlt, rfl⟩
  · cases h

theorem has_registerCell {index : UInt8} (h : c.registerCell index = .ok cell) :
    c.Has cell ∧ cell.place = .register index.toNat := by
  unfold registerCell at h
  split at h
  · rename_i hlt
    cases h
    exact ⟨hlt, rfl⟩
  · cases h

theorem contents_place (h : c.Has cell) (screen : Screen) :
    Contents.of c screen cell.place = some (c.value cell) := by
  cases cell with
  | register i => exact Contents.numbered_natCast h
  | memory i => exact Contents.numbered_natCast h

theorem contents_set (h : c.Has cell) (screen : Screen) (value : Int32) :
    Contents.of (c.set cell value) screen =
      Function.update (Contents.of c screen) cell.place (some value) := by
  cases cell with
  | register i => exact Contents.of_setRegister c screen value h
  | memory i => exact Contents.of_setMemory c screen value h

/-- The cell that is found with an operand is in the place that the operand names. -/
theorem has_locate {operand : Operand} (h : c.locate operand = .ok cell) (screen : Screen) :
    c.Has cell ∧ operand.place? (Contents.of c screen) = some cell.place := by
  cases operand with
  | immediate value => cases h
  | memory index =>
    obtain ⟨hhas, hplace⟩ := has_memoryCell h
    exact ⟨hhas, congrArg some hplace.symm⟩
  | register index =>
    obtain ⟨hhas, hplace⟩ := has_registerCell h
    exact ⟨hhas, congrArg some hplace.symm⟩
  | indexed base offset =>
    simp only [locate] at h
    cases hb : c.registerCell base with
    | error fault => simp [hb, bind, Except.bind] at h
    | ok baseCell =>
      simp only [hb, bind, Except.bind] at h
      obtain ⟨hbase, hregister⟩ := has_registerCell hb
      obtain ⟨hhas, hplace⟩ := has_memoryCell h
      simp only [Operand.place?, ← hregister, contents_place hbase, Option.map_some, hplace]
      exact ⟨hhas, trivial⟩

/-- What is read with an operand that names a place is the value there. -/
theorem read_place {operand : Operand} {place : Place} {value : Int32} {screen : Screen}
    (h : c.read operand = .ok value) (hp : operand.place? (Contents.of c screen) = some place) :
    Contents.of c screen place = some value := by
  have hcell (hl : (do let cell ← c.locate operand; .ok (c.value cell)) = .ok value) :
      Contents.of c screen place = some value := by
    cases hc : c.locate operand with
    | error fault => simp [hc, bind, Except.bind] at hl
    | ok cell =>
      simp only [hc, bind, Except.bind, Except.ok.injEq] at hl
      obtain ⟨hhas, hplace⟩ := has_locate hc screen
      cases hplace.symm.trans hp
      rw [contents_place hhas, hl]
  cases operand with
  | immediate value => cases hp
  | memory index => exact hcell h
  | register index => exact hcell h
  | indexed base offset => exact hcell h

end Cells

/-- An instruction that is not there to store a value stores none. -/
theorem Decoded.stored?_eq_none {d : Decoded} (h : ¬ d.Stores) (contents : Contents)
    (data : List Int32) : d.stored? contents data = none := by
  unfold stored?
  split
  case h_1 value rest hi =>
    simp only [Stores, hi, not_forall, not_not] at h
    obtain ⟨immediate, hoperand⟩ := h
    rw [hoperand]
    rfl
  case h_5 => rfl
  all_goals
    rename_i hi
    simp [Stores, hi] at h

namespace PlainStore

variable {p q : PlainStore} {d : Decoded} {flow : Flow}

def contents (p : PlainStore) : Contents :=
  .of p.cells p.screen

/-- What an instruction writes is what it is there to store. -/
theorem becomes_of_writes {cells : Cells} {screen : Screen} (h : d.Writes p cells screen) :
    p.contents.Becomes (d.stored? p.contents p.data) (.of cells screen) := by
  cases h with
  | nothing hn =>
    rw [Decoded.stored?_eq_none hn]
    rfl
  | move value rest cell hi hp hc =>
    obtain ⟨hhas, hplace⟩ := Cells.has_locate hc p.screen
    simp only [Decoded.stored?, hi, hp, contents, hplace]
    exact ⟨by simp [Cells.contents_place hhas], Cells.contents_set hhas p.screen value⟩
  | store key value rest cell hi hp hc =>
    obtain ⟨hhas, hplace⟩ := Cells.has_memoryCell hc
    simp only [Decoded.stored?, hi, hp, contents, ← hplace]
    exact ⟨by simp [Cells.contents_place hhas], Cells.contents_set hhas p.screen value⟩
  | register value rest registers hi hp hr =>
    unfold Registers.set at hr
    split at hr
    · rename_i i hindex
      cases hr
      obtain ⟨hkey, hlt⟩ := indexIn?_eq_some_iff.mp hindex
      simp only [Decoded.stored?, hi, hp, contents, hkey]
      exact ⟨by simp [Contents.of, Contents.numbered_natCast hlt],
        Contents.of_setRegister p.cells p.screen value hlt⟩
    · cases hr
  | pixel key value rest screen hi hp hs =>
    unfold Screen.set Screen.locate at hs
    cases hindex : indexIn? p.screen.cells.size key.toInt with
    | none => simp [hindex, bind, Except.bind] at hs
    | some i =>
      simp only [hindex, bind, Except.bind, Except.ok.injEq] at hs
      subst hs
      obtain ⟨hkey, hlt⟩ := indexIn?_eq_some_iff.mp hindex
      simp only [Decoded.stored?, hi, hp, contents, hkey]
      exact ⟨by simp [Contents.of, Contents.numbered_natCast hlt],
        Contents.of_setPixel p.cells p.screen value hlt⟩

theorem get_register {r : Registers} {index value : Int32} (h : r.get index = .ok value) :
    Contents.numbered r index.toInt = some value := by
  unfold Registers.get at h
  split at h
  · rename_i i hindex
    cases h
    obtain ⟨hkey, hlt⟩ := indexIn?_eq_some_iff.mp hindex
    rw [hkey, Contents.numbered_natCast hlt]
  · cases h

theorem get_pixel {screen : Screen} {key value : Int32} (h : screen.get key = .ok value) :
    Contents.numbered screen.cells key.toInt = some value := by
  unfold Screen.get Screen.locate at h
  cases hindex : indexIn? screen.cells.size key.toInt with
  | none => simp [hindex, bind, Except.bind] at h
  | some i =>
    simp only [hindex, bind, Except.bind, Except.ok.injEq] at h
    obtain ⟨hkey, hlt⟩ := indexIn?_eq_some_iff.mp hindex
    rw [hkey, Contents.numbered_natCast hlt, h]

/-- An answer that is pushed is on top after that. -/
theorem data_of_push {answer : Except Fault Int32} (h : p.push answer = .ok (flow, q)) :
    ∃ value, answer = .ok value ∧ q.data = value :: p.data := by
  cases answer with
  | error fault => cases h
  | ok value =>
    obtain ⟨-, rfl⟩ := Prod.mk.inj (Except.ok.inj h)
    exact ⟨value, rfl, rfl⟩

/-- An instruction that reads a place pushes the value there. -/
theorem reads_of_effect {callDepth : Nat} {place : Place}
    (hs : d.source? p.contents p.data = some place)
    (he : p.effect callDepth d = .ok (flow, q)) :
    ∃ value, p.contents place = some value ∧
      q.data = value :: p.data.drop d.instruction.inputs := by
  unfold Decoded.source? at hs
  split at hs
  case h_1 hi =>
    simp only [effect, hi] at he ⊢
    obtain ⟨value, hread, hdata⟩ := data_of_push he
    exact ⟨value, Cells.read_place hread hs, hdata⟩
  case h_2 hi =>
    simp only [effect, hi] at he ⊢
    obtain ⟨value, hget, hdata⟩ := data_of_push he
    cases hs
    exact ⟨value, get_register hget, hdata⟩
  case h_3 key rest hi hp =>
    simp only [effect, hi, lookUp, hp] at he ⊢
    obtain ⟨value, hget, hdata⟩ := data_of_push he
    cases hs
    exact ⟨value, get_pixel hget, hdata⟩
  case h_4 key rest hi hp =>
    simp only [effect, hi, lookUp, hp] at he ⊢
    obtain ⟨value, hread, hdata⟩ := data_of_push he
    exact ⟨value, Cells.read_place hread hs, hdata⟩
  case h_5 => cases hs

/-- The same with the console, which such an instruction does not use. -/
theorem reads_of_execute {callDepth : Nat} {c c' : Console} {place : Place}
    (hs : d.source? p.contents p.data = some place)
    (he : p.execute callDepth d c = (.ok (flow, q), c')) :
    ∃ value, p.contents place = some value ∧
      q.data = value :: p.data.drop d.instruction.inputs := by
  have hquiet : p.execute callDepth d c = (p.effect callDepth d, c) := by
    unfold Decoded.source? at hs
    split at hs
    case h_1 hi | h_2 hi => simp [execute, hi, printed?]
    case h_3 key rest hi hp | h_4 key rest hi hp => simp [execute, hi, printed?]
    case h_5 => cases hs
  rw [hquiet] at he
  exact reads_of_effect hs (congrArg Prod.fst he)

end PlainStore

namespace Machine

variable {m : Machine} {p : PlainStore}

theorem contents_eq (h : m.store.Holds p) : m.contents = p.contents := by
  rw [contents, h.cells, h.screen]
  rfl

theorem values_eq (h : m.store.Holds p) : m.values = p.data := by
  rw [values, h.data.toList, List.reverse_reverse, List.map_map]
  have hsame : Int64.toInt32 ∘ Int32.toInt64 = id := funext Int32.toInt32_toInt64
  rw [hsame, List.map_id]

/-- An instruction that fails leaves all but the console as it was. -/
theorem step_of_error (h : m.store.Holds p) (hf : m.Fits) {d : Decoded} {fault : Fault}
    {c : Console} (hd : m.fetch = .ok d)
    (hp : p.execute m.callDepth d m.console = (.error fault, c)) :
    m.step = ⟨{ m with console := c }, .error fault, none⟩ ∧ m.carried? = none := by
  have hinside := (PlainStore.failsBy_execute hp).1.raises.inside
  obtain ⟨fault', hd', -⟩ | ⟨d', fault', c', hd', hp', hs⟩ |
    ⟨d', flow, q, store, c', hd', hp', -⟩ := step_cases h hf <;> cases hd.symm.trans hd'
  · cases hp.symm.trans hp'
    refine ⟨hs, ?_⟩
    simp only [carried?, hd, hs]
    split
    · rename_i he
      cases he
    · rename_i he
      cases he
      exact (hinside _ _ rfl).elim
    · rfl
  · cases hp.symm.trans hp'

/-- An instruction that does not fail is carried out, wherever it leads. -/
theorem step_of_ok (h : m.store.Holds p) (hf : m.Fits) {d : Decoded} {flow : Flow}
    {q : PlainStore} {c : Console} (hd : m.fetch = .ok d)
    (hp : p.execute m.callDepth d m.console = (.ok (flow, q), c)) :
    m.carried? = some d ∧ m.step.machine.store.Holds q ∧ m.step.machine.console = c := by
  obtain ⟨fault, hd', -⟩ | ⟨d', fault, c', hd', hp', -⟩ |
    ⟨d', flow', q', store, c', hd', hp', -, hq, hs⟩ := step_cases h hf <;> cases hd.symm.trans hd'
  · cases hp.symm.trans hp'
  · cases hp.symm.trans hp'
    constructor
    · -- It halts, leads out of the program, or moves on; it was carried out in each case.
      obtain ⟨-, ha⟩ | ⟨t, -, -, ha⟩ | ⟨t, -, -, -, ha⟩ :=
        advance_cases { m with store, console := c } (target? d flow) <;>
        simp only [carried?, hd, hs, ha]
    · rw [hs]
      simp only
      rw [advance_frame]
      exact ⟨hq, rfl⟩

/-- A step carries out no instruction and changes no place, or it carries one out and leaves what
that makes of the store. -/
theorem carried_cases (h : m.store.Holds p) (hf : m.Fits) :
    (m.carried? = none ∧ m.step.machine.contents = m.contents) ∨
    ∃ d flow q c, m.carried? = some d ∧
      p.execute m.callDepth d m.console = (.ok (flow, q), c) ∧ m.step.machine.store.Holds q := by
  obtain ⟨fault, hd, hs⟩ | ⟨d, fault, c, hd, hp, -⟩ | ⟨d, flow, q, store, c, hd, hp, -⟩ :=
    step_cases h hf
  · left
    simp only [carried?, hd, hs]
    exact ⟨trivial, trivial⟩
  · left
    obtain ⟨hs, hnone⟩ := step_of_error h hf hd hp
    rw [hs]
    exact ⟨hnone, rfl⟩
  · right
    obtain ⟨hcarried, hq, -⟩ := step_of_ok h hf hd hp
    exact ⟨d, flow, q, c, hcarried, hp, hq⟩

/-- A step stores what its instruction is there to store, and nothing else. -/
theorem step_becomes (h : m.store.Holds p) (hf : m.Fits) :
    m.contents.Becomes m.stored? m.step.machine.contents := by
  obtain ⟨hnone, hsame⟩ | ⟨d, flow, q, c, hd, hp, hq⟩ := carried_cases h hf
  · rw [stored?, hnone]
    exact hsame
  · rw [stored?, hd, contents_eq h, contents_eq hq, values_eq h]
    exact PlainStore.becomes_of_writes (PlainStore.writes_of_execute hp)

/-- A step that reads a place pushes the value there. -/
theorem step_reads (h : m.store.Holds p) (hf : m.Fits) {d : Decoded} {place : Place}
    (hd : m.carried? = some d) (hs : d.source? m.contents m.values = some place) :
    ∃ value, m.contents place = some value ∧
      m.step.machine.values = value :: m.values.drop d.instruction.inputs := by
  obtain ⟨hnone, -⟩ | ⟨d', flow, q, c, hd', hp, hq⟩ := carried_cases h hf
  · cases hnone.symm.trans hd
  · cases hd'.symm.trans hd
    rw [contents_eq h, values_eq h] at hs
    rw [contents_eq h, values_eq h, values_eq hq]
    exact PlainStore.reads_of_execute hs hp

/-- The environment is put over the first cells. -/
theorem getElem?_seed (memory : Array Int32) (values : List Nat) (i : Nat) :
    (seed memory values)[i]? =
      memory[i]?.map fun old => (values[i]?.map Int32.ofNat).getD old := by
  have hfrom (start : Nat) : ((values.zipIdx start).foldl
      (fun memory p => memory.setIfInBounds p.2 (Int32.ofNat p.1)) memory)[i]? =
      memory[i]?.map fun old =>
        if start ≤ i then (values[i - start]?.map Int32.ofNat).getD old else old := by
    -- The values are numbered one after the other, so the rest of them starts at another number.
    induction values generalizing memory start with
    | nil => simp
    | cons value rest ih =>
      rw [List.zipIdx_cons, List.foldl_cons, ih, Array.getElem?_setIfInBounds]
      rcases Nat.lt_trichotomy i start with hbefore | rfl | hbehind
      · have hne : start ≠ i := by omega
        have hlow : ¬ start + 1 ≤ i := by omega
        have hlow' : ¬ start ≤ i := by omega
        simp only [hne, hlow, hlow', ↓reduceIte]
      · by_cases hi : i < memory.size <;> simp [hi]
      · obtain ⟨k, rfl⟩ := Nat.exists_eq_add_of_lt hbehind
        have hne : start ≠ start + k + 1 := by omega
        have hk : start + k + 1 - start = k + 1 := by omega
        have hk' : start + k + 1 - (start + 1) = k := by omega
        have hle : start + 1 ≤ start + k + 1 := by omega
        have hle' : start ≤ start + k + 1 := by omega
        simp only [hne, hk, hk', hle, hle', ↓reduceIte, List.getElem?_cons_succ]
  have hall := hfrom 0
  simp only [Nat.zero_le, ↓reduceIte, Nat.sub_zero] at hall
  exact hall

theorem numbered_seed (memory : Array Int32) (values : List Nat) (index : Int) :
    Contents.numbered (seed memory values) index = (Contents.numbered memory index).map fun old =>
      (values[index.toNat]?.map Int32.ofNat).getD old := by
  unfold Contents.numbered
  split
  · exact getElem?_seed memory values index.toNat
  · rfl

variable {program : Program} {sizes : Sizes} {console : Console} {m₀ : Machine}

/-- The environment that the memory starts with is written out in the contents. -/
theorem numbered_environment (sizes : Sizes) (index : Int) :
    Contents.numbered (seed (Array.replicate sizes.memory 0) (environment sizes)) index =
      sizes.contents (.memory index) := by
  rw [numbered_seed, Contents.numbered_replicate]
  unfold Sizes.contents
  dsimp only
  by_cases hin : 0 ≤ index ∧ index < sizes.memory
  · rw [if_pos hin, if_pos hin, environment, Screen.size_paletteBytes]
    match index with
    | 0 | 1 | 2 | 3 => rfl
    | .ofNat (n + 4) => rfl
    | .negSucc n => exact absurd hin.1 (Int.negSucc_not_nonneg n).mp
  · rw [if_neg hin, if_neg hin]
    rfl

theorem contents_start (h : start program sizes console = .ok m₀) :
    m₀.contents = sizes.contents := by
  obtain ⟨-, -, memory, registers, screen, hmemory, hregisters, hscreen, rfl⟩ := start_eq h
  rw [eq_replicate_of_zeroCells hregisters, eq_replicate_of_zeroCells hmemory,
    Screen.eq_of_make hscreen]
  funext place
  cases place with
  | register index => exact Contents.numbered_replicate _ _
  | memory index => simp only [contents, Contents.of, numbered_environment]
  | pixel index =>
    simp only [contents, Contents.of, Sizes.contents, Contents.numbered_replicate, Nat.cast_mul]

/-- In each place there is what was stored there last, or what it had at the start. -/
theorem contents_after (hs : start program sizes console = .ok m₀) {count : Nat}
    (hf : m₀.FitsFor count) (place : Place) :
    (m₀.after count).contents place =
      ((m₀.stores count).lookup place).or (sizes.contents place) := by
  induction count with
  | zero =>
    rw [after, contents_start hs]
    rfl
  | succ count ih =>
    have hbefore := hf.of_le (Nat.le_succ count)
    obtain ⟨-, -, -, -, p₀, hold₀, -, -⟩ := start_holds hs
    obtain ⟨-, -, p, hold⟩ := after_holds hold₀ hbefore
    have hstep := step_becomes hold (hf count (Nat.le_succ count))
    cases hstored : (m₀.after count).stored? with
    | none =>
      rw [hstored] at hstep
      rw [after, stores, hstored, hstep, ih hbefore]
      rfl
    | some store =>
      obtain ⟨target, value⟩ := store
      rw [hstored] at hstep
      rw [after, stores, hstored, hstep.2, Option.toList_some, List.singleton_append,
        List.lookup_cons]
      by_cases hsame : place = target
      · subst hsame
        simp
      · have hother : (place == target) = false := by simpa using hsame
        rw [Function.update_of_ne hsame, hother, ih hbefore]

/-- However a machine got where it is, its next step stores at most one value, the one that its
instruction is there to store, and changes nothing else. So there is in each place what was stored
there last, by whatever instruction, or what it had at the start, and a step that reads a place
pushes that value. -/
theorem reads_what_was_stored (hs : start program sizes console = .ok m₀) {count : Nat}
    (hf : m₀.FitsFor count) :
    let m := m₀.after count
    m.contents.Becomes m.stored? m.step.machine.contents ∧
      (∀ place, m.contents place = ((m₀.stores count).lookup place).or (sizes.contents place)) ∧
      ∀ d place, m.carried? = some d → d.source? m.contents m.values = some place →
        ∃ value, ((m₀.stores count).lookup place).or (sizes.contents place) = some value ∧
          m.step.machine.values = value :: m.values.drop d.instruction.inputs := by
  intro m
  obtain ⟨-, -, -, -, p₀, hold₀, -, -⟩ := start_holds hs
  obtain ⟨-, -, p, hold⟩ := after_holds hold₀ hf
  have hfits : m.Fits := hf count (Nat.le_refl count)
  refine ⟨step_becomes hold hfits, contents_after hs hf, fun d place hd hplace => ?_⟩
  obtain ⟨value, hvalue, hvalues⟩ := step_reads hold hfits hd hplace
  exact ⟨value, (contents_after hs hf place).symm.trans hvalue, hvalues⟩

/-- A value that was stored by number is read through a register and an offset, by an instruction
that leads out of the program. -/
theorem reads_what_was_stored_indexed :
    ∃ m₀ : Machine,
      start (.ofBody #[8, 2, 0, 0, 0, 76, 0, 0, 0, 0, 8, 7, 0, 0, 0, 8, 5, 0, 0, 0, 100,
        11, 0, 3, 0, 0]) ⟨1, 6, 1, 1, 0, 0, 1⟩ ⟨⟨[], false⟩, ⟨#[], none, false⟩⟩ = .ok m₀ ∧
      m₀.FitsFor 5 ∧ m₀.stores 5 = [(.memory 5, 7), (.register 0, 2)] ∧
      let m := m₀.after 5
      let d : Decoded := ⟨37, .push, .indexed, 0x300, 42⟩
      m.step.result = .error (.targetOutside 42 37) ∧ m.carried? = some d ∧
        d.source? m.contents m.values = some (.memory 5) ∧ m.step.machine.values = [7, 7, 2] := by
  obtain ⟨m₀, hs, hstores, hresult, hcarried, hsource, hvalues⟩ : ∃ m₀ : Machine,
      start (.ofBody #[8, 2, 0, 0, 0, 76, 0, 0, 0, 0, 8, 7, 0, 0, 0, 8, 5, 0, 0, 0, 100,
        11, 0, 3, 0, 0]) ⟨1, 6, 1, 1, 0, 0, 1⟩ ⟨⟨[], false⟩, ⟨#[], none, false⟩⟩ = .ok m₀ ∧
      m₀.stores 5 = [(.memory 5, 7), (.register 0, 2)] ∧
      (m₀.after 5).step.result = .error (.targetOutside 42 37) ∧
      (m₀.after 5).carried? = some ⟨37, .push, .indexed, 0x300, 42⟩ ∧
      Decoded.source? ⟨37, .push, .indexed, 0x300, 42⟩ (m₀.after 5).contents (m₀.after 5).values =
        some (.memory 5) ∧
      (m₀.after 5).values = [7, 2] :=
    ⟨_, rfl, by decide +kernel, by decide +kernel, by decide +kernel, by decide +kernel,
      by decide +kernel⟩
  have hf : m₀.FitsFor 5 := fitsFor_of_start hs (by decide)
  obtain ⟨-, -, hreads⟩ := reads_what_was_stored hs hf
  obtain ⟨value, hvalue, hpushed⟩ := hreads _ _ hcarried hsource
  rw [hstores] at hvalue
  cases hvalue
  rw [hvalues] at hpushed
  exact ⟨m₀, hs, hf, hstores, hresult, hcarried, hsource, hpushed⟩

end Machine

end StackMachine
