import StackMachine.Proofs.Machine.Steps

namespace StackMachine

structure PlainMachine where
  program : Program
  callDepth : Nat
  ip : Nat
  store : PlainStore
  console : Console
  deriving Repr, DecidableEq

namespace PlainMachine

/-- The instruction that a machine stands at, if its inputs are there. -/
def fetch (m : PlainMachine) : Except Fault Decoded := do
  let (opening, c) ← Opening.read ⟨m.program.bytes, m.ip⟩
  if m.store.data.length < opening.instruction.inputs then
    .error (.stackUnderflow opening.instruction m.ip)
  else opening.finish m.ip c

def advance (m : PlainMachine) (target : Option Int) : Except Fault Advance × PlainMachine :=
  match target with
  | none => (.ok .halt, m)
  | some target =>
    if target < Program.headerSize ∨ (m.program.size : Int) ≤ target then
      (.error (.targetOutside target m.ip), m)
    else (.ok (.shift (target - m.ip)), { m with ip := target.toNat })

/-- A machine after an instruction was carried out or failed. -/
def settle (m : PlainMachine) (d : Decoded) :
    PlainStore.Effect × Console → Except Fault Advance × PlainMachine
  | (.error fault, console) => (.error fault, { m with console })
  | (.ok (flow, store), console) => { m with store, console }.advance (Machine.target? d flow)

/-- How a step ends, and the machine after it. -/
def step (m : PlainMachine) : Except Fault Advance × PlainMachine :=
  match m.fetch with
  | .error fault => (.error fault, m)
  | .ok d => m.settle d (m.store.execute m.callDepth d m.console)

/-- The machine after so many steps. -/
def after (m : PlainMachine) : Nat → PlainMachine
  | 0 => m
  | count + 1 => (m.after count).step.2

end PlainMachine

/-- The machine is whole, and what it holds is the plain one. -/
structure Machine.Holds (m : Machine) (p : PlainMachine) : Prop where
  program_eq : m.program = p.program
  callDepth_eq : m.callDepth = p.callDepth
  ip_eq : m.ip = p.ip
  store : m.store.Holds p.store
  console_eq : m.console = p.console

namespace Machine.Holds

variable {m : Machine} {p : PlainMachine}

theorem fetch (h : m.Holds p) : m.fetch = p.fetch := by
  have hlength : m.store.data.size.toNat = p.store.data.length := by
    rw [h.store.data.size_eq, List.length_map]
  rw [fetch_eq]
  simp only [PlainMachine.fetch, h.program_eq, h.ip_eq, hlength]

theorem advance (h : m.Holds p) (target : Option Int) :
    (Machine.advance m target).1 = (p.advance target).1 ∧
      (Machine.advance m target).2.Holds (p.advance target).2 := by
  cases target with
  | none => exact ⟨rfl, h⟩
  | some target =>
    simp only [Machine.advance, PlainMachine.advance, h.program_eq, h.ip_eq]
    split
    · exact ⟨rfl, h⟩
    · exact ⟨rfl, rfl, h.callDepth_eq, rfl, h.store, h.console_eq⟩

/-- A step of a whole machine ends like the step of the plain one, and holds it after that, too. -/
theorem step (h : m.Holds p) (hf : m.Fits) :
    m.step.result = p.step.1 ∧ m.step.machine.Holds p.step.2 := by
  have hfetch := h.fetch
  obtain ⟨fault, hd, hs⟩ | ⟨d, fault, c, hd, hp, hs⟩ | ⟨d, flow, q, store, c, hd, hp, -, hq, hs⟩ :=
    step_cases h.store hf
  · rw [hd] at hfetch
    simp only [PlainMachine.step, ← hfetch, hs]
    exact ⟨trivial, h⟩
  · rw [hd] at hfetch
    rw [h.callDepth_eq, h.console_eq] at hp
    simp only [PlainMachine.step, ← hfetch, hp, PlainMachine.settle, hs]
    exact ⟨trivial, h.program_eq, h.callDepth_eq, h.ip_eq, h.store, rfl⟩
  · rw [hd] at hfetch
    rw [h.callDepth_eq, h.console_eq] at hp
    have hafter : ({ m with store, console := c } : Machine).Holds
        { p with store := q, console := c } :=
      ⟨h.program_eq, h.callDepth_eq, h.ip_eq, hq, rfl⟩
    simp only [PlainMachine.step, ← hfetch, hp, PlainMachine.settle, hs]
    exact hafter.advance (target? d flow)

theorem after (h : m.Holds p) {count : Nat} (hf : m.FitsFor count) :
    (m.after count).Holds (p.after count) := by
  induction count with
  | zero => exact h
  | succ count ih =>
    exact ((ih (hf.of_le (Nat.le_succ count))).step (hf count (Nat.le_succ count))).2

end Machine.Holds

namespace Machine

theorem after_add (m : Machine) (i j : Nat) : m.after (i + j) = (m.after i).after j := by
  induction j with
  | zero => rfl
  | succ j ih =>
    rw [← Nat.add_assoc, after, ih]
    rfl

theorem FitsFor.of_add {m : Machine} {i j : Nat} (h : m.FitsFor (i + j)) :
    (m.after i).FitsFor j := by
  intro k hk
  rw [← after_add]
  exact h (i + k) (Nat.add_le_add_left hk i)

/-- What a new machine holds: two empty stacks, and cells and a screen of its own. -/
theorem holds_of_start {program : Program} {sizes : Sizes} {console : Console} {m : Machine}
    (h : start program sizes console = .ok m) :
    ∃ memory registers screen, zeroCells "memory" sizes.memory = .ok memory ∧
      Registers.make sizes.registers = .ok registers ∧
      Screen.make sizes.screenWidth sizes.screenHeight = .ok screen ∧
      m.Holds ⟨program, sizes.callDepth, program.entry,
        ⟨[], [], ⟨registers, seed memory (environment sizes)⟩, screen⟩, console⟩ := by
  obtain ⟨hdata, hcalls, memory, registers, screen, hmemory, hregisters, hscreen, rfl⟩ := start_eq h
  exact ⟨memory, registers, screen, hmemory, hregisters, hscreen, rfl, rfl, rfl,
    ⟨.empty _ (slots_lt hdata), .empty _ (slots_lt hcalls), rfl, rfl⟩, rfl⟩

end Machine

end StackMachine
