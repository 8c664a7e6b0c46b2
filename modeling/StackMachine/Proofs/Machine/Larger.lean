import StackMachine.Proofs.Machine.Atomic
import StackMachine.Proofs.Machine.Extension
import StackMachine.Proofs.Machine.Invariant

namespace StackMachine

/-- Nothing but the operands and the registers tells one machine from the other. -/
structure Machine.Resembles (n m : Machine) : Prop where
  ip_eq : n.ip = m.ip
  calls_eq : n.store.calls.toList = m.store.calls.toList
  depth_eq : n.store.calls.size = m.store.calls.size
  memory_eq : n.store.cells.memory = m.store.cells.memory
  screen_eq : n.store.screen = m.store.screen
  console_eq : n.console = m.console

namespace Extension

variable {e : Extension} {m n : Machine} {p : PlainMachine}

theorem resembles (hm : m.Holds p) (hn : n.Holds (e.machine p)) :
    n.Resembles m ∧ n.store.cells.registers = e.file m.store.cells.registers ∧
      n.store.data.toList = (e.beneath.map Int32.toInt64).reverse ++ m.store.data.toList := by
  refine ⟨⟨?_, ?_, ?_, ?_, ?_, ?_⟩, ?_, ?_⟩
  · rw [hn.ip_eq, hm.ip_eq]
    rfl
  · rw [hn.store.calls.toList, hm.store.calls.toList]
    rfl
  · apply UInt64.toNat_inj.mp
    rw [hn.store.calls.size_eq, hm.store.calls.size_eq]
    rfl
  · rw [hn.store.cells, hm.store.cells]
    rfl
  · rw [hn.store.screen, hm.store.screen]
    rfl
  · rw [hn.console_eq, hm.console_eq]
    rfl
  · rw [hn.store.cells, hm.store.cells]
    rfl
  · rw [hn.store.data.toList, hm.store.data.toList]
    simp [machine, store]

/-- Machines that hold a plain machine and the larger one take their steps alike. -/
theorem steps_alike (hm : m.Holds p) (hn : n.Holds (e.machine p)) {count : Nat}
    (hfm : m.FitsFor count) (hfn : n.FitsFor count)
    (hl : ∀ k < count, e.Leaves (m.after k).step.result) :
    (∀ k < count, (n.after k).step.result = (m.after k).step.result) ∧
      ∀ k ≤ count, ∃ q, (m.after k).Holds q ∧ (n.after k).Holds (e.machine q) := by
  have hstep {k : Nat} (hk : k < count) : (m.after k).step.result = (p.after k).step.1 :=
    ((hm.after (hfm.of_le hk.le)).step (hfm k hk.le)).1
  have hplain : ∀ k < count, e.Leaves (p.after k).step.1 := by
    intro k hk
    rw [← hstep hk]
    exact hl k hk
  have hafter {k : Nat} (hk : k ≤ count) : (n.after k).Holds (e.machine (p.after k)) := by
    rw [← after_machine fun i hi => hplain i (Nat.lt_of_lt_of_le hi hk)]
    exact hn.after (hfn.of_le hk)
  refine ⟨?_, fun k hk => ⟨p.after k, hm.after (hfm.of_le hk), hafter hk⟩⟩
  intro k hk
  obtain ⟨hresult, -⟩ := (hafter hk.le).step (hfn k hk.le)
  rw [hresult, hstep hk, step_machine (hplain k hk)]

end Extension

/-- The fault is that there are too few operands. -/
def Fault.IsUnderflow (fault : Fault) : Prop :=
  ∃ instruction offset, fault = .stackUnderflow instruction offset

namespace PlainMachine

variable {m : PlainMachine} {d : Decoded}

/-- Carrying out an instruction whose inputs are there does not run out of operands. -/
theorem not_underflow_execute (hin : d.instruction.inputs ≤ m.store.data.length) :
    FailsWith (fun fault => ¬ fault.IsUnderflow) (m.store.execute m.callDepth d m.console).1 := by
  rintro fault he ⟨instruction, offset, hu⟩
  have hexecute : m.store.execute m.callDepth d m.console =
      (.error fault, (m.store.execute m.callDepth d m.console).2) := Prod.ext he rfl
  exact (PlainStore.failsBy_execute hexecute).1.supplied hin instruction offset hu

theorem not_underflow_settle (hin : d.instruction.inputs ≤ m.store.data.length) :
    FailsWith (fun fault => ¬ fault.IsUnderflow)
      (m.settle d (m.store.execute m.callDepth d m.console)).1 := by
  have hexecute := not_underflow_execute hin
  match he : m.store.execute m.callDepth d m.console with
  | (.error fault, c) =>
    rw [he] at hexecute
    exact .error (hexecute fault rfl)
  | (.ok (flow, q), c) =>
    simp only [settle, advance]
    split
    · exact .ok _
    · split
      · exact .error (by rintro ⟨_, _, hu⟩; cases hu)
      · exact .ok _

theorem fetch_underflow_iff (m : PlainMachine) (instruction : Instruction) (offset : Nat) :
    m.fetch = .error (.stackUnderflow instruction offset) ↔
      ∃ opening c, Opening.read ⟨m.program.bytes, m.ip⟩ = .ok (opening, c) ∧
        m.store.data.length < opening.instruction.inputs ∧
        opening.instruction = instruction ∧ m.ip = offset := by
  unfold fetch
  cases ho : Opening.read ⟨m.program.bytes, m.ip⟩ with
  | error fault =>
    constructor
    · intro hu
      cases hu
      exact (Opening.ofDecoding_read _ _ ho).elim
    · rintro ⟨_, _, hr, -⟩
      cases hr
  | ok r =>
    obtain ⟨opening, c⟩ := r
    simp only [bind, Except.bind]
    by_cases hless : m.store.data.length < opening.instruction.inputs
    · rw [if_pos hless]
      constructor
      · intro hu
        cases hu
        exact ⟨opening, c, rfl, hless, rfl, rfl⟩
      · rintro ⟨_, _, ⟨⟩, -, rfl, rfl⟩
        rfl
    · rw [if_neg hless]
      constructor
      · intro hu
        exact (opening.ofDecoding_finish _ _ _ hu).elim
      · rintro ⟨_, _, ⟨⟩, hin, -⟩
        exact absurd hin hless

/-- A step runs out of operands where the first byte of an instruction stands that asks for more of
them, and nowhere else. -/
theorem step_underflow_iff (m : PlainMachine) (instruction : Instruction) (offset : Nat) :
    m.step.1 = .error (.stackUnderflow instruction offset) ↔
      ∃ opening c, Opening.read ⟨m.program.bytes, m.ip⟩ = .ok (opening, c) ∧
        m.store.data.length < opening.instruction.inputs ∧
        opening.instruction = instruction ∧ m.ip = offset := by
  rw [← fetch_underflow_iff]
  unfold step
  cases hd : m.fetch with
  | error fault =>
    constructor
    · intro hu
      cases hu
      rfl
    · intro hu
      cases hu
      rfl
  | ok d =>
    constructor
    · intro hu
      exact (not_underflow_settle (m.inputs_le_of_fetch hd) _ hu ⟨_, _, rfl⟩).elim
    · nofun

end PlainMachine

namespace Extension

theorem file_zero (beneath : List Int32) (calls : Nat) (r : Registers) :
    file ⟨beneath, 0, calls⟩ r = r := by
  simp [file]

/-- Values beneath matter only to a machine that runs out of operands. -/
theorem leaves_of_not_underflow {α : Type} (beneath : List Int32) {result : Except Fault α}
    (h : FailsWith (fun fault => ¬ fault.IsUnderflow) result) : Leaves ⟨beneath, 0, 0⟩ result := by
  intro fault hr hs
  have hf := h fault hr
  cases fault with
  | stackUnderflow instruction offset => exact hf ⟨instruction, offset, rfl⟩
  | noRegister index available => exact hs rfl
  | callsTooDeep offset depth => exact hs rfl
  | _ => exact hs

end Extension

namespace Machine

/-- The machine with another data stack. -/
def withData (m : Machine) (data : GuardedStack) : Machine :=
  { m with store := { m.store with data } }

/-- A whole machine, too, does not run out of operands while it carries out an instruction that it
fetched. -/
theorem Holds.not_underflow_execute {m : Machine} {p : PlainMachine} (h : m.Holds p) (hf : m.Fits)
    {d : Decoded} (hd : m.fetch = .ok d) :
    FailsWith (fun fault => ¬ fault.IsUnderflow)
      (execute m.callDepth d m.store m.console).result := by
  rw [h.fetch] at hd
  have hin := p.inputs_le_of_fetch hd
  have hplain := PlainMachine.not_underflow_execute hin
  have hdata := h.store.data.room hf.1
  rw [List.length_map] at hdata
  have hagrees :=
    execute_agrees h.store hin hdata (h.store.calls.room hf.2) p.callDepth p.console
  rw [h.callDepth_eq, h.console_eq]
  match he : p.store.execute p.callDepth d p.console with
  | (.error fault, c) =>
    rw [he] at hagrees hplain
    have hfail : execute p.callDepth d m.store p.console = ⟨.error fault, m.store, c⟩ := hagrees
    rw [hfail]
    exact .error (hplain fault rfl)
  | (.ok (flow, q), c) =>
    rw [he] at hagrees
    obtain ⟨t, ht, -⟩ := hagrees
    rw [ht]
    exact .ok flow

/-- A data stack with values beneath makes a larger machine. -/
theorem Holds.beneath {m : Machine} {p : PlainMachine} (h : m.Holds p) {extra : List Int32}
    {deeper : GuardedStack}
    (hd : deeper.Holds (extra.map Int32.toInt64 ++ m.store.data.toList).reverse) :
    (m.withData deeper).Holds (Extension.machine ⟨extra.reverse, 0, 0⟩ p) := by
  have hwords : (extra.map Int32.toInt64 ++ m.store.data.toList).reverse =
      (p.store.data ++ extra.reverse).map Int32.toInt64 := by
    rw [h.store.data.toList]
    simp
  rw [hwords] at hd
  refine ⟨h.program_eq, h.callDepth_eq, h.ip_eq, ⟨hd, h.store.calls, ?_, h.store.screen⟩,
    h.console_eq⟩
  simp only [Extension.machine, Extension.store, Extension.cells, Extension.file_zero]
  exact h.store.cells

variable {program : Program} {sizes : Sizes} {console : Console} {m₀ n₀ : Machine}

/-- However a machine got where it is, values beneath its operands stay there, and the machine does
the same with them as without them, until it runs out of operands. It does so only where the first
byte of an instruction stands that asks for more operands than there are: no instruction finds out
while it is carried out. -/
theorem values_beneath_stay (hs : start program sizes console = .ok m₀) {count steps : Nat}
    (hf : m₀.FitsFor (count + steps)) :
    let m := m₀.after count
    (∀ (extra : List Int32) (deeper : GuardedStack),
      deeper.Holds (extra.map Int32.toInt64 ++ m.store.data.toList).reverse →
      let n := m.withData deeper
      n.FitsFor steps →
      (∀ k < steps, ∀ fault, (m.after k).step.result = .error fault → ¬ fault.IsUnderflow) →
        (∀ k < steps, (n.after k).step.result = (m.after k).step.result) ∧
          ∀ k ≤ steps, (n.after k).Resembles (m.after k) ∧
            (n.after k).store.cells.registers = (m.after k).store.cells.registers ∧
            (n.after k).store.data.toList =
              extra.map Int32.toInt64 ++ (m.after k).store.data.toList) ∧
      (∀ instruction offset, m.step.result = .error (.stackUnderflow instruction offset) ↔
        ∃ opening c, Opening.read ⟨program.bytes, m.ip⟩ = .ok (opening, c) ∧
          m.store.data.toList.length < opening.instruction.inputs ∧
          opening.instruction = instruction ∧ m.ip = offset) ∧
      ∀ d, m.fetch = .ok d → ∀ fault,
        (execute m.callDepth d m.store m.console).result = .error fault → ¬ fault.IsUnderflow := by
  intro m
  obtain ⟨_, _, _, -, -, -, hold₀⟩ := holds_of_start hs
  have hm := hold₀.after (hf.of_le (Nat.le_add_right count steps))
  have hfits : m.Fits := hf count (Nat.le_add_right count steps)
  have hprogram : m.program = program := by
    obtain ⟨hsame, -⟩ := after_holds hold₀.store (hf.of_le (Nat.le_add_right count steps))
    exact hsame.trans hold₀.program_eq
  refine ⟨?_, ?_, ?_⟩
  · intro extra deeper hdeeper n hfn hsupplied
    have hn := hm.beneath hdeeper
    have hleaves : ∀ k < steps, Extension.Leaves ⟨extra.reverse, 0, 0⟩ (m.after k).step.result :=
      fun k hk => Extension.leaves_of_not_underflow _ (hsupplied k hk)
    obtain ⟨hresults, hafter⟩ := Extension.steps_alike hm hn hf.of_add hfn hleaves
    refine ⟨hresults, fun k hk => ?_⟩
    obtain ⟨q, hmk, hnk⟩ := hafter k hk
    obtain ⟨hlike, hregisters, hdata⟩ := Extension.resembles hmk hnk
    rw [Extension.file_zero] at hregisters
    exact ⟨hlike, hregisters, by simpa using hdata⟩
  · intro instruction offset
    rw [(hm.step hfits).1, PlainMachine.step_underflow_iff, ← hm.program_eq, hprogram, ← hm.ip_eq,
      hm.store.data.toList, List.length_reverse, List.length_map]
  · intro d hd
    exact hm.not_underflow_execute hfits hd

/-- A seven beneath a five is still there after the five was duplicated, in a stack that has more
slots. -/
theorem values_beneath_stay_dup :
    ∃ (m₀ : Machine) (deeper : GuardedStack),
      start (.ofBody #[8, 5, 0, 0, 0, 16, 0]) ⟨1, 1, 1, 1, 0, 0, 1⟩
        ⟨⟨[], false⟩, ⟨#[], none, false⟩⟩ = .ok m₀ ∧ m₀.FitsFor (1 + 1) ∧
      let m := m₀.after 1
      let n := m.withData deeper
      deeper.Holds (([7] : List Int32).map Int32.toInt64 ++ m.store.data.toList).reverse ∧
        n.FitsFor 1 ∧ (m.after 0).step.result = .ok (.shift 1) ∧
        (m.after 1).store.data.toList = [5, 5] ∧
        (n.after 0).step.result = .ok (.shift 1) ∧ (n.after 1).store.data.toList = [7, 5, 5] := by
  let deeper : GuardedStack :=
    .rehash ⟨GuardedStack.guardWord, GuardedStack.fill #[7, 5] 3, 2, 5, 0, GuardedStack.guardWord⟩
  obtain ⟨m₀, hs, hone, hn, hresult, htwo⟩ : ∃ m₀ : Machine,
      start (.ofBody #[8, 5, 0, 0, 0, 16, 0]) ⟨1, 1, 1, 1, 0, 0, 1⟩
        ⟨⟨[], false⟩, ⟨#[], none, false⟩⟩ = .ok m₀ ∧ (m₀.after 1).store.data.toList = [5] ∧
      ((m₀.after 1).withData deeper).FitsFor 1 ∧
      ((m₀.after 1).after 0).step.result = .ok (.shift 1) ∧
      ((m₀.after 1).after 1).store.data.toList = [5, 5] :=
    ⟨_, rfl, by decide +kernel, by decide +kernel, by decide +kernel, by decide +kernel⟩
  have hf : m₀.FitsFor (1 + 1) := fitsFor_of_start hs (by decide)
  have hd : deeper.Holds
      (([7] : List Int32).map Int32.toInt64 ++ (m₀.after 1).store.data.toList).reverse := by
    rw [hone]
    exact GuardedStack.Arranged.rehash ⟨rfl, rfl, rfl, by decide, by decide, rfl⟩
  have hsupplied : ∀ k < 1, ∀ fault, ((m₀.after 1).after k).step.result = .error fault →
      ¬ fault.IsUnderflow := by
    intro k hk fault he
    rw [Nat.lt_one_iff.mp hk, hresult] at he
    cases he
  obtain ⟨hresults, hafter⟩ := (values_beneath_stay hs hf).1 [7] deeper hd hn hsupplied
  obtain ⟨-, -, hwords⟩ := hafter 1 (Nat.le_refl 1)
  rw [htwo] at hwords
  exact ⟨m₀, deeper, hs, hf, hd, hn, hresult, htwo, (hresults 0 Nat.zero_lt_one).trans hresult,
    hwords⟩

/-- A new machine with more registers and more calls is a larger one, whatever slots its stacks
start with. -/
theorem holds_of_larger {larger : Sizes} (hs : start program sizes console = .ok m₀)
    (hl : start program larger console = .ok n₀) (hmemory : larger.memory = sizes.memory)
    (hwidth : larger.screenWidth = sizes.screenWidth)
    (hheight : larger.screenHeight = sizes.screenHeight)
    (hregisters : sizes.registers ≤ larger.registers)
    (hdepth : sizes.callDepth ≤ larger.callDepth) :
    ∃ p, m₀.Holds p ∧ n₀.Holds (Extension.machine
      ⟨[], larger.registers - sizes.registers, larger.callDepth - sizes.callDepth⟩ p) := by
  obtain ⟨memory, registers, screen, hmem, hreg, hscr, hm⟩ := holds_of_start hs
  obtain ⟨memory', registers', screen', hmem', hreg', hscr', hn⟩ := holds_of_start hl
  have hsameMemory : memory' = memory := by
    rw [eq_replicate_of_zeroCells hmem, eq_replicate_of_zeroCells hmem', hmemory]
  have hsameScreen : screen' = screen := by
    rw [hwidth, hheight, hscr] at hscr'
    exact (Except.ok.inj hscr').symm
  have hfile :
      registers' = registers ++ Array.replicate (larger.registers - sizes.registers) 0 := by
    rw [eq_replicate_of_zeroCells hreg, eq_replicate_of_zeroCells hreg',
      Array.replicate_append_replicate, Nat.add_sub_cancel' hregisters]
  have henvironment : environment larger = environment sizes := by
    simp only [environment, hmemory, hwidth, hheight]
  refine ⟨_, hm, ?_⟩
  rw [hsameMemory, hsameScreen, hfile, henvironment] at hn
  simp only [Extension.machine, Extension.store, Extension.cells, Extension.file,
    Nat.add_sub_cancel' hdepth]
  exact hn

/-- A machine with more registers and more calls, and with stacks that start with any number of
slots, does the same as a smaller one, until that one asks for a register that it does not have or
for one call too many. The registers that it has more of stay zero. -/
theorem larger_machine_runs_alike {larger : Sizes} (hs : start program sizes console = .ok m₀)
    (hl : start program larger console = .ok n₀) (hmemory : larger.memory = sizes.memory)
    (hwidth : larger.screenWidth = sizes.screenWidth)
    (hheight : larger.screenHeight = sizes.screenHeight)
    (hregisters : sizes.registers ≤ larger.registers)
    (hdepth : sizes.callDepth ≤ larger.callDepth) {count : Nat} (hf : m₀.FitsFor count)
    (hfl : n₀.FitsFor count)
    (hsteps : ∀ k < count, ∀ fault, (m₀.after k).step.result = .error fault →
      (∀ index available, fault ≠ .noRegister index available) ∧
        ∀ offset depth, fault ≠ .callsTooDeep offset depth) :
    (∀ k < count, (n₀.after k).step.result = (m₀.after k).step.result) ∧
      ∀ k ≤ count, (n₀.after k).Resembles (m₀.after k) ∧
        (n₀.after k).store.data.toList = (m₀.after k).store.data.toList ∧
        (n₀.after k).store.cells.registers = (m₀.after k).store.cells.registers ++
          Array.replicate (larger.registers - sizes.registers) 0 := by
  obtain ⟨p, hm, hn⟩ := holds_of_larger hs hl hmemory hwidth hheight hregisters hdepth
  have hleaves : ∀ k < count, Extension.Leaves
      ⟨[], larger.registers - sizes.registers, larger.callDepth - sizes.callDepth⟩
      (m₀.after k).step.result := by
    intro k hk fault hfault hsupplies
    obtain ⟨hregister, hcall⟩ := hsteps k hk fault hfault
    cases fault with
    | stackUnderflow instruction offset => exact hsupplies rfl
    | noRegister index available => exact hregister index available rfl
    | callsTooDeep offset depth => exact hcall offset depth rfl
    | _ => exact hsupplies
  obtain ⟨hresults, hafter⟩ := Extension.steps_alike hm hn hf hfl hleaves
  refine ⟨hresults, fun k hk => ?_⟩
  obtain ⟨q, hmk, hnk⟩ := hafter k hk
  obtain ⟨hlike, hfile, hdata⟩ := Extension.resembles hmk hnk
  exact ⟨hlike, by simpa using hdata, hfile⟩

/-- A value goes to a register, and a call is opened, with no register and no call to spare in the
smaller machine. -/
theorem larger_machine_runs_alike_call :
    ∃ m₀ n₀ : Machine,
      start (.ofBody #[8, 5, 0, 0, 0, 76, 0, 0, 0, 0, 64, 241, 255, 255, 255])
        ⟨1, 1, 1, 1, 0, 0, 1⟩ ⟨⟨[], false⟩, ⟨#[], none, false⟩⟩ = .ok m₀ ∧
      start (.ofBody #[8, 5, 0, 0, 0, 76, 0, 0, 0, 0, 64, 241, 255, 255, 255])
        ⟨3, 1, 1, 1, 2, 1, 2⟩ ⟨⟨[], false⟩, ⟨#[], none, false⟩⟩ = .ok n₀ ∧
      m₀.FitsFor 3 ∧ n₀.FitsFor 3 ∧
      (∀ k < 3, ∃ advance, (m₀.after k).step.result = .ok advance) ∧
      (m₀.after 3).store.cells.registers = #[5] ∧ (m₀.after 3).store.calls.toList = [31] ∧
      (n₀.after 3).store.cells.registers = #[5, 0, 0] ∧
      (n₀.after 3).store.calls.toList = [31] := by
  obtain ⟨m₀, hs, hpush, hset, hcall, hregisters, hcalls⟩ : ∃ m₀ : Machine,
      start (.ofBody #[8, 5, 0, 0, 0, 76, 0, 0, 0, 0, 64, 241, 255, 255, 255])
        ⟨1, 1, 1, 1, 0, 0, 1⟩ ⟨⟨[], false⟩, ⟨#[], none, false⟩⟩ = .ok m₀ ∧
      (m₀.after 0).step.result = .ok (.shift 5) ∧ (m₀.after 1).step.result = .ok (.shift 5) ∧
      (m₀.after 2).step.result = .ok (.shift (-10)) ∧
      (m₀.after 3).store.cells.registers = #[5] ∧ (m₀.after 3).store.calls.toList = [31] :=
    ⟨_, rfl, by decide +kernel, by decide +kernel, by decide +kernel, by decide +kernel,
      by decide +kernel⟩
  obtain ⟨n₀, hl⟩ : ∃ n₀, start (.ofBody #[8, 5, 0, 0, 0, 76, 0, 0, 0, 0, 64, 241, 255, 255, 255])
      ⟨3, 1, 1, 1, 2, 1, 2⟩ ⟨⟨[], false⟩, ⟨#[], none, false⟩⟩ = .ok n₀ := ⟨_, rfl⟩
  have hsteps : ∀ k < 3, ∃ advance, (m₀.after k).step.result = .ok advance
    | 0, _ => ⟨_, hpush⟩
    | 1, _ => ⟨_, hset⟩
    | 2, _ => ⟨_, hcall⟩
  have hfaults : ∀ k < 3, ∀ fault, (m₀.after k).step.result = .error fault →
      (∀ index available, fault ≠ .noRegister index available) ∧
        ∀ offset depth, fault ≠ .callsTooDeep offset depth := by
    intro k hk fault hfault
    obtain ⟨advance, hadvance⟩ := hsteps k hk
    rw [hadvance] at hfault
    cases hfault
  have hf : m₀.FitsFor 3 := fitsFor_of_start hs (by decide)
  have hfl : n₀.FitsFor 3 := fitsFor_of_start hl (by decide)
  obtain ⟨-, hafter⟩ := larger_machine_runs_alike hs hl rfl rfl rfl (by decide) (by decide) hf hfl
    hfaults
  obtain ⟨hlike, -, hmore⟩ := hafter 3 (Nat.le_refl 3)
  have hfile : (n₀.after 3).store.cells.registers = #[5, 0, 0] := by
    rw [hmore, hregisters]
    rfl
  exact ⟨m₀, n₀, hs, hl, hf, hfl, hsteps, hregisters, hcalls, hfile, hlike.calls_eq.trans hcalls⟩

end Machine

end StackMachine
