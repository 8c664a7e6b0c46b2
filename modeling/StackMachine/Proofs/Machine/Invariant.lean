import StackMachine.Proofs.Coded
import StackMachine.Proofs.Machine.Atomic
import StackMachine.Proofs.Machine.Flow
import StackMachine.Proofs.Machine.Writes

namespace StackMachine

/-- A word can be on the call stack: it is behind a call that stands in the program. -/
def Program.Returns (program : Program) (word : Int64) : Prop :=
  ((Program.headerSize + Instruction.call.size : Nat) : Int) ≤ word.toInt ∧
    word.toInt ≤ program.size

/-- A machine can stand at an offset: it is in the body, or at the start of an empty one. -/
def Program.Stands (program : Program) (offset : Nat) : Prop :=
  Program.headerSize ≤ offset ∧
    (offset < program.size ∨ offset = Program.headerSize ∧ program.isEmpty = true)

/-- What holds of a machine for a program and sizes at all times. -/
structure Machine.InOrder (m : Machine) (program : Program) (sizes : Sizes) : Prop where
  data_status : m.store.data.status = []
  calls_status : m.store.calls.status = []
  /-- Each operand is a word of 32 bits with its sign extended. -/
  data : ∀ word ∈ m.store.data.toList, word.toInt32.toInt64 = word ∧ word ≠ GuardedStack.poison
  calls : ∀ word ∈ m.store.calls.toList, program.Returns word
  depth_le : m.store.calls.size.toNat ≤ sizes.callDepth
  stands : program.Stands m.ip
  sizes_eq : sizes.Match m.store.cells m.store.screen

/-- The same of a plain store. -/
structure PlainStore.InOrder (p : PlainStore) (program : Program) (sizes : Sizes) : Prop where
  calls : ∀ word ∈ p.calls, program.Returns word
  depth_le : p.calls.length ≤ sizes.callDepth
  sizes_eq : sizes.Match p.cells p.screen

/-- No value has the bits of poison. -/
theorem toInt64_ne_poison (value : Int32) : value.toInt64 ≠ GuardedStack.poison := by
  intro h
  have hlow := value.le_toInt
  have hint := congrArg Int64.toInt h
  rw [Int32.toInt_toInt64] at hint
  have hpoison : GuardedStack.poison.toInt < -2 ^ 31 := by decide
  omega

theorem Program.isEmpty_iff (program : Program) :
    program.isEmpty = true ↔ program.size ≤ headerSize := by
  simp [isEmpty]

namespace PlainStore.InOrder

variable {p q : PlainStore} {program : Program} {sizes : Sizes} {d : Decoded} {flow : Flow}

/-- A call that is carried out is not too deep. -/
theorem lt_of_call {callDepth : Nat} {c c' : Console} (hi : d.instruction = .call)
    (h : p.execute callDepth d c = (.ok (flow, q), c')) : p.calls.length < callDepth := by
  simp only [execute, effect, printed?, hi, reduceCtorEq, ↓reduceIte, call, Prod.mk.injEq] at h
  replace h := h.1
  cases hd : Store.distance d d.payload with
  | error fault => simp [hd, bind, Except.bind] at h
  | ok distance =>
    simp only [hd, bind, Except.bind] at h
    split at h
    · cases h
    · rename_i hle
      exact Nat.lt_of_not_le hle

/-- An instruction that is carried out within a program keeps a plain store in order. -/
theorem of_execute {c c' : Console} {offset : Nat} (hp : p.InOrder program sizes)
    (hsize : program.size < 2 ^ 63) (hoffset : Program.headerSize ≤ offset)
    (hread : Decoded.read program.bytes offset = .ok d)
    (h : p.execute sizes.callDepth d c = (.ok (flow, q), c')) : q.InOrder program sizes := by
  obtain ⟨coded, -, hd, -⟩ := Coded.of_read hread
  obtain ⟨-, hnext⟩ := Decoded.lt_next_of_read hread
  have hgoes := goes_of_execute h
  have hcalls : (∀ word ∈ q.calls, program.Returns word) ∧ q.calls.length ≤ sizes.callDepth := by
    generalize q.calls = calls at hgoes ⊢
    cases hgoes with
    | next | jump | halt => exact ⟨hp.calls, hp.depth_le⟩
    | back target rest hr hcalls =>
      have hold := hp.calls
      have hdepth := hp.depth_le
      rw [hcalls] at hold hdepth
      exact ⟨(List.forall_mem_cons.mp hold).2, Nat.le_of_succ_le hdepth⟩
    | call hc =>
      have hbehind : d.next = offset + Instruction.call.size := by
        rw [← hc, hd]
        rfl
      have hword : (Int64.ofNat d.next).toInt = d.next := by
        exact Int64.toInt_ofNat_of_lt (Nat.lt_of_le_of_lt hnext hsize)
      have hnew : program.Returns (Int64.ofNat d.next) := by
        have hle : d.next ≤ program.size := hnext
        exact ⟨by omega, by omega⟩
      exact ⟨List.forall_mem_cons.mpr ⟨hnew, hp.calls⟩, lt_of_call hc h⟩
  exact ⟨hcalls.1, hcalls.2, hp.sizes_eq.of_writes (writes_of_execute h)⟩

end PlainStore.InOrder

/-- A machine is in order if what its stacks hold is. -/
theorem Machine.inOrder_of_holds {m : Machine} {p : PlainStore} {program : Program} {sizes : Sizes}
    (h : m.store.Holds p) (hp : p.InOrder program sizes) (hs : program.Stands m.ip) :
    m.InOrder program sizes := by
  refine ⟨h.data.status, h.calls.status, ?_, ?_, ?_, hs, ?_⟩
  · intro word hw
    rw [h.data.toList, List.mem_reverse] at hw
    obtain ⟨value, -, rfl⟩ := List.mem_map.mp hw
    exact ⟨by rw [Int32.toInt32_toInt64], toInt64_ne_poison value⟩
  · intro word hw
    rw [h.calls.toList, List.mem_reverse] at hw
    exact hp.calls word hw
  · rw [h.calls.size_eq]
    exact hp.depth_le
  · rw [h.cells, h.screen]
    exact hp.sizes_eq

theorem eq_replicate_of_zeroCells {purpose : String} {count : Nat} {cells : Array Int32}
    (h : zeroCells purpose count = .ok cells) : cells = Array.replicate count 0 := by
  unfold zeroCells at h
  split at h
  · cases h
    rfl
  · cases h

theorem Screen.eq_of_make {width height : Nat} {screen : Screen}
    (h : Screen.make width height = .ok screen) :
    screen = ⟨width, Array.replicate (width * height) 0⟩ := by
  unfold Screen.make at h
  split at h
  · cases h
  · rename_i count hcount
    have hproduct : count = width * height := by
      unfold Sizes.screenCells at hcount
      split at hcount
      · exact (Option.some.inj hcount).symm
      · cases hcount
    cases hz : zeroCells "video" count with
    | error fault => simp [hz, bind, Except.bind] at h
    | ok cells =>
      simp only [hz, bind, Except.bind, Except.ok.injEq] at h
      rw [← h, eq_replicate_of_zeroCells hz, hproduct]

namespace Machine

/-- The environment takes no cells of its own. -/
theorem size_seed (memory : Array Int32) (values : List Nat) :
    (seed memory values).size = memory.size := by
  unfold seed
  induction values.zipIdx generalizing memory with
  | nil => rfl
  | cons value rest ih =>
    rw [List.foldl_cons, ih]
    exact Array.size_setIfInBounds

variable {program : Program} {sizes : Sizes} {console : Console} {m m₀ : Machine}

/-- All parts of a new machine are as large as was asked for. -/
theorem match_of_start (h : start program sizes console = .ok m) :
    sizes.Match m.store.cells m.store.screen := by
  obtain ⟨-, -, memory, registers, screen, hmemory, hregisters, hscreen, rfl⟩ := start_eq h
  rw [eq_replicate_of_zeroCells hregisters, eq_replicate_of_zeroCells hmemory,
    Screen.eq_of_make hscreen]
  refine ⟨Array.size_replicate, ?_, rfl, Array.size_replicate⟩
  simp only [size_seed, Array.size_replicate]

/-- What is in order with a machine and the plain store that it holds. -/
structure Runs (m : Machine) (program : Program) (sizes : Sizes) (p : PlainStore) : Prop where
  program_eq : m.program = program
  callDepth_eq : m.callDepth = sizes.callDepth
  holds : m.store.Holds p
  inOrder : p.InOrder program sizes
  stands : program.Stands m.ip

theorem runs_of_start (h : start program sizes console = .ok m) :
    ∃ p, m.Runs program sizes p := by
  obtain ⟨hprogram, hdepth, hip, -, p, hold, hdata, hcalls⟩ := start_holds h
  have hmatch := match_of_start h
  rw [hold.cells, hold.screen] at hmatch
  refine ⟨p, hprogram, hdepth, hold, ⟨?_, ?_, hmatch⟩, ?_⟩
  · rw [hcalls]
    nofun
  · rw [hcalls]
    exact Nat.zero_le _
  · rw [hip]
    refine ⟨Nat.le_refl _, ?_⟩
    by_cases hempty : program.isEmpty = true
    · exact .inr ⟨rfl, hempty⟩
    · rw [program.isEmpty_iff] at hempty
      exact .inl (Nat.lt_of_not_le hempty)

/-- A step keeps a machine in order, and its fault, if there is one, comes from fetching the
instruction, from carrying it out, or from leaving the program after that. -/
theorem Runs.step {p : PlainStore} (h : m.Runs program sizes p) (hf : m.Fits)
    (hsize : program.size < 2 ^ 63) :
    (∃ q, m.step.machine.Runs program sizes q) ∧
      ∀ fault, m.step.result = .error fault →
        fault.OfFetch ∨ (∃ d : Decoded, d.Raises fault) ∨
          ∃ target source, fault = .targetOutside target source := by
  obtain ⟨fault, hd, hs⟩ | ⟨d, fault, c, hd, hp, hs⟩ | ⟨d, flow, q, store, c, hd, hp, -, hq, hs⟩ :=
    step_cases h.holds hf
  · rw [hs]
    refine ⟨⟨p, h⟩, ?_⟩
    intro fault' he
    cases he
    exact .inl (m.ofFetch_fetch fault hd)
  · rw [hs]
    refine ⟨⟨p, h.program_eq, h.callDepth_eq, h.holds, h.inOrder, h.stands⟩, ?_⟩
    intro fault' he
    cases he
    exact .inr (.inl ⟨d, (PlainStore.shows_of_execute hp).1⟩)
  · obtain ⟨hread, -⟩ := read_of_fetch hd
    rw [h.program_eq] at hread
    rw [h.callDepth_eq] at hp
    have hq' := h.inOrder.of_execute hsize h.stands.1 hread hp
    -- Whether or not the target can be gone to, the new store is kept.
    have hkept : ({ m with store, console := c } : Machine).Runs program sizes q :=
      ⟨h.program_eq, h.callDepth_eq, hq, hq', h.stands⟩
    obtain ⟨-, ha⟩ | ⟨t, -, -, ha⟩ | ⟨t, -, hlow, hhigh, ha⟩ :=
      advance_cases { m with store, console := c } (target? d flow)
    · rw [ha] at hs
      rw [hs]
      exact ⟨⟨q, hkept⟩, nofun⟩
    · rw [ha] at hs
      rw [hs]
      refine ⟨⟨q, hkept⟩, ?_⟩
      intro fault he
      cases he
      exact .inr (.inr ⟨t, m.ip, rfl⟩)
    · rw [ha] at hs
      rw [hs]
      have hin : t < program.size := by
        rw [← h.program_eq]
        exact hhigh
      have hstands : program.Stands t.toNat := ⟨by omega, .inl (by omega)⟩
      exact ⟨⟨q, h.program_eq, h.callDepth_eq, hq, hq', hstands⟩, nofun⟩

/-- The same after any number of steps. -/
theorem runs_of_after (hs : start program sizes console = .ok m₀) (hsize : program.size < 2 ^ 63)
    {count : Nat} (hf : m₀.FitsFor count) : ∃ p, (m₀.after count).Runs program sizes p := by
  induction count with
  | zero => exact runs_of_start hs
  | succ count ih =>
    obtain ⟨p, h⟩ := ih (hf.of_le (Nat.le_succ count))
    exact (h.step (hf count (Nat.le_succ count)) hsize).1

/-- However a machine got where it is, it is in order, whatever the bytes of its program are; like
all bytes in a memory they are counted by a signed number of 64 bits. The next step does not report
a damaged stack or an operand that names no cell. -/
theorem reached_machine_in_order (hs : start program sizes console = .ok m₀)
    (hsize : program.size < 2 ^ 63) {count : Nat} (hf : m₀.FitsFor count) :
    (m₀.after count).InOrder program sizes ∧
      ∀ fault, (m₀.after count).step.result = .error fault →
        (∀ role findings, fault ≠ .stackDamaged role findings) ∧
          ∀ value, fault ≠ .notACell value := by
  obtain ⟨p, h⟩ := runs_of_after hs hsize hf
  refine ⟨inOrder_of_holds h.holds h.inOrder h.stands, ?_⟩
  intro fault he
  obtain ⟨-, hfault⟩ := h.step (hf count (Nat.le_refl count)) hsize
  rcases hfault fault he with hfetch | ⟨d, hraises⟩ | ⟨target, source, rfl⟩
  · constructor
    · rintro role findings rfl
      exact hfetch
    · rintro value rfl
      exact hfetch
  · constructor
    · rintro role findings rfl
      exact hraises
    · rintro value rfl
      exact hraises
  · exact ⟨fun _ _ => nofun, fun _ => nofun⟩

/-- A call into the middle of an instruction keeps a machine in order, too. -/
theorem reached_machine_in_order_call :
    ∃ m₀, start (.ofBody #[64, 1, 0, 0, 0, 8, 68]) ⟨1, 1, 1, 1, 0, 0, 1⟩
        ⟨⟨[], false⟩, ⟨#[], none, false⟩⟩ = .ok m₀ ∧ m₀.FitsFor 1 ∧
      (Program.ofBody #[64, 1, 0, 0, 0, 8, 68]).size < 2 ^ 63 ∧
      (m₀.after 1).ip = 22 ∧ (m₀.after 1).store.calls.toList = [21] ∧
      (m₀.after 1).InOrder (.ofBody #[64, 1, 0, 0, 0, 8, 68]) ⟨1, 1, 1, 1, 0, 0, 1⟩ := by
  have hrun {m₀ : Machine} (hs : start (.ofBody #[64, 1, 0, 0, 0, 8, 68])
      ⟨1, 1, 1, 1, 0, 0, 1⟩ ⟨⟨[], false⟩, ⟨#[], none, false⟩⟩ = .ok m₀) :
      m₀.FitsFor 1 ∧
        (m₀.after 1).InOrder (.ofBody #[64, 1, 0, 0, 0, 8, 68]) ⟨1, 1, 1, 1, 0, 0, 1⟩ := by
    have hf : m₀.FitsFor 1 := fitsFor_of_start hs (by decide)
    exact ⟨hf, (reached_machine_in_order hs (by decide) hf).1⟩
  have hran := hrun rfl
  exact ⟨_, rfl, hran.1, by decide, by decide +kernel, by decide +kernel, hran.2⟩

end Machine

end StackMachine
