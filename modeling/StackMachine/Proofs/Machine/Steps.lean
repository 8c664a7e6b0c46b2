import StackMachine.Proofs.Machine.Agreement
import StackMachine.Proofs.Machine.Fetch

namespace StackMachine

/-- The buffer can be allocated: its bytes are counted by a signed number of 64 bits. -/
def GuardedStack.Fits (s : GuardedStack) : Prop :=
  s.buffer.size < 2 ^ 60

instance (s : GuardedStack) : Decidable s.Fits :=
  inferInstanceAs (Decidable (_ < _))

theorem GuardedStack.Arranged.room {s : GuardedStack} {words : List Int64}
    (h : s.Arranged words) (hf : s.Fits) : 2 * words.length + 3 < 2 ^ 62 := by
  have hle := h.size_le
  have hsize : s.capacity.toNat + 2 < 2 ^ 60 := h.buffer_size ▸ hf
  omega

/-- A stack with as many slots as sizes may ask for can be counted. -/
theorem slots_lt {n : Nat} (h : n ≤ Sizes.maxSlots) : (UInt64.ofNat n).toNat + 2 < 2 ^ 62 := by
  have hn : n ≤ 2 ^ 24 := h
  have hsize : n < 2 ^ 64 := by omega
  rw [UInt64.toNat_ofNat_of_lt' hsize]
  omega

namespace Sizes

theorem le_of_validate {s : Sizes} (h : s.validate = .ok ()) {quantity : String} {n limit : Nat}
    (hm : (quantity, some n, limit) ∈ s.limits) : n ≤ limit := by
  have hnone : s.excess? = none := by
    unfold validate at h
    split at h
    · cases h
    · assumption
  have hpass := List.findSome?_eq_none_iff.mp hnone _ hm
  by_contra hn
  simp [hn] at hpass

end Sizes

namespace Machine

/-- The stacks have buffers that can be allocated. -/
def Fits (m : Machine) : Prop :=
  m.store.data.Fits ∧ m.store.calls.Fits

instance (m : Machine) : Decidable m.Fits :=
  inferInstanceAs (Decidable (_ ∧ _))

/-- The machine after so many steps. -/
def after (m : Machine) : Nat → Machine
  | 0 => m
  | count + 1 => (m.after count).step.machine

/-- So many steps can be taken with buffers that can be allocated. -/
def FitsFor (m : Machine) (count : Nat) : Prop :=
  ∀ k ≤ count, (m.after k).Fits

instance (m : Machine) (count : Nat) : Decidable (m.FitsFor count) :=
  inferInstanceAs (Decidable (∀ k ≤ count, (m.after k).Fits))

theorem FitsFor.of_le {m : Machine} {k count : Nat} (h : m.FitsFor count) (hk : k ≤ count) :
    m.FitsFor k :=
  fun i hi => h i (Nat.le_trans hi hk)

/-- A machine starts with sizes that pass, at the first instruction, with both stacks empty and with
cells and a screen of its own. -/
theorem start_eq {program : Program} {sizes : Sizes} {console : Console} {m : Machine}
    (h : start program sizes console = .ok m) :
    sizes.dataSlots ≤ Sizes.maxSlots ∧ sizes.callSlots ≤ Sizes.maxSlots ∧
      ∃ memory registers screen, zeroCells "memory" sizes.memory = .ok memory ∧
        Registers.make sizes.registers = .ok registers ∧
        Screen.make sizes.screenWidth sizes.screenHeight = .ok screen ∧
        m = ⟨program, sizes.callDepth, program.entry,
          ⟨.empty (UInt64.ofNat sizes.dataSlots), .empty (UInt64.ofNat sizes.callSlots),
            ⟨registers, seed memory (environment sizes)⟩, screen⟩, console⟩ := by
  have hdata : ("stack capacity", some sizes.dataSlots, Sizes.maxSlots) ∈ sizes.limits := by
    simp [Sizes.limits]
  have hcalls : ("call stack capacity", some sizes.callSlots, Sizes.maxSlots) ∈ sizes.limits := by
    simp [Sizes.limits]
  simp only [start, bind, Except.bind] at h
  split at h
  · cases h
  · rename_i hvalid
    split at h
    · cases h
    · rename_i memory hmemory
      split at h
      · cases h
      · rename_i registers hregisters
        split at h
        · cases h
        · rename_i screen hscreen
          cases h
          exact ⟨Sizes.le_of_validate hvalid hdata, Sizes.le_of_validate hvalid hcalls,
            memory, registers, screen, hmemory, hregisters, hscreen, rfl⟩

theorem start_holds {program : Program} {sizes : Sizes} {console : Console} {m : Machine}
    (h : start program sizes console = .ok m) :
    m.program = program ∧ m.callDepth = sizes.callDepth ∧ m.ip = Program.headerSize ∧
      m.console = console ∧ ∃ p, m.store.Holds p ∧ p.data = [] ∧ p.calls = [] := by
  obtain ⟨hdata, hcalls, memory, registers, screen, -, -, -, rfl⟩ := start_eq h
  exact ⟨rfl, rfl, rfl, rfl, ⟨[], [], ⟨registers, seed memory (environment sizes)⟩, screen⟩,
    ⟨.empty _ (slots_lt hdata), .empty _ (slots_lt hcalls), rfl, rfl⟩, rfl, rfl⟩

end Machine

/-- A decoded instruction keeps the offset it was read at. -/
theorem Opening.offset_of_finish {o : Opening} {offset : Nat} {c : Cursor} {d : Decoded}
    (h : o.finish offset c = .ok d) : d.offset = offset ∧ d.instruction = o.instruction := by
  unfold Opening.finish at h
  split at h
  · cases hw : c.word with
    | error fault => simp [hw, bind, Except.bind] at h
    | ok r =>
      simp only [hw, bind, Except.bind, Except.ok.injEq] at h
      subst h
      exact ⟨rfl, rfl⟩
  · cases h
    exact ⟨rfl, rfl⟩

theorem Decoded.offset_of_read {bytes : Array UInt8} {offset : Nat} {d : Decoded}
    (h : Decoded.read bytes offset = .ok d) : d.offset = offset := by
  cases ho : Opening.read ⟨bytes, offset⟩ with
  | error fault => simp [Decoded.read, ho, bind, Except.bind] at h
  | ok r =>
    simp only [Decoded.read, ho, bind, Except.bind] at h
    exact (Opening.offset_of_finish h).1

namespace Machine

/-- What a machine fetches is the instruction it stands at, and its inputs are there. -/
theorem read_of_fetch {m : Machine} {d : Decoded} (h : m.fetch = .ok d) :
    Decoded.read m.program.bytes m.ip = .ok d ∧
      d.instruction.inputs ≤ m.store.data.size.toNat := by
  cases ho : Opening.read ⟨m.program.bytes, m.ip⟩ with
  | error fault => simp [fetch_eq, ho, bind, Except.bind] at h
  | ok r =>
    simp only [fetch_eq, ho, bind, Except.bind] at h
    split at h
    · cases h
    · rename_i hin
      refine ⟨by simp only [Decoded.read, ho, bind, Except.bind, h], ?_⟩
      rw [(Opening.offset_of_finish h).2]
      exact Nat.le_of_not_lt hin

/-- Where an instruction can be read, fetching it fails only for want of inputs. -/
theorem fetch_of_read {m : Machine} {d : Decoded}
    (h : Decoded.read m.program.bytes m.ip = .ok d) :
    m.fetch = if m.store.data.size.toNat < d.instruction.inputs then
      .error (.stackUnderflow d.instruction m.ip) else .ok d := by
  cases ho : Opening.read ⟨m.program.bytes, m.ip⟩ with
  | error fault => simp [Decoded.read, ho, bind, Except.bind] at h
  | ok r =>
    simp only [Decoded.read, ho, bind, Except.bind] at h
    simp only [fetch_eq, ho, bind, Except.bind, (Opening.offset_of_finish h).2, h]

theorem damage?_of_status {s : Store} (hd : s.data.status = []) (hc : s.calls.status = []) :
    damage? s = none := by
  simp [damage?, hd, hc]

/-- The inputs of an instruction that is fetched are there. -/
theorem inputs_le_of_fetch {m : Machine} {p : PlainStore} {d : Decoded} (h : m.store.Holds p)
    (hd : m.fetch = .ok d) : d.instruction.inputs ≤ p.data.length := by
  obtain ⟨-, hin⟩ := read_of_fetch hd
  rwa [h.data.size_eq, List.length_map] at hin

/-- Where no instruction is fetched, a step does nothing. -/
theorem step_of_fetch_error {m : Machine} {p : PlainStore} {fault : Fault} (h : m.store.Holds p)
    (hd : m.fetch = .error fault) : m.step = ⟨m, .error fault, none⟩ := by
  simp only [step, damage?_of_status h.data.status h.calls.status, hd]

/-- A step goes one of three ways: no instruction is fetched; an instruction fails and only the
console shows it; or an instruction is carried out and the machine is to move on. -/
theorem step_cases {m : Machine} {p : PlainStore} (h : m.store.Holds p) (hf : m.Fits) :
    (∃ fault, m.fetch = .error fault ∧ m.step = ⟨m, .error fault, none⟩) ∨
    (∃ d fault console, m.fetch = .ok d ∧
      p.execute m.callDepth d m.console = (.error fault, console) ∧
      m.step = ⟨{ m with console }, .error fault, none⟩) ∨
    ∃ d flow q store console, m.fetch = .ok d ∧
      p.execute m.callDepth d m.console = (.ok (flow, q), console) ∧
      execute m.callDepth d m.store m.console = ⟨.ok flow, store, console⟩ ∧ store.Holds q ∧
      m.step =
        let (result, next) := advance { m with store, console } (target? d flow)
        ⟨next, result, some (.executed d.instruction m.ip q.data.length q.calls.length)⟩ := by
  have hwhole := damage?_of_status h.data.status h.calls.status
  cases hd : m.fetch with
  | error fault => exact .inl ⟨fault, rfl, step_of_fetch_error h hd⟩
  | ok d =>
    right
    obtain ⟨hread, -⟩ := read_of_fetch hd
    have hin := inputs_le_of_fetch h hd
    have hdata := h.data.room hf.1
    rw [List.length_map] at hdata
    have hagrees := execute_agrees h hin hdata (h.calls.room hf.2) m.callDepth m.console
    match hp : p.execute m.callDepth d m.console with
    | (.error fault, console) =>
      rw [hp] at hagrees
      have hfail : execute m.callDepth d m.store m.console = ⟨.error fault, m.store, console⟩ :=
        hagrees
      exact .inl ⟨d, fault, console, rfl, hp, by simp only [step, hwhole, hd, hfail]⟩
    | (.ok (flow, q), console) =>
      rw [hp] at hagrees
      obtain ⟨store, hrun, hold⟩ := hagrees
      refine .inr ⟨d, flow, q, store, console, rfl, hp, hrun, hold, ?_⟩
      have hsizes : store.data.size.toNat = q.data.length ∧
          store.calls.size.toNat = q.calls.length := by
        simp [hold.data.size_eq, hold.calls.size_eq]
      simp only [step, hwhole, hd, hrun, Decoded.offset_of_read hread, hsizes]

/-- To move on changes nothing but where a machine stands. -/
theorem advance_cases (m : Machine) (target : Option Int) :
    (target = none ∧ advance m target = (.ok .halt, m)) ∨
    (∃ t, target = some t ∧ (t < Program.headerSize ∨ (m.program.size : Int) ≤ t) ∧
      advance m target = (.error (.targetOutside t m.ip), m)) ∨
    ∃ t, target = some t ∧ (Program.headerSize : Int) ≤ t ∧ t < m.program.size ∧
      advance m target = (.ok (.shift (t - m.ip)), { m with ip := t.toNat }) := by
  cases target with
  | none => exact .inl ⟨rfl, rfl⟩
  | some t =>
    right
    by_cases hout : t < Program.headerSize ∨ (m.program.size : Int) ≤ t
    · exact .inl ⟨t, rfl, hout, by simp only [advance, hout, ↓reduceIte]⟩
    · have hin : (Program.headerSize : Int) ≤ t ∧ t < m.program.size := by omega
      exact .inr ⟨t, rfl, hin.1, hin.2, by simp only [advance, hout, ↓reduceIte]⟩

theorem advance_frame (m : Machine) (target : Option Int) :
    (advance m target).2 = { m with ip := (advance m target).2.ip } := by
  obtain ⟨-, h⟩ | ⟨t, -, -, h⟩ | ⟨t, -, -, -, h⟩ := advance_cases m target <;> rw [h]

/-- A step keeps the program and the limit on calls, and keeps the machine whole. -/
theorem step_holds {m : Machine} {p : PlainStore} (h : m.store.Holds p) (hf : m.Fits) :
    m.step.machine.program = m.program ∧ m.step.machine.callDepth = m.callDepth ∧
      ∃ q, m.step.machine.store.Holds q := by
  obtain ⟨fault, -, hs⟩ | ⟨d, fault, c, -, -, hs⟩ | ⟨d, flow, q, store, c, -, -, -, hold, hs⟩ :=
    step_cases h hf
  · rw [hs]
    exact ⟨rfl, rfl, p, h⟩
  · rw [hs]
    exact ⟨rfl, rfl, p, h⟩
  · rw [hs]
    simp only
    rw [advance_frame]
    exact ⟨rfl, rfl, q, hold⟩

/-- However many steps are taken, a machine stays whole. -/
theorem after_holds {m : Machine} {p : PlainStore} (h : m.store.Holds p) {count : Nat}
    (hf : m.FitsFor count) :
    (m.after count).program = m.program ∧ (m.after count).callDepth = m.callDepth ∧
      ∃ q, (m.after count).store.Holds q := by
  induction count with
  | zero => exact ⟨rfl, rfl, p, h⟩
  | succ count ih =>
    obtain ⟨hprogram, hdepth, q, hold⟩ := ih (hf.of_le (Nat.le_succ count))
    obtain ⟨hprogram', hdepth', hold'⟩ := step_holds hold (hf count (Nat.le_succ count))
    exact ⟨hprogram'.trans hprogram, hdepth'.trans hdepth, hold'⟩

end Machine

end StackMachine
