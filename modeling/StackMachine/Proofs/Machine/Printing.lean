import StackMachine.Proofs.Machine.Storage

namespace StackMachine

namespace Sink

/-- A sink has room for so many bytes more. -/
def HasRoom (s : Sink) (count : Nat) : Prop :=
  ∀ room, s.room = some room → count ≤ room

variable {s : Sink} {bytes : List UInt8}

/-- With room for them all, some bytes are put behind those that were written before. -/
theorem write_hasRoom (h : s.HasRoom bytes.length) :
    ∃ t, s.write bytes = (.ok (), t) ∧ t.written = s.written ++ bytes := by
  cases hr : s.room with
  | none => exact ⟨{ s with written := s.written ++ bytes }, by simp only [write, hr], rfl⟩
  | some room =>
    have hfits := h room hr
    have hall : bytes.take room = bytes := List.take_of_length_le hfits
    refine ⟨{ s with written := s.written ++ bytes, room := some (room - bytes.length) }, ?_, rfl⟩
    simp only [write, hr, hfits, hall, ↓reduceIte]

theorem write_past {room : Nat} (hr : s.room = some room) (h : room < bytes.length) :
    s.write bytes =
      (.error .full, { s with written := s.written ++ bytes.take room, room := some 0 }) := by
  have hnone : room - bytes.length = 0 := Nat.sub_eq_zero_of_le (Nat.le_of_lt h)
  simp only [write, hr, hnone, Nat.not_le.mpr h, ↓reduceIte]

end Sink

namespace Machine

/-- The next step prints some bytes. They are put behind those that the sink had, and the
instruction is carried out. Where there is not room for them all, there are only the first of them,
and the step fails. -/
structure Prints (m : Machine) (d : Decoded) (bytes : List UInt8) : Prop where
  all : m.console.sink.HasRoom bytes.length →
    m.carried? = some d ∧
      m.step.machine.console.sink.written = m.console.sink.written ++ bytes
  first : ∀ room < bytes.length, m.console.sink.room = some room →
    m.step.result = .error (.output .full) ∧
      m.step.machine.console.sink.written = m.console.sink.written ++ bytes.take room

variable {m : Machine} {p : PlainStore} {d : Decoded} {bytes : List UInt8}

/-- An instruction that prints does nothing else to the console, whether or not there is room. -/
theorem console_of_printed (h : m.store.Holds p) (hf : m.Fits) (hd : m.fetch = .ok d)
    (hb : p.printed? d.instruction = some bytes) :
    m.step.machine.console = (m.console.print bytes).2 := by
  have he := PlainStore.execute_printed hb m.callDepth m.console
  rcases hprint : m.console.print bytes with ⟨fault | _, c⟩ <;> rw [hprint] at he
  · rw [(step_of_error h hf hd he).1]
  · exact (step_of_ok h hf hd he).2.2

theorem prints_of_printed (h : m.store.Holds p) (hf : m.Fits) (hd : m.fetch = .ok d)
    (hb : p.printed? d.instruction = some bytes) : m.Prints d bytes := by
  have he := PlainStore.execute_printed hb m.callDepth m.console
  constructor
  case all =>
    intro hroom
    obtain ⟨sink, hwrite, hwritten⟩ := Sink.write_hasRoom hroom
    simp only [Console.print, hwrite] at he
    obtain ⟨hcarried, -, hconsole⟩ := step_of_ok h hf hd he
    exact ⟨hcarried, by rw [hconsole, hwritten]⟩
  case first =>
    intro room hlt hr
    simp only [Console.print, Sink.write_past hr hlt] at he
    obtain ⟨hstep, -⟩ := step_of_error h hf hd he
    rw [hstep]
    exact ⟨rfl, rfl⟩

end Machine

end StackMachine
