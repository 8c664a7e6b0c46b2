import StackMachine.Proofs.Machine.Faults
import StackMachine.Proofs.Machine.Room

namespace StackMachine

/-- What a console shows of an instruction that failed: nothing, input that was read, or the first
of the bytes that were to be printed. -/
inductive Console.Shows (d : Decoded) (p : PlainStore) (c : Console) : Console → Prop where
  | nothing : Shows d p c c
  | taken (line rest : List UInt8) (hi : d.instruction = .read)
      (hl : c.source.pending = line ++ rest) :
      Shows d p c { c with source := { c.source with pending := rest } }
  | printed (bytes shown : List UInt8) (room : Option Nat)
      (hb : p.printed? d.instruction = some bytes) (hs : shown <+: bytes) :
      Shows d p c { c with sink := { c.sink with written := c.sink.written ++ shown, room } }

namespace Console

theorem cutLine_append (bytes : List UInt8) :
    (Source.cutLine bytes).1 ++ (Source.cutLine bytes).2 = bytes := by
  have happend := List.takeWhile_append_dropWhile (p := (· != 0x0A)) (l := bytes)
  unfold Source.cutLine
  simp only
  split
  · rename_i hd
    simpa [hd] using happend
  · rename_i newline rest hd
    simpa [hd] using happend

theorem readLine_source (s : Source) :
    s.readLine.2 = { s with pending := (Source.cutLine s.pending).2 } := by
  unfold Source.readLine
  simp only
  split
  · rfl
  · split <;> rfl

theorem Shows.of_readNumber {d : Decoded} {p : PlainStore} {c c' : Console} {fault : Fault}
    (hi : d.instruction = .read) (h : c.readNumber = (.error fault, c')) :
    fault.OfConsole ∧ Shows d p c c' := by
  have hline := readLine_source c.source
  have htaken : Shows d p c { c with source := c.source.readLine.2 } := by
    rw [hline]
    exact .taken _ _ hi (cutLine_append c.source.pending).symm
  unfold readNumber at h
  split at h
  · rename_i hflush
    obtain ⟨hfault, rfl⟩ := Prod.mk.inj h
    cases hfault
    refine ⟨?_, .nothing⟩
    unfold flush at hflush
    split at hflush
    · cases hflush
    · cases hflush
      exact trivial
  · split at h
    · rename_i line source hread
      rw [hread] at htaken
      obtain ⟨hn, rfl⟩ := Prod.mk.inj h
      refine ⟨?_, htaken⟩
      simp only [numberOf] at hn
      split at hn
      · cases hn
      · cases hn
        exact trivial
    · rename_i cause source hread
      rw [hread] at htaken
      obtain ⟨hfault, rfl⟩ := Prod.mk.inj h
      cases hfault
      exact ⟨trivial, htaken⟩

theorem Shows.of_print {d : Decoded} {p : PlainStore} {c c' : Console} {fault : Fault}
    {bytes : List UInt8} (hb : p.printed? d.instruction = some bytes)
    (h : c.print bytes = (.error fault, c')) : fault.OfConsole ∧ Shows d p c c' := by
  unfold print at h
  simp only [Sink.write] at h
  cases hroom : c.sink.room with
  | none => simp [hroom] at h
  | some room =>
    rw [hroom] at h
    by_cases hfits : bytes.length ≤ room
    · simp [hfits] at h
    · simp only [hfits, ↓reduceIte, Prod.mk.injEq, Except.error.injEq] at h
      obtain ⟨rfl, rfl⟩ := h
      exact ⟨trivial, .printed bytes (bytes.take room) _ hb (List.take_prefix room bytes)⟩

end Console

/-- An instruction that fails has one of its faults, and shows on the console at most. -/
theorem PlainStore.failsBy_execute {d : Decoded} {p : PlainStore} {c c' : Console}
    {fault : Fault} {callDepth : Nat} (h : p.execute callDepth d c = (.error fault, c')) :
    d.FailsBy p fault ∧ c.Shows d p c' := by
  unfold PlainStore.execute at h
  split at h
  · rename_i hi
    split at h
    · cases h
    · rename_i hread
      obtain ⟨hfault, rfl⟩ := Prod.mk.inj h
      cases hfault
      obtain ⟨hconsole, hshows⟩ := Console.Shows.of_readNumber hi hread
      exact ⟨.console hconsole, hshows⟩
  · rename_i hi
    split at h
    · rename_i bytes hb
      split at h
      · cases h
      · rename_i hprint
        obtain ⟨hfault, rfl⟩ := Prod.mk.inj h
        cases hfault
        obtain ⟨hconsole, hshows⟩ := Console.Shows.of_print hb hprint
        exact ⟨.console hconsole, hshows⟩
    · rename_i hnone
      obtain ⟨hfault, rfl⟩ := Prod.mk.inj h
      exact ⟨failsBy_effect p d callDepth hi hnone fault hfault, .nothing⟩

theorem PlainStore.shows_of_execute {d : Decoded} {p : PlainStore} {c c' : Console}
    {fault : Fault} {callDepth : Nat} (h : p.execute callDepth d c = (.error fault, c')) :
    d.Raises fault ∧ c.Shows d p c' := by
  obtain ⟨hfails, hshows⟩ := failsBy_execute h
  exact ⟨hfails.raises, hshows⟩

namespace Machine

/-- One step of a machine that is whole. A fault within the program changes the console at most,
and the fault of leaving it comes after the instruction was carried out. -/
theorem step_fault {m : Machine} {p : PlainStore} {fault : Fault} (h : m.store.Holds p)
    (hf : m.Fits) (he : m.step.result = .error fault) :
    m.step.machine.ip = m.ip ∧ m.step.machine.program = m.program ∧
      m.step.machine.callDepth = m.callDepth ∧
      (fault.Inside → m.step.machine.store = m.store ∧
        (m.step.machine.console = m.console ∨
          ∃ d, m.fetch = .ok d ∧ m.console.Shows d p m.step.machine.console)) ∧
      ∀ target source, fault = .targetOutside target source →
        source = m.ip ∧ (target < Program.headerSize ∨ (m.program.size : Int) ≤ target) ∧
          ∃ d flow q, m.fetch = .ok d ∧ target? d flow = some target ∧
            execute m.callDepth d m.store m.console =
              ⟨.ok flow, m.step.machine.store, m.step.machine.console⟩ ∧
            p.execute m.callDepth d m.console = (.ok (flow, q), m.step.machine.console) ∧
            m.step.machine.store.Holds q := by
  obtain ⟨fault', hd, hs⟩ | ⟨d, fault', c, hd, hp, hs⟩ |
      ⟨d, flow, q, store, c, hd, hp, hrun, hold, hs⟩ := step_cases h hf
  · rw [hs] at he ⊢
    cases he
    refine ⟨rfl, rfl, rfl, fun _ => ⟨rfl, .inl rfl⟩, ?_⟩
    intro target source ht
    exact absurd ht ((m.ofFetch_fetch fault hd).inside target source)
  · rw [hs] at he ⊢
    cases he
    obtain ⟨hraises, hshows⟩ := PlainStore.shows_of_execute hp
    refine ⟨rfl, rfl, rfl, fun _ => ⟨rfl, .inr ⟨d, hd, hshows⟩⟩, ?_⟩
    intro target source ht
    exact absurd ht (hraises.inside target source)
  · obtain ⟨-, ha⟩ | ⟨t, ht, hout, ha⟩ | ⟨t, -, -, -, ha⟩ :=
      advance_cases { m with store, console := c } (target? d flow)
    · rw [ha] at hs
      rw [hs] at he
      cases he
    · rw [ha] at hs
      rw [hs] at he ⊢
      cases he
      refine ⟨rfl, rfl, rfl, fun hin => absurd rfl (hin t m.ip), ?_⟩
      intro target source heq
      cases heq
      exact ⟨rfl, hout, d, flow, q, hd, ht, hrun, hp, hold⟩
    · rw [ha] at hs
      rw [hs] at he
      cases he

/-- A step that fails is taken as a whole or not at all, however a machine got where it is. The
store keeps all it holds and the machine stays in its place, and the console may show input that
was read or the first bytes of what was to be printed. If control leaves the program, the machine
stays in its place with what the instruction does. -/
theorem failed_step_atomic {program : Program} {sizes : Sizes} {console : Console} {m₀ : Machine}
    {count : Nat} {fault : Fault} (hs : start program sizes console = .ok m₀)
    (hf : m₀.FitsFor count) (he : (m₀.after count).step.result = .error fault) :
    let m := m₀.after count
    let m' := m.step.machine
    m'.ip = m.ip ∧ m'.program = m.program ∧ m'.callDepth = m.callDepth ∧
      ∃ p, m.store.Holds p ∧
        (fault.Inside → m'.store = m.store ∧
          (m'.console = m.console ∨
            ∃ d, m.fetch = .ok d ∧ m.console.Shows d p m'.console)) ∧
        ∀ target source, fault = .targetOutside target source →
          source = m.ip ∧ (target < Program.headerSize ∨ (m.program.size : Int) ≤ target) ∧
            ∃ d flow q, m.fetch = .ok d ∧ target? d flow = some target ∧
              execute m.callDepth d m.store m.console = ⟨.ok flow, m'.store, m'.console⟩ ∧
              p.execute m.callDepth d m.console = (.ok (flow, q), m'.console) ∧
              m'.store.Holds q := by
  intro m m'
  obtain ⟨-, -, -, -, p₀, hold₀, -, -⟩ := start_holds hs
  obtain ⟨-, -, p, hold⟩ := after_holds hold₀ hf
  obtain ⟨hip, hprogram, hdepth, hin, hout⟩ := step_fault hold (hf count (Nat.le_refl count)) he
  exact ⟨hip, hprogram, hdepth, p, hold, hin, hout⟩

/-- Dividing by the zero pushed last fails and both values stay. -/
theorem failed_step_atomic_division :
    ∃ m₀, start (.ofBody #[8, 7, 0, 0, 0, 8, 0, 0, 0, 0, 36]) ⟨1, 1, 1, 1, 0, 0, 1⟩
        ⟨⟨[], false⟩, ⟨#[], none, false⟩⟩ = .ok m₀ ∧ m₀.FitsFor 2 ∧
      (m₀.after 2).step.result = .error (.divisionByZero 26) ∧
      (m₀.after 2).store.data.toList = [7, 0] ∧
      (m₀.after 2).step.machine.store = (m₀.after 2).store := by
  have hrun {m₀ : Machine} (hs : start (.ofBody #[8, 7, 0, 0, 0, 8, 0, 0, 0, 0, 36])
      ⟨1, 1, 1, 1, 0, 0, 1⟩ ⟨⟨[], false⟩, ⟨#[], none, false⟩⟩ = .ok m₀)
      (he : (m₀.after 2).step.result = .error (.divisionByZero 26)) :
      m₀.FitsFor 2 ∧ (m₀.after 2).step.machine.store = (m₀.after 2).store := by
    have hf : m₀.FitsFor 2 := fitsFor_of_start hs (by decide)
    obtain ⟨-, -, -, p, -, hin, -⟩ := failed_step_atomic hs hf he
    exact ⟨hf, (hin nofun).1⟩
  have he := hrun rfl (by decide +kernel)
  exact ⟨_, rfl, he.1, by decide +kernel, by decide +kernel, he.2⟩

end Machine

end StackMachine
