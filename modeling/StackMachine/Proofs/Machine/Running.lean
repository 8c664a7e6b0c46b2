import StackMachine.Proofs.Machine.Output

namespace StackMachine

namespace Console

theorem flushFails_print (c : Console) (bytes : List UInt8) :
    (c.print bytes).2.sink.flushFails = c.sink.flushFails := by
  simp only [print, Sink.write]
  cases c.sink.room with
  | none => rfl
  | some room => by_cases hfits : bytes.length ≤ room <;> simp only [hfits, ↓reduceIte]

theorem flush_eq_of_flushFails {c c' : Console} (h : c.sink.flushFails = c'.sink.flushFails) :
    c.flush = c'.flush := by
  simp only [flush, Sink.flush, h]

end Console

namespace Machine

variable {m : Machine} {count steps : Nat}

/-- The first steps all move the machine on. -/
def MovesOn (m : Machine) (count : Nat) : Prop :=
  ∀ k < count, ∃ distance, (m.after k).step.result = .ok (.shift distance)

/-- Nothing that a machine does changes whether its sink can be flushed. -/
theorem flush_step (m : Machine) : m.step.machine.console.flush = m.console.flush := by
  apply Console.flush_eq_of_flushFails
  have hself : m.step = (m.on m.console).step := rfl
  rcases m.step_console with ⟨report, hstep⟩ | ⟨bytes, report, hstep⟩ | ⟨-, report, hstep⟩
  · rw [hself, hstep]
    rfl
  · have hprint := m.console.flushFails_print bytes
    rw [hself, hstep]
    rcases hc : m.console.print bytes with ⟨fault | _, c⟩ <;> rw [hc] at hprint <;> exact hprint
  · have hread := congrArg Sink.flushFails m.console.sink_readNumber
    rw [hself, hstep]
    rcases hc : m.console.readNumber with ⟨fault | value, c⟩ <;> rw [hc] at hread <;> exact hread

theorem flush_after (m : Machine) (count : Nat) :
    (m.after count).console.flush = m.console.flush := by
  induction count with
  | zero => rfl
  | succ count ih => exact (flush_step _).trans ih

section Observe

variable {σ : Type} {see : σ → Report → σ} {seen : σ}

theorem observe_shift {distance : Int} (h : m.step.result = .ok (.shift distance)) :
    m.observe see (count + 1) seen = m.step.machine.observe see count (see seen m.step) := by
  rw [observe]
  cases hr : m.step with
  | mk next result event =>
    rw [hr] at h
    cases h
    rfl

theorem observe_end (h : ∀ distance, m.step.result ≠ .ok (.shift distance)) :
    m.observe see (count + 1) seen = (m.step.machine, see seen m.step) := by
  rw [observe]
  cases hr : m.step with
  | mk next result event =>
    rw [hr] at h
    match result with
    | .ok (.shift distance) => exact absurd rfl (h distance)
    | .ok .halt => rfl
    | .error fault => rfl

end Observe

/-- Observing goes past steps that move the machine on, and the run has not ended there. -/
theorem observe_movesOn (hm : m.MovesOn count) (more : Nat) :
    ∃ seen, ending seen.2 = none ∧
      m.observe record (count + more) (#[], none) = (m.after count).observe record more seen := by
  induction count generalizing more with
  | zero => exact ⟨(#[], none), rfl, by rw [Nat.zero_add]; rfl⟩
  | succ count ih =>
    obtain ⟨distance, hshift⟩ := hm count (Nat.lt_succ_self count)
    obtain ⟨seen, -, hbefore⟩ := ih (fun k hk => hm k (Nat.lt_succ_of_lt hk)) (more + 1)
    refine ⟨record seen (m.after count).step, ?_, ?_⟩
    · simp only [record, hshift, ending]
    · rw [Nat.add_right_comm, Nat.add_assoc, hbefore, observe_shift hshift]
      rfl

/-- As long as the machine moves on, the run goes on with it. -/
theorem run_movesOn (hm : m.MovesOn count) :
    (m.run count).machine = m.after count ∧ (m.run count).result = none := by
  obtain ⟨seen, hpending, hobserve⟩ := observe_movesOn hm 0
  rw [Nat.add_zero] at hobserve
  simp only [run, hobserve, observe, hpending]
  exact ⟨trivial, trivial⟩

/-- A run ends with the first step that does not move the machine on. -/
theorem run_end {result : Except Fault Unit} (hm : m.MovesOn count) (hlt : count < steps)
    (he : ending (some (m.after count).step.result) = some result) :
    (m.run steps).machine = m.after (count + 1) ∧
      (m.console.flush = .ok () → (m.run steps).result = some result) ∧
      ∀ cause, m.console.flush = .error cause → (m.run steps).result = some (.error cause) := by
  have hend : ∀ distance, (m.after count).step.result ≠ .ok (.shift distance) := by
    intro distance hshift
    rw [hshift] at he
    cases he
  obtain ⟨more, rfl⟩ := Nat.exists_eq_add_of_le (Nat.succ_le_of_lt hlt)
  obtain ⟨seen, -, hobserve⟩ := observe_movesOn hm (more + 1)
  rw [observe_end hend, ← Nat.add_assoc, Nat.add_right_comm] at hobserve
  have hflush : (m.after count).step.machine.console.flush = m.console.flush :=
    m.flush_after (count + 1)
  simp only [run, hobserve, record, he, hflush]
  cases m.console.flush with
  | ok _ => exact ⟨rfl, fun _ => rfl, nofun⟩
  | error fault =>
    refine ⟨rfl, nofun, ?_⟩
    rintro cause ⟨⟩
    rfl

/-- A run goes on as long as its steps move the machine on, and ends with the first one that does
not. The machine is left as that step leaves it. If the sink can be flushed, the run reports what
the step reported, and if not, it reports the fault of the sink, whatever fault the step had. -/
theorem run_reports_flush_first (hm : m.MovesOn count) :
    ((m.run count).machine = m.after count ∧ (m.run count).result = none) ∧
      ∀ steps > count,
        (∀ fault, (m.after count).step.result = .error fault →
          (m.run steps).machine = m.after (count + 1) ∧
            (m.console.flush = .ok () → (m.run steps).result = some (.error fault)) ∧
            ∀ cause, m.console.flush = .error cause →
              (m.run steps).result = some (.error cause)) ∧
        ((m.after count).step.result = .ok .halt →
          (m.run steps).machine = m.after (count + 1) ∧
            (m.console.flush = .ok () → (m.run steps).result = some (.ok ())) ∧
            ∀ cause, m.console.flush = .error cause →
              (m.run steps).result = some (.error cause)) := by
  refine ⟨run_movesOn hm, ?_⟩
  intro steps hlt
  constructor
  · intro fault hfault
    exact run_end hm hlt (by rw [hfault]; rfl)
  · intro hhalt
    exact run_end hm hlt (by rw [hhalt]; rfl)

/-- A machine prints a number and aborts. -/
theorem run_reports_flush_first_abort :
    ∃ m : Machine, start (.ofBody #[8, 3, 0, 0, 0, 80, 4]) ⟨1, 1, 1, 1, 0, 0, 1⟩
        ⟨⟨[], false⟩, ⟨#[], none, false⟩⟩ = .ok m ∧ m.MovesOn 2 ∧
      (m.after 2).step.result = .error (.aborted 22) ∧
      ∀ steps > 2, (m.run steps).machine = m.after 3 ∧
        (m.run steps).result = some (.error (.aborted 22)) := by
  obtain ⟨m, hs, hfirst, hsecond, hthird, hflush⟩ : ∃ m : Machine,
      start (.ofBody #[8, 3, 0, 0, 0, 80, 4]) ⟨1, 1, 1, 1, 0, 0, 1⟩
        ⟨⟨[], false⟩, ⟨#[], none, false⟩⟩ = .ok m ∧ (m.after 0).step.result = .ok (.shift 5) ∧
      (m.after 1).step.result = .ok (.shift 1) ∧ (m.after 2).step.result = .error (.aborted 22) ∧
      m.console.flush = .ok () :=
    ⟨_, rfl, by decide +kernel, by decide +kernel, by decide +kernel, rfl⟩
  have hm : m.MovesOn 2 := by
    intro k hk
    match k, hk with
    | 0, _ => exact ⟨5, hfirst⟩
    | 1, _ => exact ⟨1, hsecond⟩
  refine ⟨m, hs, hm, hthird, ?_⟩
  intro steps hlt
  obtain ⟨-, hends⟩ := run_reports_flush_first hm
  obtain ⟨hmachine, hreports, -⟩ := (hends steps hlt).1 _ hthird
  exact ⟨hmachine, hreports hflush⟩

/-- A machine aborts in its first step, and a run of it reports that its sink cannot be flushed. -/
theorem failing_flush_hides_abort :
    ∃ m : Machine, start (.ofBody #[4]) ⟨1, 1, 1, 1, 0, 0, 1⟩
        ⟨⟨[], false⟩, ⟨#[], none, true⟩⟩ = .ok m ∧ m.MovesOn 0 ∧
      (m.after 0).step.result = .error (.aborted 16) ∧
      ∀ steps > 0, (m.run steps).result = some (.error (.output .flushFailed)) ∧
        (m.run steps).result ≠ some (.error (.aborted 16)) := by
  obtain ⟨m, hs, hfirst, hflush⟩ : ∃ m : Machine, start (.ofBody #[4]) ⟨1, 1, 1, 1, 0, 0, 1⟩
        ⟨⟨[], false⟩, ⟨#[], none, true⟩⟩ = .ok m ∧
      (m.after 0).step.result = .error (.aborted 16) ∧
      m.console.flush = .error (.output .flushFailed) :=
    ⟨_, rfl, by decide +kernel, rfl⟩
  have hm : m.MovesOn 0 := fun k hk => absurd hk (Nat.not_lt_zero k)
  have hends : ending (some (m.after 0).step.result) = some (.error (.aborted 16)) := by
    rw [hfirst]
    rfl
  refine ⟨m, hs, hm, hfirst, ?_⟩
  intro steps hlt
  obtain ⟨-, -, hreports⟩ := run_end hm hlt hends
  rw [hreports _ hflush]
  exact ⟨rfl, nofun⟩

end Machine

end StackMachine
