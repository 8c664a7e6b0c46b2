import StackMachine.Proofs.Machine.PlainMachine

namespace StackMachine

namespace Sink

/-- The sink with room for so many bytes in all, where the given one has room for any number. -/
def cut (limit : Nat) (s : Sink) : Sink :=
  { s with written := s.written.take limit, room := some (limit - s.written.size) }

/-- The sink after it took all of some bytes. -/
def put (s : Sink) (bytes : List UInt8) : Sink :=
  { s with written := s.written ++ bytes }

theorem toList_cut (limit : Nat) (s : Sink) :
    (s.cut limit).written.toList = s.written.toList.take limit := by
  simp [cut]

theorem size_put (s : Sink) (bytes : List UInt8) :
    (s.put bytes).written.size = s.written.size + bytes.length := by
  rw [put, ← Array.length_toList, Array.toList_appendList, List.length_append, Array.length_toList]

theorem write_unlimited {s : Sink} (hr : s.room = none) (bytes : List UInt8) :
    s.write bytes = (.ok (), s.put bytes) := by
  simp only [write, put, hr]

/-- The bytes that a limited sink takes are the first of those that an unlimited one takes. -/
theorem write_cut {s : Sink} {limit : Nat} (hw : s.written.size ≤ limit) (bytes : List UInt8) :
    (s.cut limit).write bytes =
      (if (s.put bytes).written.size ≤ limit then .ok () else .error .full,
        (s.put bytes).cut limit) := by
  have hfits : bytes.length ≤ limit - s.written.size ↔ s.written.size + bytes.length ≤ limit := by
    omega
  have hlength : s.written.toList.length = s.written.size := Array.length_toList
  have hwritten : s.written.take limit ++ bytes.take (limit - s.written.size) =
      (s.written ++ bytes).take limit := by
    apply Array.toList_inj.mp
    simp [List.take_append, hlength]
  simp only [write, cut, hfits, hwritten, size_put, Nat.sub_sub]
  rfl

/-- A sink that is full takes nothing more. -/
theorem write_full {s : Sink} {limit : Nat} (hw : limit ≤ s.written.size) {bytes : List UInt8}
    (hb : bytes ≠ []) : (s.cut limit).write bytes = (.error .full, s.cut limit) := by
  have hroom : limit - s.written.size = 0 := Nat.sub_eq_zero_of_le hw
  have hlength : ¬ bytes.length ≤ 0 := by simpa using hb
  simp [write, cut, hroom, hlength]

end Sink

namespace Console

def cut (limit : Nat) (c : Console) : Console :=
  { c with sink := c.sink.cut limit }

def put (c : Console) (bytes : List UInt8) : Console :=
  { c with sink := c.sink.put bytes }

/-- The sink has room for any number of bytes and does not fail. -/
structure Unlimited (c : Console) : Prop where
  room_eq : c.sink.room = none
  flush_eq : c.sink.flushFails = false

variable {c : Console} {limit : Nat}

theorem print_unlimited (hu : c.Unlimited) (bytes : List UInt8) :
    c.print bytes = (.ok (), c.put bytes) := by
  simp only [print, Sink.write_unlimited hu.room_eq, put]

theorem print_cut (hw : c.sink.written.size ≤ limit) (bytes : List UInt8) :
    (c.cut limit).print bytes =
      (if (c.put bytes).sink.written.size ≤ limit then .ok () else .error (.output .full),
        (c.put bytes).cut limit) := by
  by_cases hfits : (c.sink.put bytes).written.size ≤ limit
  · simp only [print, cut, put, Sink.write_cut hw, hfits, ↓reduceIte]
  · simp only [print, cut, put, Sink.write_cut hw, hfits, ↓reduceIte]

theorem print_full (hw : limit ≤ c.sink.written.size) {bytes : List UInt8} (hb : bytes ≠ []) :
    (c.cut limit).print bytes = (.error (.output .full), c.cut limit) := by
  simp only [print, cut, Sink.write_full hw hb]

theorem readNumber_cut (hu : c.Unlimited) :
    (c.cut limit).readNumber = (c.readNumber.1, c.readNumber.2.cut limit) := by
  have hflush : ∀ sink : Sink, sink.flushFails = false → sink.flush = .ok () := by
    intro sink hs
    simp [Sink.flush, hs]
  have hsource : (c.cut limit).source = c.source := rfl
  simp only [readNumber, flush, hflush _ hu.flush_eq, hflush (c.cut limit).sink hu.flush_eq,
    hsource]
  rcases c.source.readLine with ⟨cause | line, source⟩ <;> rfl

theorem sink_readNumber (c : Console) : c.readNumber.2.sink = c.sink := by
  unfold readNumber
  split
  · rfl
  · split <;> rfl

end Console

namespace Machine

/-- The machine with another console. -/
def on (m : Machine) (c : Console) : Machine :=
  { m with console := c }

@[simp] theorem store_on (m : Machine) (c : Console) : (m.on c).store = m.store := rfl

/-- The bytes that a machine has printed. -/
def printed (m : Machine) : Array UInt8 :=
  m.console.sink.written

/-- The machine stands at an instruction that reads a line. -/
def readsNext (m : Machine) : Bool :=
  match m.fetch.map Decoded.instruction with
  | .ok .read => true
  | _ => false

end Machine

def Report.on (r : Report) (c : Console) : Report :=
  { r with machine := r.machine.on c }

namespace Machine

variable {callDepth : Nat} {d : Decoded} {s : Store}

theorem quiet_still (action : Action Flow) (s : Store) :
    ∃ result store, ∀ c, quiet action s c = ⟨result, store, c⟩ := by
  unfold quiet
  cases action s with
  | ok flow store => exact ⟨.ok flow, store, fun _ => rfl⟩
  | error fault store => exact ⟨.error fault, store, fun _ => rfl⟩

/-- What is printed of the value on top is known before the console is used, or there is a fault. -/
theorem printing_peek (f : Int32 → List UInt8) (d : Decoded) (s : Store) :
    let action : Action (List UInt8) := do
      let value ← Store.peek d 0
      return f value
    (∃ result store, ∀ c, printing action s c = ⟨result, store, c⟩) ∨
      ∃ bytes, ∀ c, printing action s c = printing (return bytes) s c := by
  intro action
  have haction : action s = match Store.peek d 0 s with
      | .ok value t => .ok (f value) t
      | .error fault t => .error fault t := by
    simp only [action, bind, EStateM.bind]
    cases Store.peek d 0 s <;> rfl
  unfold Store.peek at haction
  cases hp : s.data.peek 0 with
  | ok word => exact .inr ⟨f word.toInt32, fun _ => by simp only [printing, haction, hp]; rfl⟩
  | error failure =>
    exact .inl ⟨.error (Store.refusal d failure), s, fun _ => by simp only [printing, haction, hp]⟩

/-- What an instruction does with the console: nothing, or it prints some bytes and does nothing
else, or it reads. -/
theorem execute_console (callDepth : Nat) (d : Decoded) (s : Store) :
    (∃ result store, ∀ c, execute callDepth d s c = ⟨result, store, c⟩) ∨
      (∃ bytes, ∀ c, execute callDepth d s c = printing (return bytes) s c) ∨
      d.instruction = .read ∧ ∀ c, execute callDepth d s c = reading d s c := by
  unfold execute
  cases d.instruction
  case halt | abort => exact .inl ⟨_, s, fun _ => rfl⟩
  case print => exact (printing_peek _ d s).imp_right .inl
  case printChar => exact (printing_peek _ d s).imp_right .inl
  case clear => exact .inr (.inl ⟨Console.clearScreen, fun _ => rfl⟩)
  case draw => exact .inr (.inl ⟨s.screen.render, fun _ => rfl⟩)
  case read => exact .inr (.inr ⟨rfl, fun _ => rfl⟩)
  all_goals exact .inl (quiet_still _ s)

/-- The report on a step whose instruction ended so. -/
def conclude (m : Machine) (d : Decoded) : Outcome → Report
  | ⟨.error fault, store, console⟩ => ⟨{ m with store, console }, .error fault, none⟩
  | ⟨.ok flow, store, console⟩ =>
    let (result, next) := advance { m with store, console } (target? d flow)
    ⟨next, result,
      some (.executed d.instruction d.offset store.data.size.toNat store.calls.size.toNat)⟩

theorem conclude_on (m : Machine) (d : Decoded) (result : Except Fault Flow) (store : Store)
    (c : Console) :
    (m.on c).conclude d ⟨result, store, c⟩ = (m.conclude d ⟨result, store, m.console⟩).on c := by
  cases result with
  | error fault => rfl
  | ok flow =>
    simp only [conclude, on]
    cases target? d flow with
    | none => rfl
    | some target =>
      simp only [advance]
      split <;> rfl

/-- What a step does with the console: nothing, or it prints some bytes, or it reads a number. If
the console fails, that is all there is to the step. -/
theorem step_console (m : Machine) :
    (∃ report : Report, ∀ c, (m.on c).step = report.on c) ∨
      (∃ (bytes : List UInt8) (report : Report), ∀ c, (m.on c).step =
        match c.print bytes with
        | (.ok (), c) => report.on c
        | (.error fault, c) => ⟨m.on c, .error fault, none⟩) ∨
      m.readsNext = true ∧ ∃ report : Int32 → Report, ∀ c, (m.on c).step =
        match c.readNumber with
        | (.ok value, c) => (report value).on c
        | (.error fault, c) => ⟨m.on c, .error fault, none⟩ := by
  cases hw : damage? m.store with
  | some damage =>
    obtain ⟨role, stack, findings⟩ := damage
    refine .inl ⟨⟨m, .error (.stackDamaged role findings), some (.damaged role stack)⟩, ?_⟩
    intro c
    have hdamage : damage? (m.on c).store = some (role, stack, findings) := hw
    simp only [step, hdamage, Report.on]
  | none =>
    have hwhole : ∀ c, damage? (m.on c).store = none := fun _ => hw
    cases hd : m.fetch with
    | error fault =>
      refine .inl ⟨⟨m, .error fault, none⟩, ?_⟩
      intro c
      have hfetch : (m.on c).fetch = .error fault := hd
      simp only [step, hwhole, hfetch, Report.on]
    | ok d =>
      have hstep : ∀ c, (m.on c).step =
          (m.on c).conclude d (execute m.callDepth d m.store c) := by
        intro c
        have hfetch : (m.on c).fetch = .ok d := hd
        simp only [step, hwhole, hfetch]
        rfl
      rcases execute_console m.callDepth d m.store with
        ⟨result, store, he⟩ | ⟨bytes, he⟩ | ⟨hi, he⟩
      · refine .inl ⟨m.conclude d ⟨result, store, m.console⟩, ?_⟩
        intro c
        rw [hstep, he, conclude_on]
      · refine .inr (.inl ⟨bytes, m.conclude d ⟨.ok .next, m.store, m.console⟩, ?_⟩)
        intro c
        rw [hstep, he]
        simp only [printing, pure, EStateM.pure]
        rcases c.print bytes with ⟨fault | _, c'⟩
        · rfl
        · exact conclude_on m d (.ok .next) m.store c'
      · refine .inr (.inr ⟨by simp only [readsNext, hd, Except.map, hi],
          fun value => m.conclude d (onward (Store.push d value) m.store m.console), ?_⟩)
        intro c
        rw [hstep, he, reading]
        rcases c.readNumber with ⟨fault | value, c'⟩
        · rfl
        · obtain ⟨result, store, hpush⟩ := quiet_still (do Store.push d value; return .next) m.store
          have honward : ∀ c, onward (Store.push d value) m.store c = ⟨result, store, c⟩ := hpush
          simp only [honward]
          exact conclude_on m d result store c'

/-- The machine with room for so many bytes in all that it prints. -/
def cut (limit : Nat) (m : Machine) : Machine :=
  m.on (m.console.cut limit)

end Machine

def Report.cut (limit : Nat) (r : Report) : Report :=
  { r with machine := r.machine.cut limit }

namespace Machine

variable {m : Machine} {limit : Nat}

/-- What a step prints where there is no limit. With a limit that leaves room for it the step is the
same, and if there is something to print, the console decides about all else. -/
theorem step_prints (hu : m.console.Unlimited) :
    ∃ bytes : List UInt8, m.step.machine.console.sink = m.console.sink.put bytes ∧
      (∀ limit, (m.console.put bytes).sink.written.size ≤ limit →
        (m.cut limit).step = m.step.cut limit) ∧
      (bytes ≠ [] → ∀ c, (m.on c).step =
        match c.print bytes with
        | (.ok (), c) => m.step.on c
        | (.error fault, c) => ⟨m.on c, .error fault, none⟩) := by
  have hsame : m.console.sink = m.console.sink.put [] := by simp [Sink.put]
  have hself : m.step = (m.on m.console).step := rfl
  rcases m.step_console with ⟨report, hstep⟩ | ⟨bytes, report, hstep⟩ | ⟨-, report, hstep⟩
  · refine ⟨[], ?_, ?_, fun hne => absurd rfl hne⟩
    · rw [hself, hstep, ← hsame]
      rfl
    · intro limit _
      rw [cut, hself, hstep, hstep]
      rfl
  · have hunlimited : m.step = report.on (m.console.put bytes) := by
      rw [hself, hstep, Console.print_unlimited hu]
    refine ⟨bytes, ?_, ?_, ?_⟩
    · rw [hunlimited]
      rfl
    · intro limit hfits
      have hw : m.console.sink.written.size ≤ limit := by
        have hsize := Sink.size_put m.console.sink bytes
        exact Nat.le_trans (by omega) (hsize ▸ hfits)
      rw [cut, hstep, Console.print_cut hw, if_pos hfits, hunlimited]
      rfl
    · intro _ c
      rw [hstep, hunlimited]
      rfl
  · have hsink := m.console.sink_readNumber
    refine ⟨[], ?_, ?_, fun hne => absurd rfl hne⟩
    · rw [hself, hstep, ← hsame, ← hsink]
      rcases m.console.readNumber with ⟨fault | value, c⟩ <;> rfl
    · intro limit _
      rw [cut, hself, hstep, hstep, Console.readNumber_cut hu]
      rcases m.console.readNumber with ⟨fault | value, c⟩ <;> rfl

/-- Without a limit nothing that was printed is lost, and there is no limit after a step, either. -/
theorem step_unlimited (hu : m.console.Unlimited) :
    m.step.machine.console.Unlimited ∧ m.printed.toList <+: m.step.machine.printed.toList := by
  obtain ⟨bytes, hsink, -, -⟩ := step_prints hu
  rw [printed, printed, hsink]
  refine ⟨⟨?_, ?_⟩, ?_⟩
  · rw [hsink]
    exact hu.room_eq
  · rw [hsink]
    exact hu.flush_eq
  · simp [Sink.put]

theorem step_within (hu : m.console.Unlimited) (hw : m.step.machine.printed.size ≤ limit) :
    (m.cut limit).step = m.step.cut limit := by
  obtain ⟨bytes, hsink, hfits, -⟩ := step_prints hu
  apply hfits
  rw [printed, hsink] at hw
  exact hw

/-- The machine at a step that prints past the limit, once the console is full. -/
def blocked (limit : Nat) (m : Machine) : Machine :=
  m.on ⟨m.console.source, m.step.machine.console.sink.cut limit⟩

/-- The step that prints past the limit fails, and so it does when it is taken again. -/
theorem step_past (hu : m.console.Unlimited) (hw : m.printed.size ≤ limit)
    (hpast : limit < m.step.machine.printed.size) :
    (m.cut limit).step = ⟨m.blocked limit, .error (.output .full), none⟩ ∧
      (m.blocked limit).step = ⟨m.blocked limit, .error (.output .full), none⟩ := by
  obtain ⟨bytes, hsink, -, hprints⟩ := step_prints hu
  have hblocked : m.blocked limit = m.on ((m.console.put bytes).cut limit) := by
    rw [blocked, hsink]
    rfl
  rw [printed, hsink] at hpast
  have hfull : ¬ (m.console.put bytes).sink.written.size ≤ limit := Nat.not_le.mpr hpast
  have hne : bytes ≠ [] := by
    rintro rfl
    rw [Sink.size_put] at hpast
    exact absurd hpast (Nat.not_lt.mpr hw)
  constructor
  · rw [cut, hprints hne, Console.print_cut hw, if_neg hfull, hblocked]
  · rw [hblocked, hprints hne, Console.print_full (Nat.le_of_lt hpast) hne]

theorem after_unlimited (hu : m.console.Unlimited) (count : Nat) :
    (m.after count).console.Unlimited := by
  induction count with
  | zero => exact hu
  | succ count ih => exact (step_unlimited ih).1

theorem printed_grows (hu : m.console.Unlimited) {i j : Nat} (h : i ≤ j) :
    (m.after i).printed.toList <+: (m.after j).printed.toList := by
  induction h with
  | refl => exact List.prefix_rfl
  | step _ ih => exact ih.trans (step_unlimited (after_unlimited hu _)).2

theorem size_printed_mono (hu : m.console.Unlimited) {i j : Nat} (h : i ≤ j) :
    (m.after i).printed.size ≤ (m.after j).printed.size := by
  simpa using (printed_grows hu h).length_le

/-- As long as the limit is kept, the two machines are the same but for the room that is left. -/
theorem after_within (hu : m.console.Unlimited) {count : Nat}
    (hw : (m.after count).printed.size ≤ limit) :
    (m.cut limit).after count = (m.after count).cut limit := by
  induction count with
  | zero => rfl
  | succ count ih =>
    have hbefore := ih (Nat.le_trans (size_printed_mono hu (Nat.le_succ count)) hw)
    rw [after, hbefore, step_within (after_unlimited hu count) hw]
    rfl

theorem after_past (hu : m.console.Unlimited) {count : Nat}
    (hw : (m.after count).printed.size ≤ limit)
    (hpast : limit < (m.after (count + 1)).printed.size) (more : Nat) :
    (m.cut limit).after (count + 1 + more) = (m.after count).blocked limit := by
  obtain ⟨hfirst, hagain⟩ := step_past (after_unlimited hu count) hw hpast
  induction more with
  | zero => rw [Nat.add_zero, after, after_within hu hw, hfirst]
  | succ more ih => rw [← Nat.add_assoc, after, ih, hagain]

/-- If the limit is not kept, there is a step that prints past it. -/
theorem exists_past (hw : m.printed.size ≤ limit) {count : Nat}
    (hpast : limit < (m.after count).printed.size) :
    ∃ k < count, (m.after k).printed.size ≤ limit ∧ limit < (m.after (k + 1)).printed.size := by
  induction count with
  | zero => exact absurd hpast (Nat.not_lt.mpr hw)
  | succ count ih =>
    by_cases hk : (m.after count).printed.size ≤ limit
    · exact ⟨count, Nat.lt_succ_self count, hk, hpast⟩
    · obtain ⟨k, hlt, hfound⟩ := ih (Nat.not_le.mp hk)
      exact ⟨k, Nat.lt_succ_of_lt hlt, hfound⟩

/-- However many steps are taken, the bytes printed under a limit are the first of those printed
without one. -/
theorem printed_cut (hu : m.console.Unlimited) (hw : m.printed.size ≤ limit) (count : Nat) :
    ((m.cut limit).after count).printed.toList = (m.after count).printed.toList.take limit := by
  by_cases hc : (m.after count).printed.size ≤ limit
  · rw [after_within hu hc]
    exact Sink.toList_cut limit _
  · obtain ⟨k, hk, hwithin, hpast⟩ := exists_past hw (Nat.not_le.mp hc)
    obtain ⟨more, rfl⟩ := Nat.exists_eq_add_of_le (Nat.succ_le_of_lt hk)
    obtain ⟨later, hlater⟩ := printed_grows hu (Nat.le_add_right (k + 1) more)
    rw [after_past hu hwithin hpast, ← hlater, List.take_append_of_le_length]
    · exact Sink.toList_cut limit _
    · rw [Array.length_toList]
      exact Nat.le_of_lt hpast

/-- Whether a machine can be made, and what it is apart from its console, does not depend on the
console. -/
theorem start_on (program : Program) (sizes : Sizes) (c c' : Console) :
    start program sizes c' = (start program sizes c).map fun m => m.on c' := by
  simp only [start, bind, Except.bind]
  cases sizes.validate with
  | error fault => rfl
  | ok _ =>
    cases zeroCells "memory" sizes.memory with
    | error fault => rfl
    | ok memory =>
      cases Registers.make sizes.registers with
      | error fault => rfl
      | ok registers => cases Screen.make sizes.screenWidth sizes.screenHeight <;> rfl

/-- A sink with room for so many bytes changes nothing before a step prints past them: up to there,
every step ends as it does without a limit, and the machines are the same but for the room left.
The step that prints past the limit fails and leaves all as it was but for the sink, which it fills
up, and every later step does the same. So what the sink holds are always the first of the bytes
that are printed without a limit. -/
theorem limit_cuts_output {program : Program} {sizes : Sizes} {source : Source} {m₀ : Machine}
    (hs : start program sizes ⟨source, ⟨#[], none, false⟩⟩ = .ok m₀) (limit : Nat) :
    ∃ n₀, start program sizes ⟨source, ⟨#[], some limit, false⟩⟩ = .ok n₀ ∧
      (∀ count, (m₀.after count).printed.size ≤ limit →
        (∀ k < count, (n₀.after k).step.result = (m₀.after k).step.result) ∧
          n₀.after count = (m₀.after count).cut limit) ∧
      (∀ count, (m₀.after count).printed.size ≤ limit →
        limit < (m₀.after (count + 1)).printed.size → ∀ later ≥ count,
          (n₀.after later).step.result = .error (.output .full) ∧
            n₀.after (later + 1) = (n₀.after count).on ⟨(n₀.after count).console.source,
              (m₀.after (count + 1)).console.sink.cut limit⟩) ∧
      ∀ count, (n₀.after count).printed.toList = (m₀.after count).printed.toList.take limit := by
  have hconsole : m₀.console = ⟨source, ⟨#[], none, false⟩⟩ := by
    obtain ⟨-, -, _, _, _, -, -, -, rfl⟩ := start_eq hs
    rfl
  have hu : m₀.console.Unlimited := by
    rw [hconsole]
    exact ⟨rfl, rfl⟩
  have hw : m₀.printed.size ≤ limit := by
    rw [printed, hconsole]
    exact Nat.zero_le limit
  have hcut : m₀.console.cut limit = ⟨source, ⟨#[], some limit, false⟩⟩ := by
    rw [hconsole]
    simp [Console.cut, Sink.cut]
  refine ⟨m₀.cut limit, ?_, ?_, ?_, printed_cut hu hw⟩
  · rw [start_on program sizes ⟨source, ⟨#[], none, false⟩⟩, hs, cut, hcut]
    rfl
  · intro count hc
    refine ⟨?_, after_within hu hc⟩
    intro k hk
    have hbefore := Nat.le_trans (size_printed_mono hu hk.le) hc
    have hafter := Nat.le_trans (size_printed_mono hu (Nat.succ_le_of_lt hk)) hc
    rw [after_within hu hbefore, step_within (after_unlimited hu k) hafter]
    rfl
  · intro count hc hpast later hl
    obtain ⟨hfirst, hagain⟩ := step_past (after_unlimited hu count) hc hpast
    obtain ⟨more, rfl⟩ := Nat.exists_eq_add_of_le hl
    constructor
    · cases more with
      | zero => rw [Nat.add_zero, after_within hu hc, hfirst]
      | succ more =>
        rw [← Nat.add_assoc, Nat.add_right_comm, after_past hu hc hpast, hagain]
    · rw [Nat.add_right_comm, after_past hu hc hpast, after_within hu hc]
      rfl

/-- A number of three digits is printed twice where there is room for four bytes. -/
theorem limit_cuts_output_digits :
    ∃ m₀ n₀ : Machine,
      start (.ofBody #[8, 123, 0, 0, 0, 80, 80, 0]) ⟨1, 1, 1, 1, 0, 0, 1⟩
        ⟨⟨[], false⟩, ⟨#[], none, false⟩⟩ = .ok m₀ ∧
      start (.ofBody #[8, 123, 0, 0, 0, 80, 80, 0]) ⟨1, 1, 1, 1, 0, 0, 1⟩
        ⟨⟨[], false⟩, ⟨#[], some 4, false⟩⟩ = .ok n₀ ∧
      (m₀.after 2).printed.size = 3 ∧ (m₀.after 3).printed.size = 6 ∧
      n₀.after 2 = (m₀.after 2).cut 4 ∧ (n₀.after 2).step.result = .error (.output .full) ∧
      (n₀.after 3).store = (n₀.after 2).store ∧ (n₀.after 3).printed.toList = [49, 50, 51, 49] := by
  obtain ⟨m₀, hs, htwo, hthree, hfirst⟩ : ∃ m₀ : Machine,
      start (.ofBody #[8, 123, 0, 0, 0, 80, 80, 0]) ⟨1, 1, 1, 1, 0, 0, 1⟩
        ⟨⟨[], false⟩, ⟨#[], none, false⟩⟩ = .ok m₀ ∧ (m₀.after 2).printed.size = 3 ∧
      (m₀.after 3).printed.size = 6 ∧ (m₀.after 3).printed.toList.take 4 = [49, 50, 51, 49] :=
    ⟨_, rfl, by decide +kernel, by decide +kernel, by decide +kernel⟩
  obtain ⟨n₀, hn, hwithin, hpast, hprinted⟩ := limit_cuts_output hs 4
  have hroom : (m₀.after 2).printed.size ≤ 4 := by omega
  have hover : 4 < (m₀.after 3).printed.size := by omega
  obtain ⟨hfails, hblocked⟩ := hpast 2 hroom hover 2 (Nat.le_refl 2)
  refine ⟨m₀, n₀, hs, hn, htwo, hthree, (hwithin 2 hroom).2, hfails, ?_, ?_⟩
  · simpa using congrArg Machine.store hblocked
  · rw [hprinted, hfirst]

end Machine

end StackMachine
