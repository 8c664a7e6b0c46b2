import StackMachine.Proofs.Machine.Printing
import StackMachine.Proofs.Machine.Running
import StackMachine.Proofs.Operand.Longest
import StackMachine.Proofs.Operand.Written
import StackMachine.Proofs.Text.Margins

namespace StackMachine

namespace Bytes

theorem text?_ofChars (text : List Char) :
    text? (ofChars text).toArray = some (String.ofList text) := by
  have hbytes : (⟨(ofChars text).toArray⟩ : ByteArray) = text.utf8Encode := by
    apply ByteArray.ext
    rw [List.utf8Encode, List.data_toByteArray]
    rfl
  rw [text?, String.fromUTF8?, dif_pos ⟨text, hbytes⟩]
  exact congrArg some (String.toByteArray_inj.mp hbytes)

theorem ofChars_inj {s t : List Char} (h : ofChars s = ofChars t) : s = t := by
  have htext := text?_ofChars s
  rw [h, text?_ofChars t] at htext
  exact (String.ofList_injective (Option.some.inj htext)).symm

/-- Only a newline has the byte of one. -/
theorem newline_notMem {text : List Char} (h : '\n' ∉ text) : 0x0A ∉ ofChars text := by
  intro hmem
  obtain ⟨c, hc, hbyte⟩ := List.mem_flatMap.mp hmem
  have hwhole : ofChars [c] = ofChars ['\n'] := by
    simp only [ofChars, List.flatMap_singleton, utf8EncodeChar_of_mem (by decide) hbyte]
    rfl
  obtain rfl : c = '\n' := List.singleton_injective (ofChars_inj hwhole)
  exact h hc

end Bytes

namespace Source

/-- A line is complete if it ends with a newline and has no other. -/
def Complete (line : List UInt8) : Prop :=
  ∃ text, 0x0A ∉ text ∧ line = text ++ [0x0A]

/-- The source with some lines in front. -/
def behind (s : Source) (lines : List (List UInt8)) : Source :=
  { s with pending := lines.flatten ++ s.pending }

def textOf (line : List UInt8) : Except DeviceFault String :=
  match Bytes.text? line.toArray with
  | some text => .ok text
  | none => .error .notText

theorem cutLine_complete {line : List UInt8} (h : Complete line) (rest : List UInt8) :
    cutLine (line ++ rest) = (line, rest) := by
  obtain ⟨text, hn, rfl⟩ := h
  have hin : ∀ b ∈ text, (b != 0x0A) = true := by
    intro b hb
    simpa using ne_of_mem_of_not_mem hb hn
  have hout : ∀ b ∈ (0x0A :: rest).head?, (b != 0x0A) = false := by simp
  rw [List.append_assoc, List.singleton_append]
  simp only [cutLine, takeWhile_run hin hout, dropWhile_run hin hout]

/-- A complete line is read whatever is behind it, and is all that is read. -/
theorem readLine_complete {line : List UInt8} (h : Complete line) (s : Source)
    (lines : List (List UInt8)) :
    (s.behind (line :: lines)).readLine = (textOf line, s.behind lines) := by
  have hcut := cutLine_complete h (s.behind lines).pending
  have hlast : line.getLast? = some 0x0A := by
    obtain ⟨text, -, rfl⟩ := h
    exact List.getLast?_concat
  have hpending : (s.behind (line :: lines)).pending = line ++ (s.behind lines).pending := by
    simp [behind]
  simp only [readLine, hpending, hcut, hlast, bne_self_eq_false, Bool.and_false,
    Bool.false_eq_true, ↓reduceIte, textOf]
  cases Bytes.text? line.toArray <;> rfl

end Source

namespace Console

/-- What is printed for a number. -/
def written (value : Int32) : List UInt8 :=
  Bytes.ofString (Text.signed value.toInt)

/-- A line has a number as it is printed, with blanks around it or without. -/
def Spells (value : Int32) (line : List UInt8) : Prop :=
  ∃ left right, Text.AllBlank left ∧ '\n' ∉ left ∧ Text.AllBlank right ∧ '\n' ∉ right ∧
    line = Bytes.ofChars left ++ written value ++ Bytes.ofChars right ++ [0x0A]

variable {value : Int32} {line : List UInt8} {lines : List (List UInt8)} {sink : Sink}

theorem Spells.complete (h : Spells value line) : Source.Complete line := by
  obtain ⟨left, right, -, hleft, -, hright, rfl⟩ := h
  refine ⟨_, ?_, rfl⟩
  simp only [List.mem_append, not_or]
  exact ⟨⟨Bytes.newline_notMem hleft, Bytes.newline_notMem (tidy_signed _).newline_notMem⟩,
    Bytes.newline_notMem hright⟩

/-- The number on such a line is the one that was printed. -/
theorem Spells.numberOf (h : Spells value line) :
    ∃ text, Source.textOf line = .ok text ∧ numberOf text = .ok value := by
  obtain ⟨left, right, hleft, -, hright, -, rfl⟩ := h
  have hend : Text.AllBlank (right ++ ['\n']) :=
    List.forall_mem_append.mpr ⟨hright, List.forall_mem_singleton.mpr rfl⟩
  have hbytes : Bytes.ofChars left ++ written value ++ Bytes.ofChars right ++ [0x0A] =
      Bytes.ofChars (left ++ (Text.signed value.toInt).toList ++ (right ++ ['\n'])) := by
    simp only [Bytes.ofChars_append, written, Bytes.ofString, List.append_assoc]
    rfl
  refine ⟨_, by rw [hbytes, Source.textOf, Bytes.text?_ofChars], ?_⟩
  simp only [Console.numberOf, String.toList_ofList, Text.trim_margins hleft hend,
    (tidy_signed _).trim, Text.int32?_signed]

theorem readNumber_spells {c : Console} {s : Source} (h : Spells value line)
    (hs : c.source = s.behind (line :: lines)) (hf : c.flush = .ok ()) :
    c.readNumber = (.ok value, { c with source := s.behind lines }) := by
  obtain ⟨text, htext, hnumber⟩ := h.numberOf
  simp only [readNumber, hf, hs, Source.readLine_complete h.complete, htext, hnumber]

/-- To read a number takes at most one line, and what comes of it does not hang on what is behind
that line. -/
theorem readNumber_complete (h : Source.Complete line) (lines : List (List UInt8)) (sink : Sink) :
    ∃ answer, ∃ taken ≤ 1, ∀ s : Source, readNumber ⟨s.behind (line :: lines), sink⟩ =
      (answer, ⟨s.behind ((line :: lines).drop taken), sink⟩) := by
  cases hflush : sink.flush with
  | error cause =>
    exact ⟨.error (.output cause), 0, Nat.zero_le 1, fun s => by
      simp only [readNumber, flush, hflush, List.drop_zero]⟩
  | ok _ =>
    cases htext : Source.textOf line with
    | error cause =>
      exact ⟨.error (.input cause), 1, Nat.le_refl 1, fun s => by
        simp only [readNumber, flush, hflush, Source.readLine_complete h, htext, List.drop_one,
          List.tail_cons]⟩
    | ok text =>
      exact ⟨numberOf text, 1, Nat.le_refl 1, fun s => by
        simp only [readNumber, flush, hflush, Source.readLine_complete h, htext, List.drop_one,
          List.tail_cons]⟩

end Console

namespace Machine

/-- The machine with another source. -/
def fed (m : Machine) (s : Source) : Machine :=
  m.on ⟨s, m.console.sink⟩

/-- How many of so many steps are there to read a line. -/
def reads (m : Machine) : Nat → Nat
  | 0 => 0
  | count + 1 => m.reads count + (m.after count).readsNext.toNat

end Machine

def Report.fed (r : Report) (s : Source) : Report :=
  { r with machine := r.machine.fed s }

namespace Machine

variable {m : Machine} {lines : List (List UInt8)}

/-- A step takes no line, or one if it is there to read. It does not hang on what is behind that. -/
theorem step_fed (hl : ∀ line ∈ lines, Source.Complete line)
    (hr : m.readsNext = true → lines ≠ []) :
    ∃ report : Report, ∃ taken ≤ m.readsNext.toNat, ∀ s : Source,
      (m.fed (s.behind lines)).step = report.fed (s.behind (lines.drop taken)) := by
  rcases m.step_console with ⟨report, hstep⟩ | ⟨bytes, report, hstep⟩ | ⟨hreads, report, hstep⟩
  · refine ⟨report.on m.console, 0, Nat.zero_le _, fun s => ?_⟩
    rw [fed, hstep]
    rfl
  · rcases hwrite : m.console.sink.write bytes with ⟨cause | _, sink⟩
    · refine ⟨⟨m.on ⟨m.console.source, sink⟩, .error (.output cause), none⟩, 0, Nat.zero_le _,
        fun s => ?_⟩
      rw [fed, hstep]
      simp only [Console.print, hwrite]
      rfl
    · refine ⟨report.on ⟨m.console.source, sink⟩, 0, Nat.zero_le _, fun s => ?_⟩
      rw [fed, hstep]
      simp only [Console.print, hwrite]
      rfl
  · obtain ⟨line, lines, rfl⟩ := List.exists_cons_of_ne_nil (hr hreads)
    obtain ⟨answer, taken, hle, hread⟩ :=
      Console.readNumber_complete (hl line List.mem_cons_self) lines m.console.sink
    rw [hreads]
    cases answer with
    | error fault =>
      refine ⟨⟨m, .error fault, none⟩, taken, hle, fun s => ?_⟩
      rw [fed, hstep, hread]
      rfl
    | ok value =>
      refine ⟨(report value).on m.console, taken, hle, fun s => ?_⟩
      rw [fed, hstep, hread]
      rfl

/-- A step that is not there to read leaves the source alone. -/
theorem source_step (h : m.readsNext = false) :
    m.step.machine.console.source = m.console.source := by
  have hself : m.step = (m.on m.console).step := rfl
  rcases m.step_console with ⟨report, hstep⟩ | ⟨bytes, report, hstep⟩ | ⟨hreads, -⟩
  · rw [hself, hstep]
    rfl
  · rw [hself, hstep]
    rcases hwrite : m.console.sink.write bytes with ⟨cause | _, sink⟩ <;>
      simp only [Console.print, hwrite] <;> rfl
  · cases h.symm.trans hreads

variable {s₀ : Source} {count : Nat}

/-- As long as a machine does not want more than some complete lines, nothing that it does hangs on
what is behind them. -/
theorem after_fed (hl : ∀ line ∈ lines, Source.Complete line)
    (hc : (m.fed (s₀.behind lines)).reads count ≤ lines.length) :
    ∃ next : Machine, ∃ taken ≤ (m.fed (s₀.behind lines)).reads count, ∀ s : Source,
      (m.fed (s.behind lines)).after count = next.fed (s.behind (lines.drop taken)) ∧
        (m.fed (s.behind lines)).reads count = (m.fed (s₀.behind lines)).reads count ∧
        ∀ k < count, ((m.fed (s.behind lines)).after k).step.result =
          ((m.fed (s₀.behind lines)).after k).step.result := by
  induction count with
  | zero => exact ⟨m, 0, Nat.le_refl 0, fun s => ⟨rfl, rfl, nofun⟩⟩
  | succ count ih =>
    rw [reads] at hc
    obtain ⟨next, taken, hle, hbefore⟩ := ih (Nat.le_of_add_right_le hc)
    have hreads (s : Source) :
        ((m.fed (s.behind lines)).after count).readsNext = next.readsNext := by
      rw [(hbefore s).1]
      rfl
    rw [hreads] at hc
    have hrest : next.readsNext = true → lines.drop taken ≠ [] := by
      intro hr
      rw [hr, Bool.toNat_true] at hc
      rw [ne_eq, List.drop_eq_nil_iff]
      omega
    obtain ⟨report, more, hmore, hstep⟩ :=
      step_fed (fun line hline => hl line (List.mem_of_mem_drop hline)) hrest
    refine ⟨report.machine, taken + more, ?_, fun s => ?_⟩
    · rw [reads, hreads]
      exact Nat.add_le_add hle hmore
    obtain ⟨hafter, hcount, hresults⟩ := hbefore s
    refine ⟨?_, ?_, ?_⟩
    · rw [after, hafter, hstep, List.drop_drop]
      rfl
    · rw [reads, reads, hcount, hreads, hreads]
    · intro k hk
      rcases Nat.lt_succ_iff_lt_or_eq.mp hk with hlt | rfl
      · exact hresults k hlt
      · rw [hafter, (hbefore s₀).1, hstep, hstep]
        rfl

variable {p : PlainStore} {d : Decoded} {value : Int32} {values : List Int32}

/-- A number that is read is pushed. -/
theorem read_step {c : Console} (h : m.store.Holds p) (hf : m.Fits) (hd : m.fetch = .ok d)
    (hi : d.instruction = .read) (hc : m.console.readNumber = (.ok value, c)) :
    m.carried? = some d ∧ m.step.machine.values = value :: m.values ∧
      m.step.machine.console = c := by
  have he : p.execute m.callDepth d m.console = (p.push (.ok value), c) := by
    simp only [PlainStore.execute, hi, hc, ↓reduceIte]
  obtain ⟨hcarried, hq, hconsole⟩ := step_of_ok h hf hd he
  exact ⟨hcarried, by rw [values_eq hq, values_eq h], hconsole⟩

/-- Where lines with numbers are left, the number of the first of them is read, and its line is
taken. -/
theorem read_spelled {j : Nat} (h : m.store.Holds p) (hf : m.Fits) (hd : m.fetch = .ok d)
    (hi : d.instruction = .read) (hflush : m.console.flush = .ok ())
    (hv : List.Forall₂ Console.Spells values lines) (hj : j < lines.length)
    (hs : m.console.source = s₀.behind (lines.drop j)) :
    ∃ value, values[j]? = some value ∧ m.carried? = some d ∧
      m.step.machine.values = value :: m.values ∧
      m.step.machine.console.source = s₀.behind (lines.drop (j + 1)) := by
  have hj' : j < values.length := hv.length_eq ▸ hj
  rw [List.drop_eq_getElem_cons hj] at hs
  have hread := Console.readNumber_spells (hv.get hj' hj) hs hflush
  obtain ⟨hcarried, hvalues, hconsole⟩ := read_step h hf hd hi hread
  exact ⟨_, List.getElem?_eq_getElem hj', hcarried, hvalues, by rw [hconsole]⟩

theorem exists_read (h : m.readsNext = true) : ∃ d, m.fetch = .ok d ∧ d.instruction = .read := by
  unfold readsNext at h
  cases hd : m.fetch with
  | error fault => simp [hd, Except.map] at h
  | ok d =>
    simp only [hd, Except.map] at h
    split at h
    · rename_i hi
      exact ⟨d, rfl, Except.ok.inj hi⟩
    · cases h

/-- Lines with numbers are read one after the other, one for each instruction that reads. -/
theorem source_after {m₀ : Machine} (h : m₀.store.Holds p)
    (hs : m₀.console.source = s₀.behind lines) (hflush : m₀.console.flush = .ok ())
    (hv : List.Forall₂ Console.Spells values lines) (hf : m₀.FitsFor count)
    (hc : m₀.reads count ≤ lines.length) :
    (m₀.after count).console.source = s₀.behind (lines.drop (m₀.reads count)) := by
  induction count with
  | zero => exact hs
  | succ count ih =>
    rw [reads] at hc
    have hsource := ih (hf.of_le (Nat.le_succ count)) (Nat.le_of_add_right_le hc)
    rw [after, reads]
    cases hreads : (m₀.after count).readsNext with
    | false => rw [source_step hreads, hsource, Bool.toNat_false, Nat.add_zero]
    | true =>
      rw [hreads, Bool.toNat_true] at hc
      obtain ⟨-, -, q, hold⟩ := after_holds h (hf.of_le (Nat.le_succ count))
      obtain ⟨d, hd, hi⟩ := exists_read hreads
      obtain ⟨-, -, -, -, hrest⟩ := read_spelled hold (hf count (Nat.le_succ count)) hd hi
        ((flush_after m₀ count).trans hflush) hv hc hsource
      rw [hrest, Bool.toNat_true]

/-- A source gives complete lines and then something else. If they have numbers, as machines print
them into their sinks and with blanks around them, they are read in their order, one line for each
instruction that reads, and each of those is carried out and pushes the number of its line. Whatever
the lines are and whatever is behind them, the steps are the same until a machine is to read more of
the source than the lines. -/
theorem reads_lines_in_turn {program : Program} {sizes : Sizes} {sink : Sink} {s : Source}
    {m₀ : Machine} (hl : ∀ line ∈ lines, Source.Complete line)
    (hs : start program sizes ⟨s.behind lines, sink⟩ = .ok m₀) :
    (sink.flush = .ok () → ∀ values, List.Forall₂ Console.Spells values lines →
      ∀ count, m₀.FitsFor count →
        let m := m₀.after count
        let taken := m₀.reads count
        (taken ≤ lines.length → m.console.source = s.behind (lines.drop taken)) ∧
        ∀ d, m.fetch = .ok d →
          (d.instruction = .read → ∀ value, values[taken]? = some value →
            m.carried? = some d ∧ m.step.machine.values = value :: m.values ∧
              m.step.machine.console.source = s.behind (lines.drop (taken + 1))) ∧
          (d.instruction = .print → ∃ value rest, m.values = value :: rest ∧
            m.step.machine.console = (m.console.print (Console.written value)).2 ∧
              m.Prints d (Console.written value))) ∧
    ∀ s' : Source, ∃ n₀, start program sizes ⟨s'.behind lines, sink⟩ = .ok n₀ ∧
      ∀ count, m₀.reads count ≤ lines.length →
        n₀.reads count = m₀.reads count ∧
        (∀ k < count, (n₀.after k).step.result = (m₀.after k).step.result) ∧
        ∃ taken ≤ m₀.reads count,
          (m₀.after count).console.source = s.behind (lines.drop taken) ∧
            n₀.after count = (m₀.after count).fed (s'.behind (lines.drop taken)) := by
  obtain ⟨-, -, -, hconsole, p₀, hold₀, -, -⟩ := start_holds hs
  constructor
  · intro hsink values hv count hf m taken
    have hflush : m₀.console.flush = .ok () := by
      simp only [hconsole, Console.flush, hsink]
    have hsource : m₀.console.source = s.behind lines := by rw [hconsole]
    obtain ⟨-, -, p, hold⟩ := after_holds hold₀ hf
    have hfits : m.Fits := hf count (Nat.le_refl count)
    refine ⟨source_after hold₀ hsource hflush hv hf, fun d hd => ⟨?_, ?_⟩⟩
    · intro hi value hvalue
      obtain ⟨hin, -⟩ := List.getElem?_eq_some_iff.mp hvalue
      rw [hv.length_eq] at hin
      obtain ⟨value', hvalue', hread⟩ := read_spelled hold hfits hd hi
        ((flush_after m₀ count).trans hflush) hv hin
        (source_after hold₀ hsource hflush hv hf (Nat.le_of_lt hin))
      cases hvalue.symm.trans hvalue'
      exact hread
    · intro hi
      have hin := inputs_le_of_fetch hold hd
      rw [hi] at hin
      obtain ⟨value, rest, hp⟩ := List.exists_cons_of_length_pos hin
      have hb : p.printed? d.instruction = some (Console.written value) := by
        rw [hi]
        simp only [PlainStore.printed?, hp]
        rfl
      exact ⟨value, rest, (values_eq hold).trans hp, console_of_printed hold hfits hd hb,
        prints_of_printed hold hfits hd hb⟩
  · intro s'
    have hfed : m₀ = m₀.fed (s.behind lines) := by
      rw [fed, hconsole, ← hconsole]
      rfl
    refine ⟨m₀.fed (s'.behind lines), ?_, ?_⟩
    · rw [start_on program sizes ⟨s.behind lines, sink⟩, hs, fed, hconsole]
      rfl
    · intro count hc
      rw [hfed] at hc
      obtain ⟨next, taken, hle, hafter⟩ := after_fed hl hc
      obtain ⟨hm, -, -⟩ := hafter s
      obtain ⟨hn, hcount, hresults⟩ := hafter s'
      rw [← hfed] at hle hm hcount hresults
      refine ⟨hcount, hresults, taken, hle, by rw [hm]; rfl, ?_⟩
      rw [hn, hm]
      rfl

/-- Two numbers are read, the first with blanks around it, whatever is behind their lines. -/
theorem reads_lines_in_turn_blanks :
    let lines := [Bytes.ofString " -12\t\r\n", Bytes.ofString "2147483647\n"]
    ∃ m₀ n₀ : Machine,
      start (.ofBody #[88, 80, 88, 88]) ⟨1, 1, 1, 1, 0, 0, 1⟩
        ⟨Source.behind ⟨[120], true⟩ lines, ⟨#[], none, false⟩⟩ = .ok m₀ ∧
      start (.ofBody #[88, 80, 88, 88]) ⟨1, 1, 1, 1, 0, 0, 1⟩
        ⟨Source.behind ⟨[], false⟩ lines, ⟨#[], none, false⟩⟩ = .ok n₀ ∧
      List.Forall₂ Console.Spells [-12, 2147483647] lines ∧ m₀.FitsFor 2 ∧ m₀.reads 2 = 1 ∧
      (m₀.after 2).fetch = .ok ⟨18, .read, .immediate, 0, 19⟩ ∧
      (m₀.after 3).values = [2147483647, -12] ∧ (m₀.after 3).console.source = ⟨[120], true⟩ ∧
      (n₀.after 3).store = (m₀.after 3).store := by
  intro lines
  have hfirst : Console.Spells (-12) (Bytes.ofString " -12\t\r\n") :=
    ⟨[' '], ['\t', '\r'], by decide, by decide, by decide, by decide, by decide +kernel⟩
  have hsecond : Console.Spells 2147483647 (Bytes.ofString "2147483647\n") :=
    ⟨[], [], by decide, by decide, by decide, by decide, by decide +kernel⟩
  have hv : List.Forall₂ Console.Spells [-12, 2147483647] lines := .cons hfirst (.cons hsecond .nil)
  have hl : ∀ line ∈ lines, Source.Complete line :=
    List.forall_mem_cons.mpr ⟨hfirst.complete, List.forall_mem_singleton.mpr hsecond.complete⟩
  obtain ⟨m₀, hs, hreads, hmore, hfetch, hvalues⟩ : ∃ m₀ : Machine,
      start (.ofBody #[88, 80, 88, 88]) ⟨1, 1, 1, 1, 0, 0, 1⟩
        ⟨Source.behind ⟨[120], true⟩ lines, ⟨#[], none, false⟩⟩ = .ok m₀ ∧
      m₀.reads 2 = 1 ∧ m₀.reads 3 = 2 ∧
      (m₀.after 2).fetch = .ok ⟨18, .read, .immediate, 0, 19⟩ ∧ (m₀.after 2).values = [-12] :=
    ⟨_, rfl, by decide +kernel, by decide +kernel, by decide +kernel, by decide +kernel⟩
  have hf : m₀.FitsFor 2 := fitsFor_of_start hs (by decide)
  obtain ⟨hnumbers, hsources⟩ := reads_lines_in_turn hl hs
  obtain ⟨-, hsteps⟩ := hnumbers rfl _ hv 2 hf
  obtain ⟨-, hpushed, hsource⟩ := (hsteps _ hfetch).1 rfl 2147483647 (by rw [hreads]; rfl)
  obtain ⟨n₀, hn, hruns⟩ := hsources ⟨[], false⟩
  obtain ⟨-, -, taken, -, -, hafter⟩ := hruns 3 (Nat.le_of_eq hmore)
  have hthird : m₀.after 3 = (m₀.after 2).step.machine := rfl
  rw [hvalues, ← hthird] at hpushed
  rw [hreads, ← hthird] at hsource
  have hstore : (n₀.after 3).store = (m₀.after 3).store := by rw [hafter, fed, store_on]
  exact ⟨m₀, n₀, hs, hn, hv, hf, hreads, hfetch, hpushed, hsource, hstore⟩

end Machine

end StackMachine
