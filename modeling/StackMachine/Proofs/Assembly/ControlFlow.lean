import StackMachine.Proofs.Assembly.Layout
import StackMachine.Proofs.Machine.Atomic
import StackMachine.Proofs.Machine.Flow

namespace StackMachine

/-- Some lines are assembled without remarks to a program that is not empty, and no branch in them
has a number for its target. -/
structure Linked (limits : Limits) (lines : List String) (a : Assembly) : Prop where
  assembled : assemble limits lines = .ok a
  body_lt : limits.body < 2 ^ 31
  warnings_eq : a.warnings = #[]
  filled : a.program.isEmpty = false
  labelled : ∀ line ∈ lines, ∀ i text, Statement.ofSource line = .instruction i text →
    i.isBranch = true → Text.int32? (Text.firstWord text) = none

/-- A fault of code that is not what assembly made. -/
def Fault.Misread : Fault → Prop
  | .invalidInstruction _ _ => True
  | .invalidMode _ _ _ => True
  | .unexpectedEnd _ _ _ => True
  | .unresolvedBranch _ _ => True
  | _ => False

theorem Decoded.Raises.not_misread {d : Decoded} {fault : Fault} (h : d.Raises fault)
    (hd : d.instruction.isBranch = true → d.payload ≠ 0) : ¬ fault.Misread := by
  cases fault with
  | invalidInstruction byte offset => exact absurd h id
  | invalidMode i mode offset => exact absurd h id
  | unexpectedEnd offset requested available => exact absurd h id
  | unresolvedBranch i offset => exact absurd h.2 (hd h.1)
  | _ => exact id

/-- A branch without remarks goes to a label that is known and does not stand right behind it. -/
theorem Instruction.readTarget_ok {i : Instruction} {labels : Labels} {text : List Char}
    {next : Nat} (hn : Text.int32? (Text.firstWord text) = none)
    (hr : (i.readTarget labels text next).2 = []) :
    ∃ address, labels.get? (Text.firstWord text) = some address ∧
      (i.readTarget labels text next).1 = Int32.ofInt ((address : Int) - next) ∧
      (address : Int) - next ≠ 0 := by
  simp only [readTarget, hn] at hr ⊢
  split at hr
  · cases hr
  · rename_i hword
    split at hr
    · rename_i address hget
      refine ⟨address, hget, by simp only [hword]; rfl, ?_⟩
      intro hzero
      simp [hzero] at hr
    · cases hr

section Linked

variable {limits : Limits} {lines : List String} {a : Assembly}

theorem Linked.size_lt (h : Linked limits lines a) :
    a.program.size < Program.headerSize + 2 ^ 31 := by
  obtain ⟨hsize, hle⟩ := size_of_assemble h.assembled
  have hlt := h.body_lt
  omega

/-- Each place that control can go to is an emitted instruction or the end of the program. -/
theorem Linked.emitted_of_lt (h : Linked limits lines a) {offset : Nat}
    (hb : Boundary lines offset) (hlt : offset < a.program.size) :
    ∃ i text labels, Emitted limits lines i text offset labels := by
  rcases hb.emitted_or_end h.assembled with he | hend
  · exact he
  · omega

/-- The distance of a branch leads from behind it to its label. -/
theorem Linked.branch (h : Linked limits lines a) {i : Instruction} {text : List Char}
    {offset : Nat} {labels : Labels} (he : Emitted limits lines i text offset labels)
    (hb : i.isBranch = true) :
    ∃ address, labels.get? (Text.firstWord text) = some address ∧ Boundary lines address ∧
      (i.coded labels text offset).payload ≠ 0 ∧
      ((offset + i.size : Nat) : Int) + (i.coded labels text offset).payload.toInt = address := by
  have hargument : i.argument = some .displacement := by simpa [Instruction.isBranch] using hb
  have hword : Text.int32? (Text.firstWord text) = none := by
    obtain ⟨before, line, after, hl, hs, -, -⟩ := he
    exact h.labelled line (by simp [hl]) i text hs hb
  obtain ⟨-, hnext, hlabels⟩ := he.boundary h.assembled
  have hremarks := (he.read h.assembled).2 h.warnings_eq
  simp only [Instruction.encode, hargument] at hremarks
  obtain ⟨address, hget, hdistance, hne⟩ := Instruction.readTarget_ok hword hremarks
  have haddress := hlabels.get hget
  refine ⟨address, hget, haddress, ?_⟩
  have hlt := h.size_lt
  have hfrom := hnext.bounds h.assembled
  have hto := haddress.bounds h.assembled
  have hpayload : (i.coded labels text offset).payload.toInt =
      (address : Int) - (offset + i.size : Nat) := by
    simp only [Instruction.coded, hargument, hdistance]
    exact Int32.toInt_ofInt_of_le (by omega) (by omega)
  refine ⟨?_, by omega⟩
  intro hzero
  rw [hzero] at hpayload
  exact hne hpayload.symm

/-- Where a step leads from an emitted instruction. A step that ends well goes to the label of a
branch that is taken, to the word on top of the call stack, or to the next instruction. -/
structure Machine.Follows (m : Machine) (p : PlainStore) (limits : Limits) (lines : List String)
    (a : Assembly) (i : Instruction) (text : List Char) (labels : Labels) : Prop where
  moved : ∀ distance, m.step.result = .ok (.shift distance) →
    (m.step.machine.ip : Int) = m.ip + distance ∧
      ∃ i' text' labels', Emitted limits lines i' text' m.step.machine.ip labels'
  jumped : ∀ distance, m.step.result = .ok (.shift distance) → i.Jumps p.data →
    labels.get? (Text.firstWord text) = some m.step.machine.ip
  returned : ∀ distance, m.step.result = .ok (.shift distance) → i = .ret →
    ∃ word rest, p.calls = word :: rest ∧ word.toInt = m.step.machine.ip
  passed : ∀ distance, m.step.result = .ok (.shift distance) → ¬ i.Jumps p.data → i ≠ .ret →
    m.step.machine.ip = m.ip + i.size
  halted : m.step.result = .ok .halt → i = .halt ∧ m.step.machine.ip = m.ip
  failed : ∀ fault, m.step.result = .error fault → m.step.machine.ip = m.ip ∧ ¬ fault.Misread ∧
    ∀ target source, fault = .targetOutside target source → target = a.program.size

section Follows

variable {m : Machine} {p : PlainStore} {i : Instruction} {text : List Char} {labels : Labels}

theorem Machine.Follows.of_error {fault : Fault} (hs : m.step.result = .error fault)
    (hip : m.step.machine.ip = m.ip) (hm : ¬ fault.Misread)
    (ho : ∀ target source, fault = .targetOutside target source → target = a.program.size) :
    m.Follows p limits lines a i text labels := by
  refine ⟨?_, ?_, ?_, ?_, ?_, ?_⟩ <;> simp only [hs]
  case refine_6 =>
    rintro fault' ⟨⟩
    exact ⟨hip, hm, ho⟩
  all_goals nofun

theorem Machine.Follows.of_halt (hi : i = .halt) (hs : m.step.result = .ok .halt)
    (hip : m.step.machine.ip = m.ip) : m.Follows p limits lines a i text labels := by
  refine ⟨?_, ?_, ?_, ?_, ?_, ?_⟩ <;> simp only [hs]
  case refine_5 => exact fun _ => ⟨hi, hip⟩
  all_goals nofun

/-- Control that goes to a boundary gets there, but for the end of the program. -/
theorem Linked.follows_of_boundary (h : Linked limits lines a) (hm : m.program = a.program)
    {store : Store} {console : Console} {event : Option Event} {offset : Nat}
    (hb : Boundary lines offset)
    (hs : m.step =
      let (result, next) := Machine.advance { m with store, console } (some (offset : Int))
      ⟨next, result, event⟩)
    (hj : i.Jumps p.data → labels.get? (Text.firstWord text) = some offset)
    (hr : i = .ret → ∃ word rest, p.calls = word :: rest ∧ word.toInt = offset)
    (hn : ¬ i.Jumps p.data → i ≠ .ret → offset = m.ip + i.size) :
    m.Follows p limits lines a i text labels := by
  obtain ⟨hlow, hhigh⟩ := hb.bounds h.assembled
  obtain ⟨hnone, -⟩ | ⟨t, ht, hout, ha⟩ | ⟨t, ht, -, hin, ha⟩ :=
    Machine.advance_cases { m with store, console } (some (offset : Int))
  · cases hnone
  · cases ht
    rw [ha] at hs
    simp only [hm] at hout
    have hend : offset = a.program.size := by omega
    refine .of_error (by rw [hs]) (by rw [hs]) id ?_
    rintro target source ⟨⟩
    rw [hend]
  · cases ht
    rw [ha] at hs
    simp only [hm] at hin
    have hlt : offset < a.program.size := by omega
    refine ⟨?_, ?_, ?_, ?_, ?_, ?_⟩ <;> simp only [hs, Int.toNat_natCast]
    case refine_1 =>
      rintro distance ⟨⟩
      exact ⟨by omega, h.emitted_of_lt hb hlt⟩
    case refine_2 => exact fun _ _ => hj
    case refine_3 => exact fun _ _ => hr
    case refine_4 => exact fun _ _ => hn
    all_goals nofun

/-- What the source emits at the place of a machine is what the machine fetches, if it has the
inputs. -/
theorem Linked.fetch (h : Linked limits lines a) (hm : m.program = a.program)
    (he : Emitted limits lines i text m.ip labels) :
    m.fetch = if m.store.data.size.toNat < i.inputs then .error (.stackUnderflow i m.ip)
      else .ok ((i.coded labels text m.ip).decoded m.ip) := by
  have hread := (he.read h.assembled).1
  rw [← hm] at hread
  simpa [Coded.decoded] using Machine.fetch_of_read hread

/-- A word on the call stack was there before, or it is behind the call that was carried out in this
step. -/
def Machine.Remembers (m : Machine) (p : PlainStore) (i : Instruction) (word : Int64) : Prop :=
  word ∈ p.calls ∨ i = .call ∧
    (∃ operands calls, m.step.event = some (.executed .call m.ip operands calls)) ∧
    word.toInt = (m.ip + Instruction.call.size : Nat)

/-- An instruction that is carried out leads where the source says. -/
theorem Linked.follows_of_goes (h : Linked limits lines a) (hm : m.program = a.program)
    (he : Emitted limits lines i text m.ip labels)
    (hcalls : ∀ word ∈ p.calls, ∃ offset : Nat, Boundary lines offset ∧ word.toInt = offset)
    {d : Decoded} (hd : d = (i.coded labels text m.ip).decoded m.ip) {flow : Flow}
    {calls : List Int64} (hgoes : d.Goes p flow calls) {store : Store} {console : Console}
    {event : Option Event}
    (hs : m.step =
      let (result, next) := Machine.advance { m with store, console } (Machine.target? d flow)
      ⟨next, result, event⟩) :
    m.Follows p limits lines a i text labels := by
  obtain ⟨-, hnext, -⟩ := he.boundary h.assembled
  have hi : d.instruction = i := by rw [hd]; exact i.instruction_coded _ _ _
  have hdnext : d.next = m.ip + i.size := by rw [hd]; simp [Coded.decoded]
  have hpayload : d.payload = (i.coded labels text m.ip).payload := by rw [hd]; rfl
  have hbranch (hj : i.Jumps p.data) : ∃ address, labels.get? (Text.firstWord text) = some address ∧
      Boundary lines address ∧ Machine.target? d (.jump d.payload) = some (address : Int) := by
    obtain ⟨address, hget, hb, -, hsum⟩ := h.branch he (PlainStore.isBranch_of_jumps hj)
    exact ⟨address, hget, hb, by rw [Machine.target?, hdnext, hpayload, hsum]⟩
  cases hgoes with
  | next hj hr hh =>
    rw [hi] at hj hr
    have htarget : Machine.target? d .next = some ((m.ip + i.size : Nat) : Int) := by
      rw [Machine.target?, hdnext]
    rw [htarget] at hs
    exact h.follows_of_boundary hm hnext hs (fun hj' => absurd hj' hj) (fun hr' => absurd hr' hr)
      fun _ _ => rfl
  | jump hj hc =>
    rw [hi] at hj
    obtain ⟨address, hget, hb, htarget⟩ := hbranch hj
    rw [htarget] at hs
    refine h.follows_of_boundary hm hb hs (fun _ => hget) ?_ fun hn => absurd hj hn
    rintro rfl
    exact absurd hj id
  | call hc =>
    rw [hi] at hc
    obtain ⟨address, hget, hb, htarget⟩ := hbranch (by rw [hc]; trivial)
    rw [htarget] at hs
    refine h.follows_of_boundary hm hb hs (fun _ => hget) ?_ ?_
    · intro hr
      rw [hc] at hr
      cases hr
    · intro hn
      rw [hc] at hn
      exact absurd trivial hn
  | back target _ hr hp =>
    rw [hi] at hr
    obtain ⟨offset, hb, hword⟩ := hcalls target (by simp [hp])
    have htarget : Machine.target? d (.goto target.toInt) = some (offset : Int) := by
      rw [Machine.target?, hword]
    rw [htarget] at hs
    refine h.follows_of_boundary hm hb hs ?_ (fun _ => ⟨target, calls, hp, hword⟩)
      fun _ hn => absurd hr hn
    rw [hr]
    exact fun hj => absurd hj id
  | halt hh =>
    rw [hi] at hh
    exact .of_halt hh (by rw [hs]; rfl) (by rw [hs]; rfl)

theorem Machine.remembers_of_goes {d : Decoded} {flow : Flow} {calls : List Int64}
    (hgoes : d.Goes p flow calls) (hn : d.next = m.ip + d.instruction.size)
    (hlt : d.next < 2 ^ 63) {operands depth : Nat}
    (hs : m.step.event = some (.executed d.instruction m.ip operands depth)) :
    ∀ word ∈ calls, m.Remembers p d.instruction word := by
  intro word hw
  cases hgoes with
  | call hc =>
    rcases List.mem_cons.mp hw with rfl | hw
    · rw [hc] at hs hn
      refine .inr ⟨hc, ⟨operands, depth, hs⟩, ?_⟩
      rw [← hn]
      exact Int64.toInt_ofNat_of_lt hlt
    · exact .inl hw
  | back target _ hr hp =>
    left
    rw [hp]
    exact List.mem_cons_of_mem _ hw
  | next | jump | halt => exact .inl hw

/-- One step from an emitted instruction with nothing but boundaries on the call stack. -/
theorem Linked.step (h : Linked limits lines a) (hm : m.program = a.program)
    (he : Emitted limits lines i text m.ip labels) (hold : m.store.Holds p) (hf : m.Fits)
    (hcalls : ∀ word ∈ p.calls, ∃ offset : Nat, Boundary lines offset ∧ word.toInt = offset) :
    m.Follows p limits lines a i text labels ∧
      ∃ q, m.step.machine.store.Holds q ∧ ∀ word ∈ q.calls, m.Remembers p i word := by
  have hfetch := h.fetch hm he
  have hdecoded {d : Decoded} (hd : m.fetch = .ok d) :
      d = (i.coded labels text m.ip).decoded m.ip := by
    rw [hfetch] at hd
    split at hd
    · cases hd
    · exact (Except.ok.inj hd).symm
  obtain ⟨fault, hd, hs⟩ | ⟨d, fault, c, hd, hp, hs⟩ | ⟨d, flow, q, store, c, hd, hp, -, hq, hs⟩ :=
    Machine.step_cases hold hf
  · rw [hfetch] at hd
    split at hd
    · cases hd
      refine ⟨.of_error (by rw [hs]) (by rw [hs]) id ?_, p, ?_, fun word hw => .inl hw⟩
      · rintro target source ⟨⟩
      · rw [hs]
        exact hold
    · cases hd
  · have hraises := (PlainStore.shows_of_execute hp).1
    refine ⟨.of_error (by rw [hs]) (by rw [hs]) ?_ ?_, p, ?_, fun word hw => .inl hw⟩
    · apply hraises.not_misread
      rw [hdecoded hd]
      intro hb
      obtain ⟨-, -, -, hne, -⟩ := h.branch he (by simpa [Coded.decoded] using hb)
      exact hne
    · intro target source ht
      exact absurd ht (hraises.inside target source)
    · rw [hs]
      exact hold
  · have hgoes := PlainStore.goes_of_execute hp
    refine ⟨h.follows_of_goes hm he hcalls (hdecoded hd) hgoes hs, q, ?_, ?_⟩
    · rw [hs]
      simp only
      rw [Machine.advance_frame]
      exact hq
    · have hnext : d.next = m.ip + d.instruction.size := by
        rw [hdecoded hd]
        rfl
      have hlt : m.ip + d.instruction.size ≤ a.program.size := by
        obtain ⟨-, hb, -⟩ := he.boundary h.assembled
        have hle := (hb.bounds h.assembled).2
        rw [hdecoded hd]
        simpa [Coded.decoded] using hle
      have hi : d.instruction = i := by
        rw [hdecoded hd]
        exact i.instruction_coded _ _ _
      have hsize := h.size_lt
      rw [← hi]
      exact Machine.remembers_of_goes hgoes hnext
        (by simp only [Program.headerSize] at hsize; omega) (by rw [hs])

end Follows

/-- A word is the offset right behind a call that was carried out in one of the first steps. -/
def Machine.CameFrom (m₀ : Machine) (count : Nat) (word : Int64) : Prop :=
  ∃ k < count,
    (∃ operands calls,
      (m₀.after k).step.event = some (.executed .call (m₀.after k).ip operands calls)) ∧
    word.toInt = ((m₀.after k).ip + Instruction.call.size : Nat)

/-- What holds of a machine all the time while it runs a program that some lines are assembled to:
it stands at an emitted instruction, and the words on its call stack are behind calls. -/
structure Machine.Follows.Always (m₀ : Machine) (limits : Limits) (lines : List String)
    (a : Assembly) (count : Nat) (p : PlainStore) : Prop where
  program_eq : (m₀.after count).program = a.program
  emitted : ∃ i text labels, Emitted limits lines i text (m₀.after count).ip labels
  holds : (m₀.after count).store.Holds p
  calls : ∀ word ∈ p.calls, m₀.CameFrom count word ∧
    ∃ offset : Nat, Boundary lines offset ∧ word.toInt = offset

theorem Linked.always (h : Linked limits lines a) {sizes : Sizes} {console : Console}
    {m₀ : Machine} (hs : Machine.start a.program sizes console = .ok m₀) {count : Nat}
    (hf : m₀.FitsFor count) : ∃ p, Machine.Follows.Always m₀ limits lines a count p := by
  induction count with
  | zero =>
    obtain ⟨hprogram, -, hip, -, p, hold, -, hcalls⟩ := Machine.start_holds hs
    have hfirst : Boundary lines m₀.ip := ⟨[], List.nil_prefix, hip⟩
    have hlt : m₀.ip < a.program.size := by
      have hfilled := h.filled
      simp only [Program.isEmpty, decide_eq_false_iff_not] at hfilled
      omega
    exact ⟨p, hprogram, h.emitted_of_lt hfirst hlt, hold, by simp [hcalls]⟩
  | succ count ih =>
    obtain ⟨p, hm, ⟨i, text, labels, he⟩, hold, hcalls⟩ := ih (hf.of_le (Nat.le_succ count))
    have hfits := hf count (Nat.le_succ count)
    obtain ⟨hfollows, q, hq, hwords⟩ :=
      h.step hm he hold hfits fun word hw => (hcalls word hw).2
    refine ⟨q, (Machine.step_holds hold hfits).1.trans hm, ?_, hq, ?_⟩
    -- Only a step that goes on moves the machine, and that takes it to an emitted instruction.
    · cases hr : (m₀.after count).step.result with
      | error fault =>
        rw [Machine.after, (hfollows.failed fault hr).1]
        exact ⟨i, text, labels, he⟩
      | ok advance =>
        cases advance with
        | shift distance => exact (hfollows.moved distance hr).2
        | halt =>
          rw [Machine.after, (hfollows.halted hr).2]
          exact ⟨i, text, labels, he⟩
    · intro word hw
      rcases hwords word hw with hold | ⟨rfl, hevent, hword⟩
      · obtain ⟨⟨k, hk, hcall⟩, hb⟩ := hcalls word hold
        exact ⟨⟨k, Nat.lt_succ_of_lt hk, hcall⟩, hb⟩
      · obtain ⟨-, hnext, -⟩ := he.boundary h.assembled
        exact ⟨⟨count, Nat.lt_succ_self count, hevent, hword⟩, _, hnext, hword⟩

/-- However many steps a machine takes in a linked program, it stands at an emitted instruction, its
next step follows the source from there, and each word on its call stack is right behind a call
that it carried out. -/
theorem assembled_control_flow_exact (h : Linked limits lines a) {sizes : Sizes}
    {console : Console} {m₀ : Machine} (hs : Machine.start a.program sizes console = .ok m₀)
    {count : Nat} (hf : m₀.FitsFor count) :
    ∃ p i text labels, (m₀.after count).store.Holds p ∧
      Emitted limits lines i text (m₀.after count).ip labels ∧
      (m₀.after count).Follows p limits lines a i text labels ∧
      ∀ word ∈ p.calls, m₀.CameFrom count word := by
  obtain ⟨p, hm, ⟨i, text, labels, he⟩, hold, hcalls⟩ := h.always hs hf
  obtain ⟨hfollows, -⟩ :=
    h.step hm he hold (hf count (Nat.le_refl count)) fun word hw => (hcalls word hw).2
  exact ⟨p, i, text, labels, hold, he, hfollows, fun word hw => (hcalls word hw).1⟩

/-- A call goes to its label, and the word on the call stack is behind it. -/
theorem assembled_control_flow_exact_call :
    ∃ a m₀, assemble ⟨1, 7⟩ ["CALL F", "END", "HERE F", "RET"] = .ok a ∧
      Machine.start a.program ⟨1, 1, 1, 1, 0, 0, 1⟩ ⟨⟨[], false⟩, ⟨#[], none, false⟩⟩ = .ok m₀ ∧
      m₀.FitsFor 1 ∧ (m₀.after 1).ip = 22 ∧
      ∃ p, (m₀.after 1).store.Holds p ∧ ∀ word ∈ p.calls, m₀.CameFrom 1 word := by
  have hassembled : assemble ⟨1, 7⟩ ["CALL F", "END", "HERE F", "RET"] =
      .ok ⟨.ofBody #[64, 1, 0, 0, 0, 0, 68], #[⟨"CALL F", 16, [64, 1, 0, 0, 0]⟩, ⟨"END", 21, [0]⟩,
        ⟨"HERE F", 22, []⟩, ⟨"RET", 22, [68]⟩], #[]⟩ := by decide +kernel
  have hlabelled : ∀ line ∈ ["CALL F", "END", "HERE F", "RET"], ∀ i text,
      Statement.ofSource line = .instruction i text → i.isBranch = true →
      Text.int32? (Text.firstWord text) = none := by
    have hcall : Statement.ofSource "CALL F" = .instruction .call ['F'] := by decide +kernel
    have hend : Statement.ofSource "END" = .instruction .halt [] := by decide +kernel
    have hhere : Statement.ofSource "HERE F" = .label ['F'] := by decide +kernel
    have hret : Statement.ofSource "RET" = .instruction .ret [] := by decide +kernel
    intro line hl i text hs hb
    simp only [List.mem_cons, List.not_mem_nil, or_false] at hl
    rcases hl with rfl | rfl | rfl | rfl
    · cases hcall.symm.trans hs
      decide
    · cases hend.symm.trans hs
      cases hb
    · cases hhere.symm.trans hs
    · cases hret.symm.trans hs
      cases hb
  have hlinked := Linked.mk hassembled (by decide) rfl (by decide) hlabelled
  have hrun {m₀ : Machine} (hs : Machine.start (.ofBody #[64, 1, 0, 0, 0, 0, 68])
      ⟨1, 1, 1, 1, 0, 0, 1⟩ ⟨⟨[], false⟩, ⟨#[], none, false⟩⟩ = .ok m₀) :
      m₀.FitsFor 1 ∧ ∃ p, (m₀.after 1).store.Holds p ∧ ∀ word ∈ p.calls, m₀.CameFrom 1 word := by
    have hf : m₀.FitsFor 1 := Machine.fitsFor_of_start hs (by decide)
    obtain ⟨p, -, -, -, hold, -, -, hcalls⟩ := assembled_control_flow_exact hlinked hs hf
    exact ⟨hf, p, hold, hcalls⟩
  have hran := hrun rfl
  exact ⟨_, _, hassembled, rfl, hran.1, by decide +kernel, hran.2⟩

end Linked

end StackMachine
