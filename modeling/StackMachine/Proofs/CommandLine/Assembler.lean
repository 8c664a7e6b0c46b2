import StackMachine.Proofs.Assembly.Listing
import StackMachine.Proofs.CommandLine.Folder

namespace StackMachine.CommandLine

open Tool

variable {α β : Type} {f g h : Folder} {a : Arguments} {path : String} {bytes : Array UInt8}

/-- Work that is done in a folder comes to a result and leaves a folder. What else the session holds
makes no difference. -/
def Does (work : Work (StateM Session) α) (f : Folder) (result : Except Fault α) (g : Folder) :
    Prop :=
  ∀ session, session.folder = f →
    ∃ session', work.run.run session = (result, session') ∧ session'.folder = g

/-- Only the records change when something is said. -/
theorem folder_log (a : Arguments) (records : List Journal.Record) (session : Session) :
    ((log Session.host a records).run session).2.folder = session.folder := by
  unfold log
  induction records.filter fun r => (threshold a).admits r.level generalizing session with
  | nil => rfl
  | cons r rest ih => exact ih { session with records := session.records.push r }

namespace Does

variable {work : Work (StateM Session) α} {next : α → Work (StateM Session) β}

theorem bind {value : α} {result : Except Fault β} (hwork : Does work f (.ok value) g)
    (hnext : Does (next value) g result h) : Does (work >>= next) f result h := by
  intro session hsession
  obtain ⟨session₁, hrun, hfolder⟩ := hwork session hsession
  obtain ⟨session₂, hrun', hfolder'⟩ := hnext session₁ hfolder
  refine ⟨session₂, ?_, hfolder'⟩
  rw [ExceptT.run_bind, StateT.run_bind, hrun]
  exact hrun'

theorem bind_error {fault : Fault} (hwork : Does work f (.error fault) g) :
    Does (work >>= next) f (.error fault) g := by
  intro session hsession
  obtain ⟨session₁, hrun, hfolder⟩ := hwork session hsession
  refine ⟨session₁, ?_, hfolder⟩
  rw [ExceptT.run_bind, StateT.run_bind, hrun]
  rfl

theorem pure (value : α) : Does (Pure.pure value) f (.ok value) f :=
  fun session hsession => ⟨session, rfl, hsession⟩

theorem ofExcept (result : Except Fault α) : Does (MonadExcept.ofExcept result) f result f := by
  intro session hsession
  cases result <;> exact ⟨session, rfl, hsession⟩

/-- What is said leaves the folder alone. -/
theorem note (records : List Journal.Record) : Does (note Session.host a records) f (.ok ()) f :=
  fun session hsession => ⟨_, rfl, (folder_log a records session).trans hsession⟩

theorem tell (tool : Tool) (level : Journal.Level) (message : String) :
    Does (tool.tell Session.host a level message) f (.ok ()) f :=
  note _

theorem throw (fault : Fault) : Does (throw fault : Work (StateM Session) α) f (.error fault) f :=
  fun session hsession => ⟨session, rfl, hsession⟩

theorem readFile (path : String) (f : Folder) :
    Does (readFile Session.host path) f ((f.read path).mapError (.file path)) f := by
  have hhost : Does (ExceptT.lift (Session.host.readFile path)) f (.ok (f.read path)) f := by
    rintro session rfl
    exact ⟨session, rfl, rfl⟩
  refine hhost.bind ?_
  cases f.read path with
  | ok bytes => exact .pure bytes
  | error cause => exact .throw (.file path cause)

theorem writeFile_ok (hwrite : f.write path bytes = .ok g) :
    Does (writeFile Session.host path bytes) f (.ok ()) g := by
  have hhost : Does (ExceptT.lift (Session.host.writeFile path bytes)) f (.ok (.ok ())) g := by
    rintro session rfl
    refine ⟨{ session with folder := g }, ?_, rfl⟩
    simp only [Session.host, Session.writeFile, ExceptT.run_lift, StateT.run_map, StateT.run_bind,
      StateT.run_get, pure_bind, hwrite]
    rfl
  exact hhost.bind (.pure ())

theorem writeFile_error {cause : FileFault} (hwrite : f.write path bytes = .error cause) :
    Does (writeFile Session.host path bytes) f (.error (.file path cause)) f := by
  have hhost :
      Does (ExceptT.lift (Session.host.writeFile path bytes)) f (.ok (.error cause)) f := by
    rintro session rfl
    refine ⟨session, ?_, rfl⟩
    simp only [Session.host, Session.writeFile, ExceptT.run_lift, StateT.run_map, StateT.run_bind,
      StateT.run_get, pure_bind, hwrite]
    rfl
  exact hhost.bind (.throw _)

end Does

/-- The lines of a text file. -/
def Folder.lines (f : Folder) (path : String) : Except Fault (List String) :=
  match f.read path with
  | .error cause => .error (.file path cause)
  | .ok bytes =>
    match Bytes.text? bytes with
    | none => .error (.file path .notText)
    | some text => .ok (Text.trimmedLines text)

theorem Does.readLines (path : String) (f : Folder) :
    Does (readLines Session.host path) f (f.lines path) f := by
  have hread := Does.readFile path f
  unfold Tool.readLines Folder.lines
  cases hbytes : f.read path with
  | error cause =>
    rw [hbytes] at hread
    exact hread.bind_error
  | ok bytes =>
    rw [hbytes] at hread
    refine hread.bind ?_
    cases htext : Bytes.text? bytes with
    | none =>
      simp only [htext]
      exact .throw _
    | some text =>
      simp only [htext]
      exact .pure _

/-- A tool exits with 0 if its work came to no fault. -/
theorem Does.runTool {tool : Tool} {arguments : List String} {result : Except Fault Unit}
    (hwork : Does (tool.work Session.host a) f result g)
    (h : tool.interface.read arguments = .accepted a) (input : List UInt8) :
    ∃ session, Session.runTool f tool arguments input = (if result.isOk then 0 else 1, session) ∧
      session.folder = g := by
  obtain ⟨session, hrun, hfolder⟩ := hwork ⟨f, input, #[], #[]⟩ rfl
  rw [Session.runTool, execute, h]
  simp only [StateT.run_bind, hrun]
  cases result with
  | ok done => exact ⟨session, rfl, hfolder⟩
  | error fault => exact ⟨_, rfl, (folder_log a _ session).trans hfolder⟩

namespace Tool

/-- Where the assembler writes the program. -/
def outputPath (a : Arguments) : String :=
  (a.positional? 1).getD "a.bin"

/-- Where the assembler writes the listing, if it does. -/
def listingPath (a : Arguments) : String :=
  (a.value? "listing").getD "listing.txt"

end Tool

namespace Folder

/-- What the input that a command line names is assembled to. -/
def assembled (f : Folder) (a : Arguments) : Except Fault Assembly := do
  let path ← input a
  let lines ← f.lines path
  assemble (limits a) lines

/-- What comes of writing an assembly out, and the folder that is left. -/
def deliver (f : Folder) (a : Arguments) (assembly : Assembly) : Except Fault Unit × Folder :=
  match f.write (outputPath a) assembly.program.bytes with
  | .error cause => (.error (.file (outputPath a) cause), f)
  | .ok g =>
    if a.has "no-listing" then (.ok (), g)
    else
      match g.write (listingPath a) (Bytes.ofString assembly.listingText).toArray with
      | .error cause => (.error (.file (listingPath a) cause), g)
      | .ok h => (.ok (), h)

/-- What the assembler comes to in a folder, and the folder that it leaves. -/
def assembles (f : Folder) (a : Arguments) : Except Fault Unit × Folder :=
  match f.assembled a with
  | .error fault => (.error fault, f)
  | .ok assembly => f.deliver a assembly

end Folder

/-- The assembler writes the program and then the listing, whatever it says about them. -/
theorem does_deliver (f : Folder) (a : Arguments) (assembly : Assembly)
    (message message' : String) :
    Does (do
      writeFile Session.host (outputPath a) assembly.program.bytes
      assembler.tell Session.host a .info message
      unless a.has "no-listing" do
        writeFile Session.host (listingPath a) (Bytes.ofString assembly.listingText).toArray
        assembler.tell Session.host a .info message') f
      (f.deliver a assembly).1 (f.deliver a assembly).2 := by
  unfold Folder.deliver
  cases hwrite : f.write (outputPath a) assembly.program.bytes with
  | error cause => exact (Does.writeFile_error hwrite).bind_error
  | ok g =>
    refine (Does.writeFile_ok hwrite).bind ((Does.tell _ _ _).bind ?_)
    by_cases hlisting : a.has "no-listing"
    · simp only [hlisting, ↓reduceIte]
      exact .pure ()
    · simp only [hlisting, Bool.false_eq_true, ↓reduceIte]
      cases hwrite' : g.write (listingPath a) (Bytes.ofString assembly.listingText).toArray with
      | error cause => exact (Does.writeFile_error hwrite').bind_error
      | ok h => exact (Does.writeFile_ok hwrite').bind (.tell _ _ _)

/-- The assembler writes out what its input is assembled to. A fault in the input is reported, and
nothing is written. -/
theorem does_assembler (f : Folder) (a : Arguments) :
    Does (assembler.work Session.host a) f (f.assembles a).1 (f.assembles a).2 := by
  rw [work, runAssembler, Folder.assembles, Folder.assembled]
  cases input a with
  | error fault => exact (Does.ofExcept _).bind_error
  | ok path =>
    refine (Does.ofExcept _).bind ?_
    have hread := Does.readLines path f
    simp only [bind, Except.bind]
    cases hlines : f.lines path with
    | error fault =>
      rw [hlines] at hread
      exact hread.bind_error
    | ok lines =>
      rw [hlines] at hread
      refine hread.bind ?_
      simp only [assemble]
      rcases (Draft.empty (limits a)).assemble lines with ⟨draft, fault | assembly⟩
      · exact (Does.note _).bind (Does.ofExcept _).bind_error
      · refine (Does.note _).bind ((Does.ofExcept _).bind ?_)
        simp only
        split
        · exact (Does.tell _ _ _).bind (does_deliver f a assembly _ _)
        · exact does_deliver f a assembly _ _

namespace Folder

theorem program_of_assembled {assembly : Assembly} (h : f.assembled a = .ok assembly) :
    ∃ body, assembly.program = .ofBody body := by
  unfold assembled at h
  cases hinput : input a with
  | error fault => simp [hinput, bind, Except.bind] at h
  | ok path =>
    cases hlines : f.lines path with
    | error fault => simp [hinput, hlines, bind, Except.bind] at h
    | ok lines =>
      simp only [hinput, hlines, bind, Except.bind] at h
      obtain ⟨-, d, -, -, rfl⟩ := assemble_eq_ok_iff.mp h
      exact ⟨d.body, rfl⟩

/-- A listing is not taken for a program: it does not start with the magic bytes. -/
theorem listing_ne_program (assembly : Assembly) (body : Array UInt8) :
    (Bytes.ofString assembly.listingText).toArray ≠ (Program.ofBody body).bytes := by
  intro heq
  have hbytes : Bytes.ofString assembly.listingText = Program.header ++ body.toList := by
    rw [← Program.toList_ofBody, ← heq]
  unfold Assembly.listingText at hbytes
  cases hrows : assembly.listing.toList with
  | nil =>
    rw [hrows] at hbytes
    cases hbytes
  | cons row rest =>
    rw [hrows] at hbytes
    have hbar : ∃ later, row.text.toList = '|' :: later := by
      simp only [Row.text, String.toList_append]
      exact ⟨_, rfl⟩
    obtain ⟨later, hbar⟩ := hbar
    simp only [List.map_cons, String.join_cons, Bytes.ofString, String.toList_append,
      hbar] at hbytes
    cases hbytes

theorem deliver_eq_ok_iff {assembly : Assembly} : f.deliver a assembly = (.ok (), h) ↔
    ∃ g, f.write (outputPath a) assembly.program.bytes = .ok g ∧
      if a.has "no-listing" then g = h
      else g.write (listingPath a) (Bytes.ofString assembly.listingText).toArray = .ok h := by
  unfold deliver
  cases f.write (outputPath a) assembly.program.bytes with
  | error cause => simp
  | ok g =>
    by_cases hlisting : a.has "no-listing"
    · simp [hlisting]
    · cases hwrite : g.write (listingPath a) (Bytes.ofString assembly.listingText).toArray <;>
        simp [hlisting, hwrite]

/-- What is found in a folder once an assembly has been written out. The program is there unless the
listing was written over it. -/
theorem read_deliver {assembly : Assembly} {body : Array UInt8}
    (hdone : f.deliver a assembly = (.ok (), h)) (hprogram : assembly.program = .ofBody body) :
    (a.has "no-listing" = false →
      h.read (listingPath a) = .ok (Bytes.ofString assembly.listingText).toArray) ∧
    (h.read (outputPath a) = .ok assembly.program.bytes ↔
      a.has "no-listing" ∨ h.fileName? (outputPath a) ≠ h.fileName? (listingPath a)) := by
  obtain ⟨g, hwrite, hrest⟩ := deliver_eq_ok_iff.mp hdone
  have hread := read_write_self hwrite
  by_cases hlisting : a.has "no-listing"
  · rw [if_pos hlisting] at hrest
    subst hrest
    simp [hlisting, hread]
  · rw [if_neg hlisting] at hrest
    refine ⟨fun _ => read_write_self hrest, ?_⟩
    rw [read_write hrest hread, hprogram]
    by_cases hsame : h.fileName? (outputPath a) = h.fileName? (listingPath a)
    · simp [hlisting, hsame, listing_ne_program]
    · simp [hsame]

/-- Files in the folder itself can be written, where there are no directories. -/
theorem assembles_plain {assembly : Assembly} (h : f.assembled a = .ok assembly)
    (hprogram : Plain (outputPath a)) (hlisting : Plain (listingPath a))
    (hfree : f.under (outputPath a) ≠ .directory) (hfree' : f.under (listingPath a) ≠ .directory) :
    (f.assembles a).1 = .ok () := by
  have hwrite := write_plain hprogram hfree assembly.program.bytes
  have hwrite' := write_plain hlisting (under_putFile_plain hprogram hfree' assembly.program.bytes)
    (Bytes.ofString assembly.listingText).toArray
  simp only [assembles, h, deliver, hwrite, hwrite']
  split <;> rfl

end Folder

/-- If the assembler cannot make a program of its input, it exits with 1 and leaves the folder as it
was. If it can, and what it makes can be written, it exits with 0. Once it has exited with 0, the
listing is where it was to be, unless none was asked for, and the program is where it was to be,
unless the listing was to be in the same file. -/
theorem assembler_leaves {arguments : List String}
    (haccepted : Tool.assembler.interface.read arguments = .accepted a) (f : Folder)
    (input : List UInt8) :
    ∃ code session, Session.runTool f .assembler arguments input = (code, session) ∧
      (∀ fault, f.assembled a = .error fault → code = 1 ∧ session.folder = f) ∧
      (∀ assembly g h, f.assembled a = .ok assembly →
        f.write (outputPath a) assembly.program.bytes = .ok g →
        (a.has "no-listing" ∨ g.write (listingPath a)
          (Bytes.ofString assembly.listingText).toArray = .ok h) → code = 0) ∧
      (code = 0 → ∃ assembly, f.assembled a = .ok assembly ∧
        assembly.program.bytes.toList = Program.header ++ assembly.program.body.toList ∧
        Program.ofBytes assembly.program.bytes = .ok assembly.program ∧
        (a.has "no-listing" = false → session.folder.read (listingPath a) =
          .ok (Bytes.ofString assembly.listingText).toArray) ∧
        (session.folder.read (outputPath a) = .ok assembly.program.bytes ↔ a.has "no-listing" ∨
          session.folder.fileName? (outputPath a) ≠
            session.folder.fileName? (listingPath a))) := by
  obtain ⟨session, hrun, hfolder⟩ := (does_assembler f a).runTool haccepted input
  refine ⟨_, session, hrun, ?_, ?_, ?_⟩
  · intro fault hfault
    rw [hfolder]
    simp [Folder.assembles, hfault, Except.isOk, Except.toBool]
  · intro assembly g h hassembled hwrite hwrite'
    have hdone : ∃ left, f.deliver a assembly = (.ok (), left) := by
      by_cases hlisting : a.has "no-listing"
      · exact ⟨g, Folder.deliver_eq_ok_iff.mpr ⟨g, hwrite, by rw [if_pos hlisting]⟩⟩
      · refine ⟨h, Folder.deliver_eq_ok_iff.mpr ⟨g, hwrite, ?_⟩⟩
        rw [if_neg hlisting]
        exact hwrite'.resolve_left hlisting
    obtain ⟨left, hdone⟩ := hdone
    simp [Folder.assembles, hassembled, hdone, Except.isOk, Except.toBool]
  · intro hzero
    cases hassembled : f.assembled a with
    | error fault => simp [Folder.assembles, hassembled, Except.isOk, Except.toBool] at hzero
    | ok assembly =>
      obtain ⟨body, hprogram⟩ := Folder.program_of_assembled hassembled
      simp only [Folder.assembles, hassembled] at hzero hfolder
      have hdone : f.deliver a assembly = (.ok (), session.folder) := by
        rcases hresult : f.deliver a assembly with ⟨fault | done, left⟩
        · simp [hresult, Except.isOk, Except.toBool] at hzero
        · rw [hfolder, hresult]
      refine ⟨assembly, rfl, ?_, ?_, Folder.read_deliver hdone hprogram⟩
      · rw [hprogram, Program.toList_ofBody, Program.body_ofBody]
      · rw [hprogram, Program.ofBytes_ofBody]

section Runs

/-- The folder that the following runs start in. -/
def sourceFolder : Folder :=
  ⟨[("a.asm", (Bytes.ofString "OUT\nEND\n").toArray)]⟩

theorem exists_assembled_source (h : a.positional? 0 = some "a.asm") (hlimits : limits a = {}) :
    ∃ assembly, sourceFolder.assembled a = .ok assembly := by
  have hplain : Folder.Plain "a.asm" := by constructor <;> decide +kernel
  have hread : sourceFolder.read "a.asm" = .ok (Bytes.ofString "OUT\nEND\n").toArray :=
    Folder.read_plain hplain (by decide +kernel)
  have htext : Bytes.text? (Bytes.ofString "OUT\nEND\n").toArray = some "OUT\nEND\n" := by
    decide +kernel
  have hlines : sourceFolder.lines "a.asm" = .ok (Text.trimmedLines "OUT\nEND\n") := by
    simp only [Folder.lines, hread, htext]
  have hassembles : (assemble {} (Text.trimmedLines "OUT\nEND\n")).isOk := by decide +kernel
  simp only [Folder.assembled, input, h, hlines, hlimits, bind, Except.bind]
  cases hassembly : assemble {} (Text.trimmedLines "OUT\nEND\n") with
  | ok assembly => exact ⟨assembly, rfl⟩
  | error fault =>
    rw [hassembly] at hassembles
    cases hassembles

/-- The listing and the program have paths of their own, and both are there. -/
theorem assembler_leaves_default :
    Tool.assembler.interface.read ["a.asm"] = .accepted ⟨[], ["a.asm"]⟩ ∧
    ∃ assembly session, sourceFolder.assembled ⟨[], ["a.asm"]⟩ = .ok assembly ∧
      Session.runTool sourceFolder .assembler ["a.asm"] [] = (0, session) ∧
      session.folder.read "a.bin" = .ok assembly.program.bytes ∧
      session.folder.read "listing.txt" = .ok (Bytes.ofString assembly.listingText).toArray := by
  have haccepted : Tool.assembler.interface.read ["a.asm"] = .accepted ⟨[], ["a.asm"]⟩ := by
    decide +kernel
  have hprogram : Folder.Plain "a.bin" := by constructor <;> decide +kernel
  have hlisting : Folder.Plain "listing.txt" := by constructor <;> decide +kernel
  obtain ⟨assembly, hassembled⟩ :
      ∃ assembly, sourceFolder.assembled ⟨[], ["a.asm"]⟩ = .ok assembly :=
    exists_assembled_source rfl rfl
  have hok := Folder.assembles_plain hassembled hprogram hlisting (by decide +kernel)
    (by decide +kernel)
  obtain ⟨session, hrun, -⟩ := (does_assembler sourceFolder _).runTool haccepted []
  rw [hok] at hrun
  obtain ⟨code, session', hrun', -, -, hleaves⟩ := assembler_leaves haccepted sourceFolder []
  cases hrun.symm.trans hrun'
  obtain ⟨assembly', hassembled', -, -, hread', hread⟩ := hleaves rfl
  cases hassembled.symm.trans hassembled'
  have hother : session.folder.fileName? "a.bin" ≠ session.folder.fileName? "listing.txt" := by
    rw [Folder.fileName?_plain hprogram, Folder.fileName?_plain hlisting]
    decide
  exact ⟨haccepted, assembly, session, hassembled, hrun, hread.mpr (.inr hother), hread' rfl⟩

/-- The listing is written over the program, and the assembler reports success. -/
theorem listing_over_program :
    Tool.assembler.interface.read ["a.asm", "listing.txt"] =
      .accepted ⟨[], ["a.asm", "listing.txt"]⟩ ∧
    ∃ assembly session, sourceFolder.assembled ⟨[], ["a.asm", "listing.txt"]⟩ = .ok assembly ∧
      Session.runTool sourceFolder .assembler ["a.asm", "listing.txt"] [] = (0, session) ∧
      session.folder.read "listing.txt" ≠ .ok assembly.program.bytes := by
  have haccepted : Tool.assembler.interface.read ["a.asm", "listing.txt"] =
      .accepted ⟨[], ["a.asm", "listing.txt"]⟩ := by decide +kernel
  have hlisting : Folder.Plain "listing.txt" := by constructor <;> decide +kernel
  obtain ⟨assembly, hassembled⟩ :
      ∃ assembly, sourceFolder.assembled ⟨[], ["a.asm", "listing.txt"]⟩ = .ok assembly :=
    exists_assembled_source rfl rfl
  obtain ⟨body, hprogram⟩ := Folder.program_of_assembled hassembled
  have hok := Folder.assembles_plain hassembled hlisting hlisting (by decide +kernel)
    (by decide +kernel)
  obtain ⟨session, hrun, hfolder⟩ := (does_assembler sourceFolder _).runTool haccepted []
  rw [hok] at hrun
  refine ⟨haccepted, assembly, session, hassembled, hrun, ?_⟩
  simp only [Folder.assembles, hassembled] at hok hfolder
  obtain ⟨-, hread⟩ := Folder.read_deliver (Prod.ext hok hfolder.symm) hprogram
  intro hfound
  rcases hread.mp hfound with hno | hother
  · cases hno
  · exact hother rfl

end Runs

end StackMachine.CommandLine
