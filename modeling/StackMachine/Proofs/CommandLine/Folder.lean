import Mathlib.Data.String.Basic
import StackMachine.CommandLine.Folder

namespace StackMachine.CommandLine.Folder

variable {f g : Folder} {name other path path' part : String} {bytes old : Array UInt8} {way : Way}

/-- The folder with a file replaced or added. -/
def putFile (f : Folder) (name : String) (bytes : Array UInt8) : Folder :=
  ⟨put name bytes f.files⟩

theorem lookup_put (files : List (String × Array UInt8)) :
    (put name bytes files).lookup other =
      if other = name then some bytes else files.lookup other := by
  induction files with
  | nil =>
    by_cases hname : other = name
    · simp [put, hname]
    · simp [put, hname, List.lookup_cons, beq_false_of_ne hname]
  | cons file rest ih =>
    obtain ⟨first, content⟩ := file
    by_cases hfirst : first = name
    · by_cases hname : other = name
      · simp [put, hfirst, hname]
      · simp [put, hfirst, hname, List.lookup_cons, beq_false_of_ne hname]
    · by_cases hother : other = first
      · simp [put, hfirst, hother]
      · simp [put, hfirst, List.lookup_cons, beq_false_of_ne hother, ih]

theorem get?_putFile (f : Folder) (name : String) (bytes : Array UInt8) (other : String) :
    (f.putFile name bytes).get? other = if other = name then some bytes else f.get? other :=
  lookup_put f.files

theorem hasDirectory_putFile (f : Folder) (name : String) (bytes : Array UInt8) (other : String) :
    (f.putFile name bytes).hasDirectory other =
      (f.hasDirectory other || (other ++ "/").isPrefixOf name) := by
  obtain ⟨files⟩ := f
  simp only [hasDirectory, putFile]
  induction files with
  | nil => simp [put]
  | cons file rest ih =>
    obtain ⟨first, content⟩ := file
    by_cases hfirst : first = name
    · cases hinside : (other ++ "/").isPrefixOf name <;> simp [put, hfirst, hinside]
    · simp [put, hfirst, ih, Bool.or_assoc]

/-- What there is under a name. -/
def under (f : Folder) (name : String) : Entry :=
  match f.get? name with
  | some bytes => .file bytes
  | none => if f.hasDirectory name then .directory else .vacant

theorem under_eq_file_iff : f.under name = .file bytes ↔ f.get? name = some bytes := by
  unfold under
  cases f.get? name with
  | some content => simp
  | none => cases f.hasDirectory name <;> simp

theorem under_eq_directory_iff :
    f.under name = .directory ↔ f.get? name = none ∧ f.hasDirectory name := by
  unfold under
  cases f.get? name with
  | some content => simp
  | none => cases f.hasDirectory name <;> simp

theorem entry_eq (f : Folder) (way : Way) (part : String) : f.entry way part =
    if maxPart < part.utf8ByteSize then .error .nameTooLong
    else .ok (f.under (Way.name (part :: way))) := by
  simp only [entry, under]
  cases f.get? (Way.name (part :: way)) <;> rfl

theorem under_putFile_self (f : Folder) (name : String) (bytes : Array UInt8) :
    (f.putFile name bytes).under name = .file bytes := by
  simp [under, get?_putFile]

theorem under_putFile_file (h : f.under other = .file old) :
    (f.putFile name bytes).under other = .file (if other = name then bytes else old) := by
  rw [under_eq_file_iff] at h ⊢
  rw [get?_putFile, h]
  split <;> rfl

theorem under_putFile_directory (hname : f.under name ≠ .directory)
    (h : f.under other = .directory) : (f.putFile name bytes).under other = .directory := by
  have hne : other ≠ name := fun heq => hname (heq ▸ h)
  rw [under_eq_directory_iff] at h ⊢
  rw [get?_putFile, if_neg hne, hasDirectory_putFile, h.2, Bool.true_or]
  exact ⟨h.1, rfl⟩

/-- Parts that can be followed are followed to the same place once a file is written. -/
theorem follow_putFile (hname : f.under name ≠ .directory) {parts : List String} {place : Place}
    (h : f.follow way parts = .ok place) :
    (f.putFile name bytes).follow way parts = .ok place := by
  fun_induction follow f way parts with
  | case1 way => exact h
  | case2 way rest ih => simpa [follow] using ih h
  | case3 way rest _ ih => simpa [follow] using ih h
  | case4 way part rest hdot hup hlast => simpa [follow, hdot, hup, hlast] using h
  | case5 way part rest hdot hup hlast hentry ih =>
    -- A part that is gone through names a directory, and a file is not written over one.
    have hentry' : (f.putFile name bytes).entry way part = .ok .directory := by
      rw [entry_eq] at hentry ⊢
      split at hentry
      · cases hentry
      · rename_i hshort
        rw [if_neg hshort, under_putFile_directory hname (Except.ok.inj hentry)]
    simpa [follow, hdot, hup, hlast, hentry'] using ih h
  | _ => cases h

/-- The file that a path names, whether it is there or not. -/
def fileName? (f : Folder) (path : String) : Option String :=
  match f.place path with
  | .ok (.entry way part) =>
    if maxPart < part.utf8ByteSize ∨ path.endsWith "/" then none
    else some (Way.name (part :: way))
  | _ => none

theorem fileName?_putFile (hname : f.under name ≠ .directory) (h : f.fileName? path = some other)
    (bytes : Array UInt8) : (f.putFile name bytes).fileName? path = some other := by
  have hplace {found : Place} (hfound : f.place path = .ok found) :
      (f.putFile name bytes).place path = .ok found := by
    unfold place at hfound ⊢
    split at hfound
    · cases hfound
    · rename_i hshort
      rw [if_neg hshort]
      exact follow_putFile hname hfound
  unfold fileName? at h ⊢
  split at h
  · rename_i way part hfound
    rw [hplace hfound]
    exact h
  · cases h

theorem read_eq_ok_iff : f.read path = .ok bytes ↔
    ∃ name, f.fileName? path = some name ∧ f.under name = .file bytes := by
  unfold read fileName?
  rcases f.place path with fault | ⟨_ | ⟨way, part⟩⟩
  · simp [bind, Except.bind]
  · simp [bind, Except.bind]
  · simp only [bind, Except.bind, entry_eq]
    by_cases hlong : maxPart < part.utf8ByteSize
    · simp [hlong]
    · by_cases hslash : path.endsWith "/" <;>
        cases hunder : f.under (Way.name (part :: way)) <;> simp [hlong, hslash, hunder]

theorem write_eq_ok_iff : f.write path bytes = .ok g ↔
    ∃ name, f.fileName? path = some name ∧ f.under name ≠ .directory ∧
      g = f.putFile name bytes := by
  unfold write fileName?
  rcases f.place path with fault | ⟨_ | ⟨way, part⟩⟩
  · simp [bind, Except.bind]
  · simp [bind, Except.bind]
  · simp only [bind, Except.bind, entry_eq]
    by_cases hlong : maxPart < part.utf8ByteSize
    · by_cases hslash : path.endsWith "/" <;> simp [hlong, hslash]
    · by_cases hslash : path.endsWith "/" <;>
        cases hunder : f.under (Way.name (part :: way)) <;>
        simp [hlong, hslash, hunder, putFile, @eq_comm _ g]

/-- What was written is read again. -/
theorem read_write_self (h : f.write path bytes = .ok g) : g.read path = .ok bytes := by
  obtain ⟨name, hpath, hname, rfl⟩ := write_eq_ok_iff.mp h
  exact read_eq_ok_iff.mpr
    ⟨name, fileName?_putFile hname hpath bytes, under_putFile_self f name bytes⟩

/-- A file that was there has what was written if it is the one that was written, and else what it
had before. -/
theorem read_write (h : f.write path bytes = .ok g) (hread : f.read path' = .ok old) :
    g.read path' = .ok (if g.fileName? path' = g.fileName? path then bytes else old) := by
  obtain ⟨name, hpath, hname, rfl⟩ := write_eq_ok_iff.mp h
  obtain ⟨other, hpath', hold⟩ := read_eq_ok_iff.mp hread
  have hnamed := fileName?_putFile hname hpath bytes
  have hnamed' := fileName?_putFile hname hpath' bytes
  refine read_eq_ok_iff.mpr ⟨other, hnamed', ?_⟩
  simp only [under_putFile_file hold, hnamed, hnamed', Option.some.injEq]

/-- The name of a file in the folder itself. -/
structure Plain (name : String) : Prop where
  noSlash : '/' ∉ name.toList
  nonempty : name ≠ ""
  noDirectory : name ≠ "." ∧ name ≠ ".."
  short : name.utf8ByteSize ≤ maxPart

/-- Without a slash nothing is cut off, from wherever the search for one goes on. -/
theorem splitOnAux_noSlash {before rest : List Char} (h : '/' ∉ rest) :
    String.splitOnAux (String.ofList (before ++ rest)) "/" 0 ⟨String.utf8Len before⟩ 0 [] =
      [String.ofList (before ++ rest)] := by
  induction rest generalizing before with
  | nil =>
    have hend := (String.atEnd_of_valid before []).mpr rfl
    have hall := String.extract_of_valid [] before []
    rw [String.splitOnAux, if_pos hend]
    simpa using hall
  | cons c rest ih =>
    have hmore : ¬ String.Pos.Raw.atEnd (String.ofList (before ++ c :: rest))
        ⟨String.utf8Len before⟩ := mt (String.atEnd_of_valid before _).mp (List.cons_ne_nil c rest)
    obtain ⟨hc, hrest⟩ : '/' ≠ c ∧ '/' ∉ rest := by simpa [not_or] using h
    have hother : (String.Pos.Raw.get (String.ofList (before ++ c :: rest))
        ⟨String.utf8Len before⟩ == String.Pos.Raw.get "/" 0) = false := by
      rw [String.get_of_valid]
      exact beq_false_of_ne (Ne.symm hc)
    have hnext := String.next_of_valid before c rest
    have hlater := @ih (before ++ [c]) hrest
    have hlen : String.utf8Len (before ++ [c]) = String.utf8Len before + c.utf8Size := by simp
    rw [List.append_assoc, List.singleton_append, hlen] at hlater
    rw [String.splitOnAux, if_neg hmore, hother]
    exact (congrArg (fun i => String.splitOnAux _ "/" 0 i 0 []) hnext).trans hlater

theorem splitOn_noSlash (h : '/' ∉ name.toList) : name.splitOn "/" = [name] := by
  have hall := @splitOnAux_noSlash [] name.toList h
  simpa [String.splitOn] using hall

theorem fileName?_plain (h : Plain name) (f : Folder) : f.fileName? name = some name := by
  obtain ⟨hslash, hnonempty, ⟨hdot, hup⟩, hshort⟩ := h
  have hstart : name.startsWith "/" = false := by
    rw [String.startsWith_string_eq_false_iff]
    exact fun hbegins => hslash (hbegins.subset (by simp))
  have hend : name.endsWith "/" = false := by
    rw [← String.endsWith_toSlice, String.Slice.endsWith_string_eq_false_iff]
    exact fun hends => hslash (by simpa using hends.subset (by simp))
  have hfits : ¬ maxPath < name.utf8ByteSize := by
    unfold maxPart at hshort
    unfold maxPath
    omega
  have hplace : f.place name = .ok (.entry [] name) := by
    simp [place, hfits, hstart, splitOn_noSlash hslash, hnonempty, follow, hdot, hup]
  simp [fileName?, hplace, hend, Nat.not_lt.mpr hshort, Way.name]

/-- A file in the folder itself makes no directory. -/
theorem under_putFile_plain (h : Plain name) (hother : f.under other ≠ .directory)
    (bytes : Array UInt8) : (f.putFile name bytes).under other ≠ .directory := by
  have hinside : (other ++ "/").isPrefixOf name = false := by
    rw [String.isPrefixOf, String.startsWith_string_eq_false_iff]
    exact fun hbegins => h.noSlash (hbegins.subset (by simp))
  unfold under at hother ⊢
  rw [get?_putFile, hasDirectory_putFile, hinside, Bool.or_false]
  by_cases heq : other = name
  · simp [heq]
  · rwa [if_neg heq]

theorem read_plain (h : Plain name) (hfile : f.under name = .file bytes) :
    f.read name = .ok bytes :=
  read_eq_ok_iff.mpr ⟨name, fileName?_plain h f, hfile⟩

theorem write_plain (h : Plain name) (hname : f.under name ≠ .directory) (bytes : Array UInt8) :
    f.write name bytes = .ok (f.putFile name bytes) :=
  write_eq_ok_iff.mpr ⟨name, fileName?_plain h f, hname, rfl⟩

end StackMachine.CommandLine.Folder
