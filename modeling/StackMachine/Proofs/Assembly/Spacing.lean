import Mathlib.Logic.Relation
import StackMachine.Proofs.Assembly.Layout
import StackMachine.Proofs.Text.Margins

namespace StackMachine

/-- A line without a character that is not blank, or with `#` as the first of them. -/
def SaysNothing (line : String) : Prop :=
  ∀ c ∈ line.toList.find? (!Text.isBlank ·), c = '#'

/-- Some lines are laid out in another way: a line that says nothing is left out, blanks are put
around a line, or the blanks behind its first word are replaced. -/
inductive LaidOut : List String → List String → Prop
  | nothing {before after : List String} {line : String} (h : SaysNothing line) :
      LaidOut (before ++ line :: after) (before ++ after)
  | margins {before after : List String} {line left right : List Char} (hl : Text.AllBlank left)
      (hr : Text.AllBlank right) :
      LaidOut (before ++ String.ofList line :: after)
        (before ++ String.ofList (left ++ line ++ right) :: after)
  | gap {before after : List String} {left word gap gap' rest : List Char}
      (hl : Text.AllBlank left) (hw : Text.NoBlank word) (hword : word ≠ [])
      (hg : Text.AllBlank gap) (hgap : gap ≠ []) (hg' : Text.AllBlank gap') (hgap' : gap' ≠ []) :
      LaidOut (before ++ String.ofList (left ++ word ++ gap ++ rest) :: after)
        (before ++ String.ofList (left ++ word ++ gap' ++ rest) :: after)

namespace Statement

/-- A line is skipped with a warning. -/
def IsSkipped : Statement → Prop
  | labelWithoutName | unknown _ => True
  | _ => False

instance : DecidablePred IsSkipped
  | labelWithoutName | unknown _ => isTrue trivial
  | comment | label _ | instruction .. => isFalse id

theorem ofSource_nothing {line : String} (h : SaysNothing line) : ofSource line = .comment := by
  rw [SaysNothing, ← Text.head?_trim] at h
  have hcomment : isComment (Text.trim line.toList) = true := by
    cases htrim : Text.trim line.toList with
    | nil => rfl
    | cons c rest =>
      rw [htrim] at h
      rw [h c rfl]
      rfl
  rw [ofSource, ofLine, if_pos hcomment]

theorem ofSource_margins {line left right : List Char} (hl : Text.AllBlank left)
    (hr : Text.AllBlank right) :
    ofSource (String.ofList (left ++ line ++ right)) = ofSource (String.ofList line) := by
  rw [ofSource, ofSource, String.toList_ofList, String.toList_ofList, Text.trim_margins hl hr]

/-- A line is known by its first word, by what follows it, and by its first character. -/
theorem ofLine_congr {line line' : List Char} (hcomment : isComment line = isComment line')
    (hword : Text.firstWord line = Text.firstWord line')
    (hafter : Text.afterWord line = Text.afterWord line') : ofLine line = ofLine line' := by
  simp only [ofLine, hcomment, hword, hafter]

theorem ofSource_gap {left word gap gap' rest : List Char} (hl : Text.AllBlank left)
    (hw : Text.NoBlank word) (hword : word ≠ []) (hg : Text.AllBlank gap)
    (hgap : gap ≠ []) (hg' : Text.AllBlank gap') (hgap' : gap' ≠ []) :
    ofSource (String.ofList (left ++ word ++ gap ++ rest)) =
      ofSource (String.ofList (left ++ word ++ gap' ++ rest)) := by
  rw [ofSource, ofSource, String.toList_ofList, String.toList_ofList,
    Text.trim_gap hl hw hword hg, Text.trim_gap hl hw hword hg']
  split
  · rfl
  · obtain ⟨hfirst, hafter⟩ := Text.firstWord_gap hw hg hgap (Text.trimEnd rest)
    obtain ⟨hfirst', hafter'⟩ := Text.firstWord_gap hw hg' hgap' (Text.trimEnd rest)
    refine ofLine_congr ?_ (hfirst.trans hfirst'.symm) (hafter.trans hafter'.symm)
    obtain ⟨c, word, rfl⟩ := List.exists_cons_of_ne_nil hword
    rfl

end Statement

/-- Some lines say what other lines say, with lines that say nothing left out and a number of lines
that are skipped with a warning. -/
inductive Restates : Nat → List String → List String → Prop
  | nil : Restates 0 [] []
  | same {skipped : Nat} {line line' : String} {lines lines' : List String}
      (hs : Statement.ofSource line = Statement.ofSource line')
      (h : Restates skipped lines lines') : Restates skipped (line :: lines) (line' :: lines')
  | nothing {skipped : Nat} {line : String} {lines lines' : List String}
      (hs : Statement.ofSource line = .comment) (h : Restates skipped lines lines') :
      Restates skipped (line :: lines) lines'
  | skip {skipped : Nat} {line : String} {lines lines' : List String}
      (hs : (Statement.ofSource line).IsSkipped) (h : Restates skipped lines lines') :
      Restates (skipped + 1) (line :: lines) lines'

namespace Restates

theorem refl (lines : List String) : Restates 0 lines lines := by
  induction lines with
  | nil => exact .nil
  | cons line rest ih => exact .same rfl ih

theorem append {skipped : Nat} {lines lines' : List String} (before : List String)
    (h : Restates skipped lines lines') :
    Restates skipped (before ++ lines) (before ++ lines') := by
  induction before with
  | nil => exact h
  | cons line before ih => exact .same rfl ih

theorem of_laidOut {lines lines' : List String} (h : LaidOut lines lines') :
    Restates 0 lines lines' := by
  cases h with
  | nothing h => exact .append _ (.nothing (Statement.ofSource_nothing h) (.refl _))
  | margins hl hr => exact .append _ (.same (Statement.ofSource_margins hl hr).symm (.refl _))
  | gap hl hw hword hg hgap hg' hgap' =>
    exact .append _ (.same (Statement.ofSource_gap hl hw hword hg hgap hg' hgap') (.refl _))

/-- The lines of a text are read as they are when they are trimmed first. -/
theorem trimmedLines (source : String) :
    Restates 0 ((Text.lines source.toList).map String.ofList) (Text.trimmedLines source) := by
  rw [Text.trimmedLines]
  induction Text.lines source.toList with
  | nil => exact .nil
  | cons line rest ih =>
    refine .same ?_ ih
    rw [Statement.ofSource, Statement.ofSource, String.toList_ofList, String.toList_ofList,
      Text.trim_trim]

end Restates

/-- Where a row stands and what is there. -/
def Row.placed (r : Row) : Nat × List UInt8 :=
  (r.offset, r.bytes)

namespace Draft

variable {final : Bool} {extra number number' : Nat} {d e : Draft}

/-- Two drafts are the same but for the lines in their listings and for what their warnings say. The
first one has some warnings more. -/
structure Alike (extra : Nat) (d e : Draft) : Prop where
  limits_eq : d.limits = e.limits
  labels_eq : d.labels = e.labels
  body_eq : d.body = e.body
  listing_eq : d.listing.toList.map Row.placed = e.listing.toList.map Row.placed
  warnings_eq : d.warnings.size = e.warnings.size + extra

theorem Alike.offset_eq (h : Alike extra d e) : d.offset = e.offset := by
  rw [offset, offset, h.body_eq]

theorem Alike.warn (h : Alike extra d e) (remarks : List Remark) :
    Alike extra (d.warn final number remarks) (e.warn final number' remarks) := by
  unfold Draft.warn
  split
  · refine ⟨h.limits_eq, h.labels_eq, h.body_eq, h.listing_eq, ?_⟩
    have hsize := h.warnings_eq
    simp only [← Array.length_toList, Array.toList_appendList, List.length_append,
      List.length_map] at hsize ⊢
    omega
  · exact h

/-- Lines that say the same make the same of drafts that are alike. -/
theorem Alike.addLine (h : Alike extra d e) {line line' : List Char}
    (hs : Statement.ofLine line = Statement.ofLine line') :
    (d.addLine final number line).2 = (e.addLine final number' line').2 ∧
      Alike extra (d.addLine final number line).1 (e.addLine final number' line').1 := by
  unfold Draft.addLine
  rw [hs]
  cases Statement.ofLine line' with
  | comment => exact ⟨rfl, h⟩
  | labelWithoutName => exact ⟨rfl, h.warn _⟩
  | unknown word => exact ⟨rfl, h.warn _⟩
  | label name =>
    simp only [h.labels_eq, h.offset_eq]
    split
    · exact ⟨rfl, h⟩
    · refine ⟨rfl, h.limits_eq, rfl, h.body_eq, ?_, h.warnings_eq⟩
      simp [h.listing_eq, Row.placed]
  | instruction i text =>
    have hwarned := @Alike.warn final extra number number' d e h (i.encode e.labels text e.offset).2
    simp only [h.labels_eq, h.offset_eq]
    rw [hwarned.limits_eq, hwarned.body_eq]
    split
    · exact ⟨rfl, hwarned⟩
    · refine ⟨rfl, rfl, hwarned.labels_eq, rfl, ?_, hwarned.warnings_eq⟩
      simp [hwarned.listing_eq, Row.placed]

/-- A line that is skipped makes no difference but for a warning in the final pass. -/
theorem Alike.addLine_skipped (h : Alike extra d e) {line : List Char}
    (hs : (Statement.ofLine line).IsSkipped) :
    (d.addLine final number line).2 = none ∧
      Alike (extra + if final then 1 else 0) (d.addLine final number line).1 e := by
  have hwarned (remark : Remark) :
      Alike (extra + if final then 1 else 0) (d.warn final number [remark]) e := by
    unfold Draft.warn
    cases final with
    | false => exact h
    | true =>
      refine ⟨h.limits_eq, h.labels_eq, h.body_eq, h.listing_eq, ?_⟩
      have hsize := h.warnings_eq
      simp only [← Array.length_toList, Array.toList_appendList, List.length_append,
        List.length_map, List.length_singleton, ↓reduceIte] at hsize ⊢
      omega
  unfold Draft.addLine
  cases hline : Statement.ofLine line with
  | labelWithoutName => exact ⟨rfl, hwarned _⟩
  | unknown word => exact ⟨rfl, hwarned _⟩
  | comment | label | instruction =>
    rw [hline] at hs
    exact hs.elim

theorem addLine_comment {line : List Char} (hs : Statement.ofLine line = .comment) :
    d.addLine final number line = (d, none) := by
  rw [addLine, hs]

/-- Lines that restate others make the same of drafts that are alike. If they come to their end,
there is a warning about each line that was skipped. -/
theorem Alike.addLines {skipped : Nat} {lines lines' : List String}
    (hl : Restates skipped lines lines') (h : Alike extra d e) :
    (addLines final d number lines).2 = (addLines final e number' lines').2 ∧
      ∃ more, Alike more (addLines final d number lines).1 (addLines final e number' lines').1 ∧
        ((addLines final d number lines).2 = none →
          more = extra + if final then skipped else 0) := by
  induction hl generalizing extra number number' d e with
  | nil => exact ⟨rfl, extra, h, fun _ => by simp⟩
  | @same skipped line line' lines lines' hs hl ih =>
    obtain ⟨hfault, halike⟩ := @Alike.addLine final extra number number' d e h _ _ hs
    simp only [Draft.addLines]
    generalize d.addLine final number (Text.trim line.toList) = taken at hfault halike ⊢
    generalize e.addLine final number' (Text.trim line'.toList) = taken' at hfault halike ⊢
    obtain ⟨d₁, fault⟩ := taken
    obtain ⟨e₁, fault'⟩ := taken'
    obtain rfl : fault = fault' := hfault
    cases fault with
    | none => exact ih halike
    | some fault =>
      -- Both passes stop here, with as many warnings as they have by now.
      exact ⟨rfl, extra, halike, fun hnone => absurd hnone (Option.some_ne_none fault)⟩
  | @nothing skipped line lines lines' hs hl ih =>
    have hline := @addLine_comment final number d _ hs
    simp only [Draft.addLines, hline]
    exact ih h
  | @skip skipped line lines lines' hs hl ih =>
    obtain ⟨hfault, halike⟩ := @Alike.addLine_skipped final extra number d e h _ hs
    simp only [Draft.addLines]
    generalize d.addLine final number (Text.trim line.toList) = taken at hfault halike ⊢
    obtain ⟨d₁, fault⟩ := taken
    obtain rfl : fault = none := hfault
    obtain ⟨hrest, more, hmore, hcount⟩ := @ih _ (number + 1) number' _ _ halike
    refine ⟨hrest, more, hmore, fun hnone => ?_⟩
    rw [hcount hnone]
    split <;> omega

/-- Of what was there before, a pass only takes over the limits and the labels. -/
theorem alike_pass {skipped : Nat} {lines lines' : List String} (hl : Restates skipped lines lines')
    (hlimits : d.limits = e.limits) (hlabels : d.labels = e.labels) :
    (d.pass final lines).2 = (e.pass final lines').2 ∧
      ∃ more, Alike more (d.pass final lines).1 (e.pass final lines').1 ∧
        ((d.pass final lines).2 = none → more = if final then skipped else 0) := by
  have hstart : Alike 0 { d with body := #[], listing := #[], warnings := #[] }
      { e with body := #[], listing := #[], warnings := #[] } := ⟨hlimits, hlabels, rfl, rfl, rfl⟩
  obtain ⟨hfault, more, halike, hmore⟩ := @Alike.addLines final 0 1 1 _ _ skipped _ _ hl hstart
  exact ⟨hfault, more, halike, fun hnone => by rw [hmore hnone, Nat.zero_add]⟩

end Draft

/-- Two assemblies come to the same: to the same labels, and either to the same fault or to the same
program with the same places in the listing. The first one has some warnings more. -/
def SameOutcome (extra : Nat) (r r' : Draft × Except Fault Assembly) : Prop :=
  r.1.labels = r'.1.labels ∧
    match r.2, r'.2 with
    | .ok a, .ok a' =>
      a.program = a'.program ∧ a.listing.toList.map Row.placed = a'.listing.toList.map Row.placed ∧
        a.warnings.size = a'.warnings.size + extra
    | .error fault, .error fault' => fault = fault'
    | _, _ => False

namespace SameOutcome

variable {r r' r'' : Draft × Except Fault Assembly}

theorem refl (r : Draft × Except Fault Assembly) : SameOutcome 0 r r := by
  refine ⟨rfl, ?_⟩
  cases r.2 with
  | error fault => rfl
  | ok a => exact ⟨rfl, rfl, rfl⟩

theorem symm (h : SameOutcome 0 r r') : SameOutcome 0 r' r := by
  obtain ⟨d, result⟩ := r
  obtain ⟨d', result'⟩ := r'
  obtain ⟨hlabels, hresult⟩ := h
  cases result <;> cases result'
  · exact ⟨hlabels.symm, hresult.symm⟩
  · exact hresult.elim
  · exact hresult.elim
  · exact ⟨hlabels.symm, hresult.1.symm, hresult.2.1.symm, hresult.2.2.symm⟩

theorem trans (h : SameOutcome 0 r r') (h' : SameOutcome 0 r' r'') : SameOutcome 0 r r'' := by
  obtain ⟨d, result⟩ := r
  obtain ⟨d', result'⟩ := r'
  obtain ⟨d'', result''⟩ := r''
  obtain ⟨hlabels, hresult⟩ := h
  obtain ⟨hlabels', hresult'⟩ := h'
  refine ⟨hlabels.trans hlabels', ?_⟩
  cases result <;> cases result' <;> cases result''
  case error.error.error => exact hresult.trans hresult'
  case ok.ok.ok =>
    exact ⟨hresult.1.trans hresult'.1, hresult.2.1.trans hresult'.2.1,
      hresult.2.2.trans hresult'.2.2⟩
  all_goals first | exact hresult.elim | exact hresult'.elim

end SameOutcome

/-- Lines that restate others are assembled to the same, with a warning about each line that is
skipped. -/
theorem sameOutcome_assemble {skipped : Nat} {lines lines' : List String}
    (hl : Restates skipped lines lines') (d : Draft) :
    SameOutcome skipped (d.assemble lines) (d.assemble lines') := by
  obtain ⟨hfirst, first, hdrafts, -⟩ := @Draft.alike_pass false d d skipped _ _ hl rfl rfl
  unfold Draft.assemble
  generalize d.pass false lines = r at hfirst hdrafts ⊢
  generalize d.pass false lines' = r' at hfirst hdrafts ⊢
  obtain ⟨d₁, fault⟩ := r
  obtain ⟨e₁, fault'⟩ := r'
  obtain rfl : fault = fault' := hfirst
  cases fault with
  | some fault => exact ⟨hdrafts.labels_eq, rfl⟩
  | none =>
    obtain ⟨hfinal, final, hends, hcount⟩ :=
      @Draft.alike_pass true d₁ e₁ skipped _ _ hl hdrafts.limits_eq hdrafts.labels_eq
    simp only
    generalize d₁.pass true lines = r at hfinal hends hcount ⊢
    generalize e₁.pass true lines' = r' at hfinal hends hcount ⊢
    obtain ⟨d₂, fault⟩ := r
    obtain ⟨e₂, fault'⟩ := r'
    obtain rfl : fault = fault' := hfinal
    cases fault with
    | some fault => exact ⟨hends.labels_eq, rfl⟩
    | none =>
      obtain rfl : final = skipped := hcount rfl
      exact ⟨hends.labels_eq, congrArg Program.ofBody hends.body_eq, hends.listing_eq,
        hends.warnings_eq⟩

/-- Lines that are laid out in another way are assembled to the same, and a text is assembled like
its lines. A line that is skipped only adds a warning. -/
theorem layout_does_not_matter (limits : Limits) :
    let assembled := (Draft.empty limits).assemble
    (∀ lines lines', Relation.EqvGen LaidOut lines lines' →
      SameOutcome 0 (assembled lines) (assembled lines')) ∧
    (∀ source : String, assembleText limits source = (assembled (Text.trimmedLines source)).2 ∧
      SameOutcome 0 (assembled (Text.trimmedLines source))
        (assembled ((Text.lines source.toList).map String.ofList))) ∧
    ∀ before line after, (Statement.ofSource line).IsSkipped →
      SameOutcome 1 (assembled (before ++ line :: after)) (assembled (before ++ after)) := by
  intro assembled
  refine ⟨?_, ?_, ?_⟩
  · intro lines lines' h
    induction h with
    | rel lines lines' h => exact sameOutcome_assemble (.of_laidOut h) _
    | refl lines => exact .refl _
    | symm lines lines' _ ih => exact ih.symm
    | trans lines lines' lines'' _ _ ih ih' => exact ih.trans ih'
  · intro source
    exact ⟨rfl, (sameOutcome_assemble (.trimmedLines source) _).symm⟩
  · intro before line after hs
    exact sameOutcome_assemble (.append before (.skip hs (.refl after))) _

/-- The blank in the quotes is no layout. -/
theorem layout_does_not_matter_quoted :
    let assembled := (Draft.empty ⟨0, 6⟩).assemble
    let lines := [" PUSH\t ' ' # quoted", "", "NOSUCH 1", "END"]
    let tidy := ["PUSH ' ' # quoted", "NOSUCH 1", "END"]
    Relation.EqvGen LaidOut lines tidy ∧ SameOutcome 0 (assembled lines) (assembled tidy) ∧
      (Statement.ofSource "NOSUCH 1").IsSkipped ∧
      SameOutcome 1 (assembled tidy) (assembled ["PUSH ' ' # quoted", "END"]) := by
  intro assembled lines tidy
  have hmargins : LaidOut ["PUSH\t ' ' # quoted", "", "NOSUCH 1", "END"] lines :=
    @LaidOut.margins [] _ "PUSH\t ' ' # quoted".toList [' '] [] (by decide) nofun
  have hgap : LaidOut ["PUSH\t ' ' # quoted", "", "NOSUCH 1", "END"]
      ["PUSH ' ' # quoted", "", "NOSUCH 1", "END"] :=
    @LaidOut.gap [] _ [] "PUSH".toList ['\t', ' '] [' '] "' ' # quoted".toList nofun (by decide)
      (by decide) (by decide) nofun (by decide) nofun
  have hblank : LaidOut ["PUSH ' ' # quoted", "", "NOSUCH 1", "END"] tidy :=
    @LaidOut.nothing ["PUSH ' ' # quoted"] ["NOSUCH 1", "END"] "" nofun
  have hlaid : Relation.EqvGen LaidOut lines tidy :=
    .trans _ _ _ (.symm _ _ (.rel _ _ hmargins)) (.trans _ _ _ (.rel _ _ hgap) (.rel _ _ hblank))
  have hskipped : (Statement.ofSource "NOSUCH 1").IsSkipped := by decide +kernel
  obtain ⟨hlayout, -, hskip⟩ := layout_does_not_matter ⟨0, 6⟩
  exact ⟨hlaid, hlayout lines tidy hlaid, hskipped,
    hskip ["PUSH ' ' # quoted"] "NOSUCH 1" ["END"] hskipped⟩

end StackMachine
