import StackMachine.Proofs.Assembly.Room

namespace StackMachine

namespace Instruction

variable (i : Instruction) (labels labels' : Labels) (text : List Char) (offset offset' : Nat)

/-- Only the code of a branch depends on labels. -/
theorem encode_of_not_branch (hb : i.isBranch = false) :
    i.encode labels text offset = i.encode labels' text offset' := by
  cases h : i.argument with
  | none => simp [encode, h]
  | some kind =>
    cases kind with
    | displacement => simp [isBranch, h] at hb
    | operand => simp [encode, h]
    | register => simp [encode, h]

theorem take_encode :
    (i.encode labels text offset).1.take 1 = (i.encode labels' text offset').1.take 1 := by
  cases h : i.argument with
  | none => simp [encode, h]
  | some kind => cases kind <;> simp [encode, h]

end Instruction

/-- A row without the target that its instruction may have. -/
def Row.withoutTarget (r : Row) : Row :=
  match Statement.ofLine r.line.toList with
  | .instruction i _ => if i.isBranch then { r with bytes := r.bytes.take 1 } else r
  | _ => r

theorem Statement.rows_withoutTarget (labels labels' : Labels) (offset : Nat) (line : List Char) :
    ((ofLine line).rows labels offset line).map Row.withoutTarget =
      ((ofLine line).rows labels' offset line).map Row.withoutTarget := by
  cases hs : ofLine line with
  | instruction i text =>
    simp only [rows, Row.withoutTarget, String.toList_ofList, hs, List.map_cons, List.map_nil]
    cases hb : i.isBranch with
    | true => simp only [↓reduceIte, i.take_encode labels labels' text offset offset]
    | false => rw [i.encode_of_not_branch labels labels' text offset offset hb]
  | _ => rfl

namespace Labels

variable {hash other : UInt64} {entries : List (UInt64 × Nat)}

theorem move_of_lookup {offset : Nat} (h : lookup hash entries = some offset) :
    move hash offset entries = entries := by
  induction entries with
  | nil => rfl
  | cons entry rest ih =>
    obtain ⟨first, old⟩ := entry
    simp only [lookup] at h
    simp only [move]
    split at h
    · rename_i heq
      cases h
      simp only [heq, ↓reduceIte]
    · rename_i hne
      simp only [hne, ↓reduceIte, ih h]

theorem move_move (hash : UInt64) (a b : Nat) (entries : List (UInt64 × Nat)) :
    move hash a (move hash b entries) = move hash a entries := by
  induction entries with
  | nil => rfl
  | cons entry rest ih =>
    obtain ⟨first, old⟩ := entry
    by_cases heq : first = hash
    · simp only [move, heq, ↓reduceIte]
    · simp only [move, heq, ↓reduceIte, ih]

theorem move_comm (hne : hash ≠ other) (a b : Nat) (entries : List (UInt64 × Nat)) :
    move other a (move hash b entries) = move hash b (move other a entries) := by
  induction entries with
  | nil => rfl
  | cons entry rest ih =>
    obtain ⟨first, old⟩ := entry
    by_cases heq : first = hash
    · simp only [move, heq, hne, ↓reduceIte]
    · by_cases heq' : first = other
      · simp only [move, heq', hne.symm, ↓reduceIte]
      · simp only [move, heq, heq', ↓reduceIte, ih]

theorem move_append (h : (lookup hash entries).isSome) (a : Nat) (later : List (UInt64 × Nat)) :
    move hash a (entries ++ later) = move hash a entries ++ later := by
  induction entries with
  | nil => cases h
  | cons entry rest ih =>
    obtain ⟨first, old⟩ := entry
    by_cases heq : first = hash
    · simp only [List.cons_append, move, heq, ↓reduceIte]
    · simp only [lookup, heq, ↓reduceIte] at h
      simp only [List.cons_append, move, heq, ↓reduceIte, ih h]

theorem isSome_lookup_move (h : (lookup hash entries).isSome) (a : Nat) (other : UInt64) :
    (lookup other (move hash a entries)).isSome = (lookup other entries).isSome := by
  rw [lookup_move h]
  by_cases heq : hash = other
  · simp [← heq, h]
  · simp [heq]

/-- It does not matter where a label was before it is bound. -/
theorem bind_move (h : (lookup hash entries).isSome) (a b : Nat) :
    bind hash a (move hash b entries) = bind hash a entries := by
  rw [bind, bind, isSome_lookup_move h, if_pos h, if_pos h, move_move]

theorem bind_move_of_ne (h : (lookup hash entries).isSome) (hne : hash ≠ other) (a b : Nat) :
    bind other a (move hash b entries) = move hash b (bind other a entries) := by
  rw [bind, bind, isSome_lookup_move h]
  split
  · rw [move_comm hne]
  · rw [move_append h]

/-- The entries once lines are gone through whose code starts at an offset. -/
def bindAll : Nat → List String → List (UInt64 × Nat) → List (UInt64 × Nat)
  | _, [], entries => entries
  | offset, line :: rest, entries =>
    let s := Statement.ofSource line
    match s.labelHash? with
    | some hash => bindAll (offset + s.size) rest (bind hash offset entries)
    | none => bindAll (offset + s.size) rest entries

/-- A label that the lines bind may have been anywhere before. -/
theorem bindAll_move {lines : List String} {line : String} (hl : line ∈ lines)
    (hs : (Statement.ofSource line).labelHash? = some hash) (h : (lookup hash entries).isSome)
    (offset a : Nat) :
    bindAll offset lines (move hash a entries) = bindAll offset lines entries := by
  induction lines generalizing offset entries with
  | nil => cases hl
  | cons first rest ih =>
    have hrest (hne : (Statement.ofSource first).labelHash? ≠ some hash) : line ∈ rest := by
      rcases List.mem_cons.mp hl with rfl | hrest
      · exact absurd hs hne
      · exact hrest
    cases hfirst : (Statement.ofSource first).labelHash? with
    | none => simp only [bindAll, hfirst, ih (hrest (by simp [hfirst])) h]
    | some other =>
      by_cases heq : hash = other
      · subst heq
        simp only [bindAll, hfirst, bind_move h]
      · have hknown : (lookup hash (bind other offset entries)).isSome := by
          rw [lookup_bind, if_neg (Ne.symm heq)]
          exact h
        simp only [bindAll, hfirst, bind_move_of_ne h heq,
          ih (hrest (by simp [hfirst, Ne.symm heq])) hknown]

/-- Labels that stand where the lines leave them stay there. -/
theorem bindAll_eq_self {lines : List String} {offset : Nat}
    (h : ∀ hash address, lastBound? hash offset lines = some address →
      lookup hash entries = some address) : bindAll offset lines entries = entries := by
  induction lines generalizing offset with
  | nil => rfl
  | cons line rest ih =>
    have hrest : bindAll (offset + (Statement.ofSource line).size) rest entries = entries := by
      apply ih
      intro hash address hlast
      exact h hash address (by simp [lastBound?, hlast])
    cases hs : (Statement.ofSource line).labelHash? with
    | none => simp only [bindAll, hs, hrest]
    | some hash =>
      have hsome : (lastBound? hash offset (line :: rest)).isSome :=
        isSome_lastBound? List.mem_cons_self hs
      obtain ⟨address, hlast⟩ := Option.isSome_iff_exists.mp hsome
      have hknown : (lookup hash entries).isSome := by simp [h hash address hlast]
      simp only [bindAll, hs, bind, hknown, ↓reduceIte]
      -- Where this line puts the label does not matter if a line further down binds it again.
      by_cases hagain : ∃ later ∈ rest, (Statement.ofSource later).labelHash? = some hash
      · obtain ⟨later, hl, hlater⟩ := hagain
        rw [bindAll_move hl hlater hknown, hrest]
      · have hnone : ∀ later ∈ rest, (Statement.ofSource later).labelHash? ≠ some hash :=
          fun later hl hlater => hagain ⟨later, hl, hlater⟩
        rw [move_of_lookup (h hash offset ?_), hrest]
        simp [lastBound?, lastBound?_eq_none hnone, hs]

end Labels

namespace Draft

variable {final final' : Bool} {d d' e e' : Draft} {number number' : Nat} {lines : List String}

/-- A draft without its warnings. -/
def unwarned (d : Draft) : Draft :=
  { d with warnings := #[] }

/-- The draft and the fault that a pass comes to, apart from the warnings. -/
def outcome (r : Draft × Option Fault) : Draft × Option Fault :=
  (r.1.unwarned, r.2)

theorem outcome_addLine (line : List Char) :
    outcome (d.addLine final number line) = d.unwarned.addLine false number' line := by
  cases hs : Statement.ofLine line with
  | comment => simp [outcome, addLine, hs]
  | labelWithoutName =>
    simp only [addLine, hs]
    rw [warn_frame]
    simp [outcome, unwarned, warn]
  | unknown word =>
    simp only [addLine, hs]
    rw [warn_frame]
    simp [outcome, unwarned, warn]
  | label name =>
    simp only [addLine, hs, unwarned, offset]
    split <;> rfl
  | instruction i text =>
    simp only [addLine, hs]
    rw [warn_frame]
    by_cases hfull : d.limits.body < d.body.size + (i.encode d.labels text d.offset).1.length
    · rw [if_pos hfull]
      simp only [outcome, unwarned, warn, offset] at hfull ⊢
      simp [hfull]
    · rw [if_neg hfull]
      simp only [outcome, unwarned, warn, offset] at hfull ⊢
      simp [hfull]

theorem outcome_addLines :
    outcome (addLines final d number lines) = addLines false d.unwarned number' lines := by
  induction lines generalizing d number number' with
  | nil => rfl
  | cons line rest ih =>
    have hline := @outcome_addLine final d number number' (Text.trim line.toList)
    simp only [addLines, ← hline]
    obtain ⟨d₁, fault⟩ := d.addLine final number (Text.trim line.toList)
    cases fault with
    | none => exact ih
    | some fault => rfl

/-- Only the warnings depend on whether a pass is the final one. -/
theorem outcome_pass (d : Draft) (final : Bool) (lines : List String) :
    outcome (d.pass final lines) = d.pass false lines :=
  outcome_addLines

theorem labels_addLines (h : addLines final d number lines = (d', none)) :
    d'.labels = { d.labels with entries := Labels.bindAll d.offset lines d.labels.entries } := by
  induction lines generalizing d number with
  | nil =>
    cases h
    rfl
  | cons line rest ih =>
    obtain ⟨d₁, htakes, hrest⟩ := takes_of_addLines h
    rw [ih hrest, htakes.offset_eq]
    by_cases hlabel : ∃ name, Statement.ofSource line = .label name
    · obtain ⟨name, hname⟩ := hlabel
      rw [Labels.define_eq (htakes.define_eq name hname)]
      simp only [Labels.bindAll, hname, Statement.labelHash?]
    · rw [htakes.labels_eq (not_exists.mp hlabel)]
      simp only [Labels.bindAll, Statement.labelHash?_eq_none (not_exists.mp hlabel)]

/-- A second pass leaves the labels as it finds them. -/
theorem labels_pass_again (h : d.pass final lines = (d', none))
    (h' : d'.pass final' lines = (e, none)) : e.labels = d'.labels := by
  have hsame : Labels.bindAll Program.headerSize lines d'.labels.entries = d'.labels.entries := by
    apply Labels.bindAll_eq_self
    intro hash address hlast
    rw [lookup_pass h, hlast, Option.some_or]
  have hlabels := labels_addLines h'
  simp only [offset, Array.size_empty, Nat.add_zero] at hlabels
  rw [hlabels, hsame]

/-- A third pass does what the second one did, but for the warnings. -/
theorem unwarned_third {d₂ : Draft} {second third : Bool} (h : d.pass final lines = (d', none))
    (hsecond : d'.pass second lines = (d₂, none)) :
    ∃ d₃, d₂.pass third lines = (d₃, none) ∧ d₃.unwarned = d₂.unwarned := by
  obtain ⟨hlimits, -, -, -, -⟩ := addLines_ok hsecond
  have hstart : d₂.pass false lines = d'.pass false lines := by
    simp only [pass, hlimits, labels_pass_again h hsecond]
  have hsame : outcome (d₂.pass third lines) = outcome (d'.pass second lines) := by
    rw [outcome_pass, outcome_pass, hstart]
  obtain ⟨d₃, hthird⟩ := @pass_again second third d' d₂ lines hsecond
  rw [hthird, hsecond] at hsame
  exact ⟨d₃, hthird, congrArg Prod.fst hsame⟩

/-- What two drafts make of the same lines from the same offset on is the same but for the targets
of branches. -/
theorem addLines_withoutTarget (ho : d.offset = e.offset)
    (hd : addLines final d number lines = (d', none))
    (he : addLines final' e number' lines = (e', none)) :
    ∃ rows rows' warnings warnings', d.Adds d' rows warnings ∧ e.Adds e' rows' warnings' ∧
      rows.map Row.withoutTarget = rows'.map Row.withoutTarget := by
  induction lines generalizing d e number number' with
  | nil =>
    cases hd
    cases he
    exact ⟨[], [], [], [], .refl d', .refl e', rfl⟩
  | cons line rest ih =>
    obtain ⟨d₁, hline, hrest⟩ := addLines_cons.mp hd
    obtain ⟨e₁, hline', hrest'⟩ := addLines_cons.mp he
    have ho₁ : d₁.offset = e₁.offset := by
      rw [(takes_of_addLine hline).offset_eq, (takes_of_addLine hline').offset_eq, ho]
    obtain ⟨rows, rows', warnings, warnings', hadds, hadds', hrows⟩ := ih ho₁ hrest hrest'
    refine ⟨_, _, _, _, (adds_of_addLine hline).trans hadds,
      (adds_of_addLine hline').trans hadds', ?_⟩
    rw [List.map_append, List.map_append, hrows, ho, Statement.rows_withoutTarget d.labels e.labels]

theorem listing_withoutTarget (hd : d.pass final lines = (d', none))
    (he : e.pass final' lines = (e', none)) :
    d'.listing.toList.map Row.withoutTarget = e'.listing.toList.map Row.withoutTarget := by
  rw [pass] at hd he
  have ho : { d with body := #[], listing := #[], warnings := #[] }.offset =
      { e with body := #[], listing := #[], warnings := #[] }.offset := rfl
  obtain ⟨rows, rows', _, _, hadds, hadds', hrows⟩ := addLines_withoutTarget ho hd he
  rw [hadds.listing_eq, hadds'.listing_eq]
  exact hrows

/-- If a pass goes through, the size of its body, its listing but for the targets of branches, and
where its labels end up do not depend on the labels it starts with. A second and a third pass go
through as well, and the third one leaves what the second one left. -/
theorem pass_settles (h : d.pass final lines = (d', none)) :
    (∀ e e' final', Draft.pass e final' lines = (e', none) →
      d'.body.size = e'.body.size ∧
      d'.listing.toList.map Row.withoutTarget = e'.listing.toList.map Row.withoutTarget ∧
      ∀ line ∈ lines, ∀ name, Statement.ofSource line = .label name →
        ∃ address, d'.labels.get? name = some address ∧ e'.labels.get? name = some address) ∧
    d'.body.toList = d'.listing.toList.flatMap Row.bytes ∧
    ∀ second third, ∃ d₂ d₃, d'.pass second lines = (d₂, none) ∧
      d₂.pass third lines = (d₃, none) ∧
      d₃.body = d₂.body ∧ d₃.listing = d₂.listing ∧ d₃.labels = d₂.labels := by
  refine ⟨?_, body_pass h, ?_⟩
  · intro e e' final' he
    obtain ⟨-, hsize, -⟩ := addLines_ok h
    obtain ⟨-, hsize', -⟩ := addLines_ok he
    refine ⟨hsize.trans hsize'.symm, listing_withoutTarget h he, ?_⟩
    · intro line hl name hs
      have hbound : (Statement.ofSource line).labelHash? = some (Fnv.ofChars name) := by
        rw [hs]
        rfl
      obtain ⟨address, hlast⟩ :=
        Option.isSome_iff_exists.mp (@isSome_lastBound? _ _ _ hl hbound Program.headerSize)
      refine ⟨address, ?_, ?_⟩
      · rw [Labels.get?, lookup_pass h, hlast, Option.some_or]
      · rw [Labels.get?, lookup_pass he, hlast, Option.some_or]
  · intro second third
    obtain ⟨d₂, hsecond⟩ := @pass_again final second d d' lines h
    obtain ⟨d₃, hthird, hsame⟩ := @unwarned_third final d d' lines d₂ second third h hsecond
    simp only [unwarned, Draft.mk.injEq] at hsame
    obtain ⟨-, hlabels, hbody, hlisting, -⟩ := hsame
    exact ⟨d₂, d₃, hsecond, hthird, hbody, hlisting, hlabels⟩

/-- A pass starts with labels of other lines, and some of its branches go there. From the second
pass on nothing changes. -/
theorem pass_settles_leftover :
    let lines := ["JMP F", "CALL G", "HERE F", "JMPE F", "HERE F"]
    let d := ((empty ⟨2, 15⟩).pass true ["HERE G", "OUT", "HERE F"]).1
    ∃ d₁ d₂ d₃, d.pass false lines = (d₁, none) ∧ d₁.pass true lines = (d₂, none) ∧
      d₂.pass false lines = (d₃, none) ∧
      d₂.body ≠ d₁.body ∧ d₃.body = d₂.body ∧ d₃.listing = d₂.listing ∧ d₃.labels = d₂.labels := by
  intro lines d
  have hfirst : d.pass false lines = ((d.pass false lines).1, none) := by
    rw [← show (d.pass false lines).2 = none by decide +kernel]
  obtain ⟨-, -, hlater⟩ := pass_settles hfirst
  obtain ⟨d₂, d₃, hsecond, hthird, hsame⟩ := hlater true false
  refine ⟨_, d₂, d₃, hfirst, hsecond, hthird, ?_, hsame⟩
  have hbody : d₂ = ((d.pass false lines).1.pass true lines).1 := by rw [hsecond]
  rw [hbody]
  decide +kernel

end Draft

end StackMachine
