import Mathlib.Data.Finset.Card
import Mathlib.Data.Finset.Dedup
import StackMachine.Journal.Sources
import StackMachine.Proofs.Assembly.Room

namespace StackMachine

/-- The hashes of the labels that lines bind. -/
def boundHashes (lines : List String) : Finset UInt64 :=
  (lines.filterMap fun line => (Statement.ofSource line).labelHash?).toFinset

/-- A line goes beyond a limit that the lines before it keep to. -/
inductive Exceeds (limits : Limits) (before : List String) (line : String) : Fault → Prop where
  | labels {name : List Char} (binds : Statement.ofSource line = .label name)
      (new : Fnv.ofChars name ∉ boundHashes before)
      (full : (boundHashes before).card = limits.labels) :
      Exceeds limits before line (.tooManyLabels limits.labels)
  | body {i : Instruction} {text : List Char}
      (emits : Statement.ofSource line = .instruction i text)
      (fits : codeSize before ≤ limits.body) (long : limits.body < codeSize before + i.size) :
      Exceeds limits before line (.bodyTooLong (codeSize before + i.size) limits.body)

/-- One of the lines goes beyond a limit. -/
def GoesBeyond (limits : Limits) (lines : List String) (fault : Fault) : Prop :=
  ∃ before line after, lines = before ++ line :: after ∧ Exceeds limits before line fault

/-- What the first line that goes beyond a limit leads to. -/
def FirstExcess (limits : Limits) (lines : List String) (fault : Fault) : Prop :=
  ∃ before line after, lines = before ++ line :: after ∧ Exceeds limits before line fault ∧
    ∀ earlier, ¬ GoesBeyond limits before earlier

/-- The lines keep to the limits, all of them taken together. -/
structure WithinLimits (limits : Limits) (lines : List String) : Prop where
  labels : (boundHashes lines).card ≤ limits.labels
  body : codeSize lines ≤ limits.body

theorem boundHashes_append (before rest : List String) :
    boundHashes (before ++ rest) = boundHashes before ∪ boundHashes rest := by
  simp [boundHashes]

theorem boundHashes_label {line : String} {name : List Char}
    (h : Statement.ofSource line = .label name) (before : List String) :
    boundHashes (before ++ [line]) = insert (Fnv.ofChars name) (boundHashes before) := by
  rw [boundHashes_append, Finset.insert_eq, Finset.union_comm]
  simp [boundHashes, h, Statement.labelHash?]

theorem boundHashes_of_not_label {line : String}
    (h : ∀ name, Statement.ofSource line ≠ .label name) (before : List String) :
    boundHashes (before ++ [line]) = boundHashes before := by
  simp [boundHashes, Statement.labelHash?_eq_none h]

section Within

variable {limits : Limits} {before rest lines : List String} {line : String} {fault : Fault}

theorem WithinLimits.nil (limits : Limits) : WithinLimits limits [] := by
  constructor <;> simp [boundHashes]

/-- Lines that keep to the limits do so up to any of them. -/
theorem WithinLimits.of_append (h : WithinLimits limits (before ++ rest)) :
    WithinLimits limits before := by
  obtain ⟨hlabels, hbody⟩ := h
  refine ⟨(Finset.card_le_card ?_).trans hlabels, ?_⟩
  · rw [boundHashes_append]
    exact Finset.subset_union_left
  · rw [codeSize_append] at hbody
    omega

theorem Exceeds.not_within (h : Exceeds limits before line fault) :
    ¬ WithinLimits limits (before ++ [line]) := by
  rintro ⟨hlabels, hbody⟩
  cases h with
  | labels hs hnew hfull =>
    rw [boundHashes_label hs, Finset.card_insert_of_notMem hnew] at hlabels
    omega
  | body hs _ hlong =>
    simp only [codeSize_append, codeSize_cons, hs, Statement.size, codeSize_nil] at hbody
    omega

theorem WithinLimits.snoc (h : WithinLimits limits before)
    (hline : ∀ fault, ¬ Exceeds limits before line fault) :
    WithinLimits limits (before ++ [line]) := by
  obtain ⟨hlabels, hbody⟩ := h
  cases hs : Statement.ofSource line with
  | label name =>
    refine ⟨?_, by simpa [hs, Statement.size] using hbody⟩
    rw [boundHashes_label hs]
    by_cases hknown : Fnv.ofChars name ∈ boundHashes before
    · rwa [Finset.insert_eq_of_mem hknown]
    · have hroom : (boundHashes before).card ≠ limits.labels :=
        fun hfull => hline _ (.labels hs hknown hfull)
      rw [Finset.card_insert_of_notMem hknown]
      omega
  | instruction i text =>
    refine ⟨by rwa [boundHashes_of_not_label (by simp [hs])], ?_⟩
    have hroom : ¬ limits.body < codeSize before + i.size :=
      fun hlong => hline _ (.body hs hbody hlong)
    simp only [codeSize_append, codeSize_cons, hs, Statement.size, codeSize_nil]
    omega
  | _ =>
    refine ⟨by rwa [boundHashes_of_not_label (by simp [hs])], ?_⟩
    simpa [hs, Statement.size] using hbody

/-- No line goes beyond a limit if all of them together keep to the limits, and only then. -/
theorem withinLimits_iff :
    WithinLimits limits lines ↔ ∀ fault, ¬ GoesBeyond limits lines fault := by
  constructor
  · rintro h fault ⟨before, line, after, rfl, hexceeds⟩
    rw [List.append_cons] at h
    exact hexceeds.not_within h.of_append
  · intro h
    induction lines using List.reverseRecOn with
    | nil => exact .nil limits
    | append_singleton before line ih =>
      have hbefore : WithinLimits limits before := by
        apply ih
        rintro fault ⟨earlier, line', after, rfl, hexceeds⟩
        exact h fault ⟨earlier, line', after ++ [line], by simp, hexceeds⟩
      exact hbefore.snoc fun fault hexceeds => h fault ⟨before, line, [], rfl, hexceeds⟩

theorem FirstExcess.goesBeyond (h : FirstExcess limits lines fault) :
    GoesBeyond limits lines fault := by
  obtain ⟨before, line, after, hl, hexceeds, -⟩ := h
  exact ⟨before, line, after, hl, hexceeds⟩

/-- If a line goes beyond a limit, then one of them is the first to do so. -/
theorem GoesBeyond.exists_firstExcess (h : GoesBeyond limits lines fault) :
    ∃ first, FirstExcess limits lines first := by
  obtain ⟨before, line, after, hl, hexceeds⟩ := h
  induction hn : before.length using Nat.strongRecOn generalizing before line after fault with
  | ind n ih =>
    by_cases hbefore : ∃ earlier, GoesBeyond limits before earlier
    · obtain ⟨earlier, start, line', between, rfl, hexceeds'⟩ := hbefore
      refine ih start.length ?_ start line' (between ++ line :: after) ?_ hexceeds' rfl
      · simp only [List.length_append, List.length_cons] at hn
        omega
      · simpa using hl
    · exact ⟨fault, before, line, after, hl, hexceeds, not_exists.mp hbefore⟩

end Within

namespace Draft

variable {limits : Limits} {before lines : List String} {line : String} {fault : Fault}
  {d d' : Draft} {final : Bool} {number : Nat}

/-- A draft holds the labels and the code of lines that were taken in, and no others. -/
structure Counts (d : Draft) (limits : Limits) (before : List String) : Prop where
  limits_eq : d.limits = limits
  capacity_eq : d.labels.capacity = limits.labels
  known_iff : ∀ hash, (Labels.lookup hash d.labels.entries).isSome ↔ hash ∈ boundHashes before
  labels_size : d.labels.size = (boundHashes before).card
  body_size : d.body.size = codeSize before

theorem Counts.empty (limits : Limits) : (empty limits).Counts limits [] := by
  constructor <;> simp [Draft.empty, Labels.empty, Labels.size, Labels.lookup, boundHashes]

theorem Counts.takes (h : d.Counts limits before)
    (ht : d.Takes final number (Statement.ofSource line) d') :
    d'.Counts limits (before ++ [line]) := by
  have hlimits : d'.limits = limits := by rw [ht.limits_eq, h.limits_eq]
  have hbody : d'.body.size = codeSize (before ++ [line]) := by
    rw [ht.size_body, h.body_size]
    simp
  by_cases hlabel : ∃ name, Statement.ofSource line = .label name
  · obtain ⟨name, hname⟩ := hlabel
    have hdefine := ht.define_eq name hname
    obtain ⟨hcapacity, hsize⟩ := Labels.size_define hdefine
    refine ⟨hlimits, hcapacity.trans h.capacity_eq, ?_, ?_, hbody⟩
    · intro hash
      rw [Labels.lookup_define hdefine, boundHashes_label hname, Finset.mem_insert, ← h.known_iff]
      by_cases heq : Fnv.ofChars name = hash
      · simp [heq]
      · simp [heq, Ne.symm heq]
    · rw [hsize, h.labels_size, boundHashes_label hname]
      by_cases hknown : Fnv.ofChars name ∈ boundHashes before
      · rw [if_pos ((h.known_iff _).mpr hknown), Finset.insert_eq_of_mem hknown, Nat.add_zero]
      · rw [if_neg (mt (h.known_iff _).mp hknown), Finset.card_insert_of_notMem hknown]
  · have hlabels := ht.labels_eq (not_exists.mp hlabel)
    have hhashes := boundHashes_of_not_label (not_exists.mp hlabel) before
    refine ⟨hlimits, ?_, ?_, ?_, hbody⟩
    · rw [hlabels, h.capacity_eq]
    · rw [hlabels, hhashes]
      exact h.known_iff
    · rw [hlabels, hhashes, h.labels_size]

/-- Which lines a draft refuses, and why. -/
theorem addLine_fault_iff {line : List Char} :
    (d.addLine final number line).2 = some fault ↔
      (∃ name, Statement.ofLine line = .label name ∧
        (Labels.lookup (Fnv.ofChars name) d.labels.entries).isSome = false ∧
        d.labels.capacity ≤ d.labels.size ∧ fault = .tooManyLabels d.labels.capacity) ∨
      ∃ i text, Statement.ofLine line = .instruction i text ∧
        d.limits.body < d.body.size + i.size ∧
        fault = .bodyTooLong (d.body.size + i.size) d.limits.body := by
  cases hs : Statement.ofLine line with
  | label name =>
    simp only [addLine, hs, Labels.define]
    by_cases hknown : (Labels.lookup (Fnv.ofChars name) d.labels.entries).isSome
    · simp [hknown, Option.ne_none_iff_isSome]
    · rw [Option.not_isSome_iff_eq_none] at hknown
      by_cases hfull : d.labels.capacity ≤ d.labels.size
      · simp [hknown, hfull, @eq_comm _ fault]
      · simp [hknown, hfull]
  | instruction i text =>
    simp only [addLine, hs, i.length_encode]
    rw [warn_frame]
    by_cases hlong : d.limits.body < d.body.size + i.size
    · simp [hlong, @eq_comm _ fault]
    · simp [hlong]
  | _ => simp [addLine, hs]

/-- A draft that holds the lines so far refuses a line that goes beyond a limit, and no other. -/
theorem Counts.addLine_fault_iff (h : d.Counts limits before) (hw : WithinLimits limits before) :
    (d.addLine final number (Text.trim line.toList)).2 = some fault ↔
      Exceeds limits before line fault := by
  have hnew (name : List Char) :
      (Labels.lookup (Fnv.ofChars name) d.labels.entries).isSome = false ↔
        Fnv.ofChars name ∉ boundHashes before := by
    rw [← h.known_iff, Bool.not_eq_true]
  rw [Draft.addLine_fault_iff, h.limits_eq, h.capacity_eq, h.labels_size, h.body_size]
  constructor
  · rintro (⟨name, hs, hunknown, hfull, rfl⟩ | ⟨i, text, hs, hlong, rfl⟩)
    · exact .labels hs ((hnew name).mp hunknown) (Nat.le_antisymm hw.labels hfull)
    · exact .body hs hw.body hlong
  · rintro (⟨hs, hunknown, hfull⟩ | ⟨hs, -, hlong⟩)
    · exact .inl ⟨_, hs, (hnew _).mpr hunknown, hfull.ge, rfl⟩
    · exact .inr ⟨_, _, hs, hlong, rfl⟩

/-- Lines are taken in up to the first one that goes beyond a limit. -/
theorem Counts.addLines_fault_iff (h : d.Counts limits before) (hw : WithinLimits limits before) :
    (addLines final d number lines).2 = some fault ↔
      ∃ taken line after, lines = taken ++ line :: after ∧
        WithinLimits limits (before ++ taken) ∧ Exceeds limits (before ++ taken) line fault := by
  induction lines generalizing d before number with
  | nil => simp [addLines]
  | cons line rest ih =>
    have hfault (fault : Fault) :
        (d.addLine final number (Text.trim line.toList)).2 = some fault ↔
          Exceeds limits before line fault := h.addLine_fault_iff hw
    rcases hline : d.addLine final number (Text.trim line.toList) with ⟨d₁, _ | own⟩
    · simp only [hline, reduceCtorEq, false_iff] at hfault
      have hcounts := h.takes (takes_of_addLine hline)
      simp only [addLines, hline, ih hcounts (hw.snoc hfault), List.append_assoc,
        List.singleton_append]
      constructor
      · rintro ⟨taken, refused, after, rfl, hwithin, hexceeds⟩
        exact ⟨line :: taken, refused, after, rfl, hwithin, hexceeds⟩
      · rintro ⟨taken, refused, after, hl, hwithin, hexceeds⟩
        cases taken with
        | nil =>
          obtain ⟨rfl, rfl⟩ := List.cons.inj hl
          rw [List.append_nil] at hexceeds
          exact absurd hexceeds (hfault fault)
        | cons first taken =>
          obtain ⟨rfl, rfl⟩ := List.cons.inj hl
          exact ⟨taken, refused, after, rfl, hwithin, hexceeds⟩
    · simp only [hline] at hfault
      simp only [addLines, hline, hfault]
      constructor
      · intro hexceeds
        exact ⟨[], line, rest, rfl, by simpa using hw, by simpa using hexceeds⟩
      · rintro ⟨taken, refused, after, hl, hwithin, hexceeds⟩
        cases taken with
        | nil =>
          obtain ⟨rfl, rfl⟩ := List.cons.inj hl
          simpa using hexceeds
        | cons first taken =>
          -- The line itself goes beyond a limit, so no lines with it keep to the limits.
          obtain ⟨rfl, rfl⟩ := List.cons.inj hl
          rw [List.append_cons] at hwithin
          exact absurd hwithin.of_append ((hfault own).mp rfl).not_within

/-- Before the final pass nothing is remarked on, whatever comes of a line. -/
theorem warnings_addLine_first (d : Draft) (number : Nat) (line : List Char) :
    (d.addLine false number line).1.warnings = d.warnings := by
  cases hs : Statement.ofLine line with
  | label name =>
    simp only [addLine, hs]
    split <;> rfl
  | instruction i text =>
    simp only [addLine, hs, warn, Bool.false_eq_true, ↓reduceIte]
    split <;> rfl
  | _ => simp [addLine, hs, warn]

theorem warnings_addLines_first (d : Draft) (number : Nat) (lines : List String) :
    (addLines false d number lines).1.warnings = d.warnings := by
  induction lines generalizing d number with
  | nil => rfl
  | cons line rest ih =>
    have hown := d.warnings_addLine_first number (Text.trim line.toList)
    rcases hline : d.addLine false number (Text.trim line.toList) with ⟨d₁, _ | fault⟩
    · rw [hline] at hown
      simp only [addLines, hline, ih]
      exact hown
    · rw [hline] at hown
      simp only [addLines, hline]
      exact hown

/-- The first pass goes up to the first line that goes beyond a limit. -/
theorem firstPass_fault_iff (limits : Limits) (lines : List String) (fault : Fault) :
    ((empty limits).pass false lines).2 = some fault ↔ FirstExcess limits lines fault := by
  have hlines : ((empty limits).pass false lines).2 = some fault ↔ _ :=
    (Counts.empty limits).addLines_fault_iff (.nil limits)
  simp only [hlines, FirstExcess, List.nil_append, withinLimits_iff, and_comm]

/-- An assembly that fails does so in the first pass. -/
theorem firstPass_of_error (h : (empty limits).assemble lines = (d, .error fault)) :
    (empty limits).pass false lines = (d, some fault) := by
  rcases hfirst : (empty limits).pass false lines with ⟨d₁, _ | own⟩
  · obtain ⟨a, ha⟩ := exists_assemble hfirst
    rw [StackMachine.assemble, h] at ha
    cases ha
  · simp only [assemble, hfirst] at h
    cases h
    rfl

theorem warnings_firstPass (h : (empty limits).pass false lines = (d, some fault)) :
    d.warnings = #[] := by
  have hsame := warnings_addLines_first
    { empty limits with body := #[], listing := #[], warnings := #[] } 1 lines
  rwa [← pass, h] at hsame

end Draft

theorem assemble_error_iff {limits : Limits} {lines : List String} {fault : Fault} :
    assemble limits lines = .error fault ↔ FirstExcess limits lines fault := by
  rw [← Draft.firstPass_fault_iff]
  constructor
  · intro h
    rw [Draft.firstPass_of_error (Prod.ext rfl h)]
  · intro h
    rcases hfirst : (Draft.empty limits).pass false lines with ⟨d, result⟩
    rw [hfirst] at h
    cases h
    simp only [assemble, Draft.assemble, hfirst]

/-- An assembly fails at the first line that goes beyond a limit, and with what that line leads to.
If there is no such line, it goes through. When it fails, this is in the first pass, and it has had
nothing to say before. A final pass does not fail. -/
theorem assemble_fails_at_first_excess (limits : Limits) (lines : List String) :
    (∀ fault, assemble limits lines = .error fault ↔ FirstExcess limits lines fault) ∧
    ((∃ a, assemble limits lines = .ok a) ↔ ∀ fault, ¬ GoesBeyond limits lines fault) ∧
    (∀ d fault, (Draft.empty limits).assemble lines = (d, .error fault) →
      (Draft.empty limits).pass false lines = (d, some fault) ∧ d.warnings = #[] ∧
        d.records false = []) ∧
    ∀ d, (Draft.empty limits).pass false lines = (d, none) →
      ∃ d', d.pass true lines = (d', none) := by
  refine ⟨fun fault => assemble_error_iff, ?_, ?_, fun d h => Draft.pass_again h⟩
  · constructor
    · rintro ⟨a, ha⟩ fault hbeyond
      obtain ⟨first, hfirst⟩ := hbeyond.exists_firstExcess
      rw [assemble_error_iff.mpr hfirst] at ha
      cases ha
    · intro h
      cases ha : assemble limits lines with
      | ok a => exact ⟨a, rfl⟩
      | error fault => exact absurd (assemble_error_iff.mp ha).goesBeyond (h fault)
  · intro d fault h
    have hfirst := Draft.firstPass_of_error h
    have hwarnings := Draft.warnings_firstPass hfirst
    refine ⟨hfirst, hwarnings, ?_⟩
    simp [Draft.records, hwarnings]

/-- A label that is known needs no place, and code may fill the body, but not go beyond it. -/
example : (assemble ⟨1, 5⟩ ["HERE A", "JMP A", "HERE A", "OUT"]).toOption = none ∧
    (assemble ⟨1, 6⟩ ["HERE A", "JMP A", "HERE A", "OUT"]).toOption.isSome := by
  decide +kernel

end StackMachine
