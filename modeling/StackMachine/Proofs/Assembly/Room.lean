import StackMachine.Proofs.Assembly.Listing
import StackMachine.Proofs.Assembly.Resolution

namespace StackMachine

namespace Labels

variable {labels labels' : Labels} {name : List Char} {offset : Nat}

theorem exists_define_iff : (∃ labels', labels.define name offset = .ok labels') ↔
    (lookup (Fnv.ofChars name) labels.entries).isSome ∨ labels.size < labels.capacity := by
  unfold define
  by_cases hknown : (lookup (Fnv.ofChars name) labels.entries).isSome
  · simp [hknown]
  · by_cases hfull : labels.capacity ≤ labels.size
    · simp [hknown, hfull]
    · simp [hknown, hfull, Nat.lt_of_not_le hfull]

/-- A definition is refused if there is no place left and its hash has none. -/
theorem define_error_iff {fault : Fault} : labels.define name offset = .error fault ↔
    ¬ (lookup (Fnv.ofChars name) labels.entries).isSome ∧ labels.capacity ≤ labels.size ∧
      fault = .tooManyLabels labels.capacity := by
  unfold define
  by_cases hknown : (lookup (Fnv.ofChars name) labels.entries).isSome
  · simp [hknown]
  · by_cases hfull : labels.capacity ≤ labels.size
    · simp [hknown, hfull, @eq_comm _ fault]
    · simp [hknown, hfull]

/-- Only a hash that is new takes up a place. -/
theorem size_define (h : labels.define name offset = .ok labels') :
    labels'.capacity = labels.capacity ∧ labels'.size = labels.size +
      if (lookup (Fnv.ofChars name) labels.entries).isSome then 0 else 1 := by
  rw [define_eq h]
  refine ⟨rfl, ?_⟩
  unfold bind
  split <;> simp [size]

end Labels

namespace Draft

variable {final final' : Bool} {d d' e e' : Draft} {number number' : Nat}

/-- There is room for a line in a draft. -/
structure HasRoom (d : Draft) (s : Statement) : Prop where
  label : ∀ hash, s.labelHash? = some hash →
    (Labels.lookup hash d.labels.entries).isSome ∨ d.labels.size < d.labels.capacity
  code : 0 < s.size → d.body.size + s.size ≤ d.limits.body

theorem exists_addLine_iff {line : List Char} :
    (∃ d', d.addLine final number line = (d', none)) ↔ d.HasRoom (Statement.ofLine line) := by
  unfold addLine
  split
  · rename_i hs
    rw [hs]
    exact ⟨fun _ => ⟨nofun, nofun⟩, fun _ => ⟨_, rfl⟩⟩
  · rename_i hs
    rw [hs]
    exact ⟨fun _ => ⟨nofun, nofun⟩, fun _ => ⟨_, rfl⟩⟩
  · rename_i word hs
    rw [hs]
    exact ⟨fun _ => ⟨nofun, nofun⟩, fun _ => ⟨_, rfl⟩⟩
  · rename_i name hs
    have hdefine := @Labels.exists_define_iff d.labels name d.offset
    rw [hs]
    constructor
    · rintro ⟨d', h⟩
      split at h
      · cases h
      · rename_i labels hlabels
        refine ⟨?_, nofun⟩
        rintro hash ⟨⟩
        exact hdefine.mp ⟨labels, hlabels⟩
    · intro hroom
      obtain ⟨labels, hlabels⟩ := hdefine.mpr (hroom.label _ rfl)
      simp only [hlabels]
      exact ⟨_, rfl⟩
  · rename_i i text hs
    have hlength := i.length_encode d.labels text d.offset
    have hpos : 0 < i.size := by
      unfold Instruction.size
      split <;> omega
    simp only [hs, hlength]
    rw [warn_frame]
    constructor
    · rintro ⟨d', h⟩
      split at h
      · cases h
      · rename_i hfits
        exact ⟨nofun, fun _ => Nat.le_of_not_lt hfits⟩
    · intro hroom
      have hfits : d.body.size + i.size ≤ d.limits.body := hroom.code hpos
      rw [if_neg (Nat.not_lt.mpr hfits)]
      exact ⟨_, rfl⟩

/-- Wherever there is room for some lines in the first draft, there is room in the second one: it
knows their labels, or it has as many places left and the first one does not know them either. -/
structure Roomier (lines : List String) (d e : Draft) : Prop where
  body : e.body.size + d.limits.body ≤ d.body.size + e.limits.body
  label : ∀ line ∈ lines, ∀ hash, (Statement.ofSource line).labelHash? = some hash →
    (Labels.lookup hash e.labels.entries).isSome ∨ Labels.lookup hash d.labels.entries = none ∧
      e.labels.size + d.labels.capacity ≤ d.labels.size + e.labels.capacity

theorem Roomier.hasRoom {line : String} {rest : List String} (h : Roomier (line :: rest) d e)
    (hd : d.HasRoom (Statement.ofSource line)) : e.HasRoom (Statement.ofSource line) := by
  refine ⟨?_, ?_⟩
  · intro hash hs
    rcases h.label line List.mem_cons_self hash hs with hknown | ⟨hnew, hfree⟩
    · exact .inl hknown
    · rcases hd.label hash hs with hsome | hlt
      · simp [hnew] at hsome
      · right
        omega
  · intro hpos
    have hfits := hd.code hpos
    have hbody := h.body
    omega

/-- A line that both drafts take in leaves the second one with as much room as before. -/
theorem Roomier.takes {line : String} {rest : List String} (h : Roomier (line :: rest) d e)
    (hd : d.Takes final number (Statement.ofSource line) d')
    (he : e.Takes final' number' (Statement.ofSource line) e') : Roomier rest d' e' := by
  refine ⟨?_, ?_⟩
  · have hbody := h.body
    rw [hd.size_body, he.size_body, hd.limits_eq, he.limits_eq]
    omega
  · intro other ho hash hother
    rw [hd.lookup_eq, he.lookup_eq]
    by_cases hs : (Statement.ofSource line).labelHash? = some hash
    · simp [hs]
    · simp only [hs, ↓reduceIte, Option.none_or]
      refine (h.label other (List.mem_cons_of_mem line ho) hash hother).imp_right ?_
      rintro ⟨hnew, hfree⟩
      refine ⟨hnew, ?_⟩
      by_cases hlabel : ∃ name, Statement.ofSource line = .label name
      · obtain ⟨name, hname⟩ := hlabel
        obtain ⟨hcapacity, hsize⟩ := Labels.size_define (hd.define_eq name hname)
        obtain ⟨hcapacity', hsize'⟩ := Labels.size_define (he.define_eq name hname)
        have hown := h.label line List.mem_cons_self (Fnv.ofChars name) (by rw [hname]; rfl)
        rw [hcapacity, hcapacity', hsize, hsize']
        -- The second draft takes up a place for the label only if the first one does so, too.
        rcases hown with hknown | ⟨hunknown, -⟩
        · simp only [hknown, ↓reduceIte]
          omega
        · simp only [hunknown, Option.isSome_none, Bool.false_eq_true, ↓reduceIte]
          split <;> omega
      · rw [hd.labels_eq (not_exists.mp hlabel), he.labels_eq (not_exists.mp hlabel)]
        exact hfree

theorem Roomier.addLines {lines : List String} (h : Roomier lines d e)
    (hd : addLines final d number lines = (d', none)) :
    ∃ e', addLines final' e number' lines = (e', none) := by
  induction lines generalizing d e number number' with
  | nil => exact ⟨e, rfl⟩
  | cons line rest ih =>
    obtain ⟨d₁, hline, hrest⟩ := addLines_cons.mp hd
    have hroom := h.hasRoom (exists_addLine_iff.mp ⟨d₁, hline⟩)
    obtain ⟨e₁, hline'⟩ := (@exists_addLine_iff final' e number' _).mpr hroom
    obtain ⟨e', hrest'⟩ := ih (h.takes (takes_of_addLine hline) (takes_of_addLine hline')) hrest
    exact ⟨e', addLines_cons.mpr ⟨e₁, hline', hrest'⟩⟩

/-- Once a pass has bound a label, its hash is known. -/
theorem known_of_pass {lines : List String} (h : d.pass final lines = (d', none)) {line : String}
    (hl : line ∈ lines) {hash : UInt64} (hs : (Statement.ofSource line).labelHash? = some hash) :
    (Labels.lookup hash d'.labels.entries).isSome := by
  rw [lookup_pass h, Option.isSome_or, isSome_lastBound? hl hs, Bool.true_or]

/-- A pass that went through goes through again. -/
theorem pass_again {lines : List String} (h : d.pass final lines = (d', none)) :
    ∃ e, d'.pass final' lines = (e, none) := by
  obtain ⟨hlimits, -, -, -, -⟩ := addLines_ok h
  refine Roomier.addLines ⟨?_, ?_⟩ h
  · rw [hlimits]
  · intro line hl hash hs
    exact .inl (known_of_pass h hl hs)

end Draft

/-- An assembly goes through if its first pass does. -/
theorem exists_assemble {limits : Limits} {lines : List String} {d : Draft}
    (h : (Draft.empty limits).pass false lines = (d, none)) :
    ∃ a, assemble limits lines = .ok a := by
  obtain ⟨d', hfinal⟩ := @Draft.pass_again false true _ _ _ h
  exact ⟨_, assemble_eq_ok_iff.mpr ⟨d, d', h, hfinal, rfl⟩⟩

end StackMachine
