import StackMachine.Proofs.Assembly.Room
import Mathlib.Data.Finset.Card
import Mathlib.Data.Finset.Dedup

namespace StackMachine.Labels

/-- Something that is asked of a table. -/
inductive Call where
  | define (name : List Char) (offset : Nat)
  | get (name : List Char)
  deriving Repr, DecidableEq

inductive Answer where
  | defined
  | refused (fault : Fault)
  | found (offset? : Option Nat)
  deriving Repr, DecidableEq

/-- What a call gives back and what it leaves. -/
def Call.on (labels : Labels) : Call → Answer × Labels
  | define name offset =>
    match labels.define name offset with
    | .ok labels' => (.defined, labels')
    | .error fault => (.refused fault, labels)
  | get name => (.found (labels.get? name), labels)

/-- Makes calls one after another, and keeps each with its answer. -/
def replay (labels : Labels) : List Call → List (Call × Answer) × Labels
  | [] => ([], labels)
  | call :: rest =>
    let first := call.on labels
    let later := replay first.2 rest
    ((call, first.1) :: later.1, later.2)

/-- The hash and the offset of a definition that went through. -/
def binding? : Call × Answer → Option (UInt64 × Nat)
  | (.define name offset, .defined) => some (Fnv.ofChars name, offset)
  | _ => none

/-- The definitions that went through, the first one first. -/
def bindings (log : List (Call × Answer)) : List (UInt64 × Nat) :=
  log.filterMap binding?

theorem bindings_cons (entry : Call × Answer) (log : List (Call × Answer)) :
    bindings (entry :: log) = (binding? entry).toList ++ bindings log := by
  rw [bindings, List.filterMap_cons]
  cases binding? entry <;> rfl

/-- The hashes that were defined. -/
def boundTo (bound : List (UInt64 × Nat)) : Finset UInt64 :=
  (bound.map Prod.fst).toFinset

/-- The last definition of a hash gave it an offset. -/
def LastTo (hash : UInt64) (bound : List (UInt64 × Nat)) (offset : Nat) : Prop :=
  ∃ before after, bound = before ++ (hash, offset) :: after ∧ ∀ b ∈ after, b.1 ≠ hash

section Entries

variable {hash : UInt64} {entries : List (UInt64 × Nat)}

theorem isSome_lookup_iff : (lookup hash entries).isSome ↔ hash ∈ entries.map Prod.fst := by
  induction entries with
  | nil => simp [lookup]
  | cons entry rest ih =>
    obtain ⟨other, offset⟩ := entry
    rw [List.map_cons, List.mem_cons, ← ih]
    by_cases heq : other = hash
    · simp [lookup, heq]
    · simp [lookup, heq, Ne.symm heq]

/-- An entry that is moved keeps its hash. -/
theorem map_fst_move (hash : UInt64) (offset : Nat) (entries : List (UInt64 × Nat)) :
    (move hash offset entries).map Prod.fst = entries.map Prod.fst := by
  induction entries with
  | nil => rfl
  | cons entry rest ih =>
    obtain ⟨other, old⟩ := entry
    simp only [move]
    split
    · rfl
    · rw [List.map_cons, List.map_cons, ih]

/-- A definition does not give a hash a second entry. -/
theorem nodup_bind (h : (entries.map Prod.fst).Nodup) (hash : UInt64) (offset : Nat) :
    ((bind hash offset entries).map Prod.fst).Nodup := by
  unfold bind
  split
  · rw [map_fst_move]
    exact h
  · rename_i hnew
    rw [isSome_lookup_iff] at hnew
    rw [List.map_append, List.nodup_append]
    refine ⟨h, List.nodup_singleton _, ?_⟩
    rintro other hother _ hlast rfl
    rw [List.map_singleton, List.mem_singleton] at hlast
    rw [hlast] at hother
    exact hnew hother

end Entries

section Bound

variable {hash : UInt64} {bound : List (UInt64 × Nat)} {offset : Nat}

/-- One more definition is the last one of its own hash, and of no other. -/
theorem lastTo_snoc {b : UInt64 × Nat} :
    LastTo hash (bound ++ [b]) offset ↔
      if b.1 = hash then b.2 = offset else LastTo hash bound offset := by
  constructor
  · rintro ⟨before, after, hsplit, hafter⟩
    rcases List.eq_nil_or_concat' after with rfl | ⟨front, last, rfl⟩
    · obtain ⟨-, hlast⟩ := List.append_inj' hsplit rfl
      rw [List.cons.inj hlast |>.1, if_pos rfl]
    · rw [← List.cons_append, ← List.append_assoc] at hsplit
      obtain ⟨hbound, hlast⟩ := List.append_inj' hsplit rfl
      rw [List.cons.inj hlast |>.1, if_neg (hafter last (by simp))]
      exact ⟨before, front, hbound, fun b hb => hafter b (by simp [hb])⟩
  · intro h
    split at h
    · rename_i heq
      exact ⟨bound, [], by rw [← heq, ← h], nofun⟩
    · rename_i hne
      obtain ⟨before, after, rfl, hafter⟩ := h
      refine ⟨before, after ++ [b], by simp, ?_⟩
      intro b' hb
      rcases List.mem_append.mp hb with hb | hb
      · exact hafter b' hb
      · rw [List.mem_singleton.mp hb]
        exact hne

theorem boundTo_snoc (b : UInt64 × Nat) :
    boundTo (bound ++ [b]) = insert b.1 (boundTo bound) := by
  rw [boundTo, List.map_append, List.toFinset_append, Finset.union_comm]
  rfl

/-- A hash that was defined was so for a last time. -/
theorem exists_lastTo_iff : (∃ offset, LastTo hash bound offset) ↔ hash ∈ boundTo bound := by
  induction bound using List.reverseRecOn with
  | nil => simp [LastTo, boundTo]
  | append_singleton bound b ih =>
    simp only [lastTo_snoc, boundTo_snoc, Finset.mem_insert, ← ih]
    by_cases heq : b.1 = hash
    · simp [heq]
    · simp [heq, Ne.symm heq]

end Bound

/-- A table holds what was defined, with one entry for each hash, and keeps to its capacity. -/
structure Holds (labels : Labels) (bound : List (UInt64 × Nat)) : Prop where
  nodup : (labels.entries.map Prod.fst).Nodup
  found_iff : ∀ hash offset, lookup hash labels.entries = some offset ↔ LastTo hash bound offset
  size_le : labels.size ≤ labels.capacity

namespace Holds

variable {labels labels' : Labels} {bound : List (UInt64 × Nat)} {name : List Char} {offset : Nat}

theorem empty (capacity : Nat) : (empty capacity).Holds [] := by
  refine ⟨List.nodup_nil, ?_, Nat.zero_le _⟩
  intro hash offset
  simp [Labels.empty, lookup, LastTo]

/-- A hash is known if it was defined. -/
theorem known_iff (h : labels.Holds bound) (hash : UInt64) :
    (lookup hash labels.entries).isSome ↔ hash ∈ boundTo bound := by
  rw [Option.isSome_iff_exists, ← exists_lastTo_iff]
  simp only [h.found_iff]

theorem size_eq (h : labels.Holds bound) : labels.size = (boundTo bound).card := by
  have hsame : (labels.entries.map Prod.fst).toFinset = boundTo bound := by
    ext hash
    rw [List.mem_toFinset, ← isSome_lookup_iff, h.known_iff]
  rw [← hsame, List.toFinset_card_of_nodup h.nodup, List.length_map, size]

theorem define (h : labels.Holds bound) (hd : labels.define name offset = .ok labels') :
    labels'.Holds (bound ++ [(Fnv.ofChars name, offset)]) := by
  obtain ⟨hcapacity, hsize⟩ := size_define hd
  refine ⟨?_, ?_, ?_⟩
  · rw [define_eq hd]
    exact nodup_bind h.nodup _ offset
  · intro hash offset'
    rw [lookup_define hd, lastTo_snoc]
    split
    · exact Option.some_inj
    · exact h.found_iff hash offset'
  · have hroom := exists_define_iff.mp ⟨labels', hd⟩
    have hle := h.size_le
    rw [hcapacity, hsize]
    split
    · exact hle
    · rename_i hnew
      exact Nat.succ_le_of_lt (hroom.resolve_left hnew)

/-- A call adds a definition if it goes through, and leaves the table as it is otherwise. -/
theorem on (h : labels.Holds bound) (call : Call) :
    (call.on labels).2.Holds (bound ++ (binding? (call, (call.on labels).1)).toList) ∧
      (call.on labels).2.capacity = labels.capacity := by
  have hsame : labels.Holds (bound ++ []) := by rwa [List.append_nil]
  cases call with
  | define name offset =>
    cases hd : labels.define name offset with
    | ok labels' =>
      have hon : (Call.define name offset).on labels = (.defined, labels') := by
        simp only [Call.on, hd]
      rw [hon]
      exact ⟨h.define hd, (size_define hd).1⟩
    | error fault =>
      have hon : (Call.define name offset).on labels = (.refused fault, labels) := by
        simp only [Call.on, hd]
      rw [hon]
      exact ⟨hsame, rfl⟩
  | get name => exact ⟨hsame, rfl⟩

theorem replay (h : labels.Holds bound) (calls : List Call) :
    (labels.replay calls).2.Holds (bound ++ bindings (labels.replay calls).1) ∧
      (labels.replay calls).2.capacity = labels.capacity := by
  induction calls generalizing labels bound with
  | nil => exact ⟨by rwa [Labels.replay, bindings, List.filterMap_nil, List.append_nil], rfl⟩
  | cons call rest ih =>
    obtain ⟨hfirst, hcapacity⟩ := h.on call
    obtain ⟨hrest, hkept⟩ := ih hfirst
    rw [List.append_assoc, ← bindings_cons] at hrest
    exact ⟨hrest, hkept.trans hcapacity⟩

/-- A definition is refused if its hash is new and there is no room left. -/
theorem define_error_iff (h : labels.Holds bound) {fault : Fault} :
    labels.define name offset = .error fault ↔
      Fnv.ofChars name ∉ boundTo bound ∧ labels.size = labels.capacity ∧
        fault = .tooManyLabels labels.capacity := by
  have hfull : labels.capacity ≤ labels.size ↔ labels.size = labels.capacity :=
    ⟨Nat.le_antisymm h.size_le, Nat.le_of_eq ∘ Eq.symm⟩
  rw [Labels.define_error_iff, h.known_iff, hfull]

end Holds

/-- Whatever is asked of a new table, it ends up with one entry for each hash that was defined, and
with no more entries than its capacity. A look-up finds the offset of the last definition of the
hash that went through. A definition is refused exactly if its hash is new and the table has as many
entries as its capacity. To all calls after that the table gives the same answers, and ends up the
same, as if the definition had not been tried. -/
theorem replay_is_bounded_map (capacity : Nat) (calls : List Call) :
    let labels := (replay (empty capacity) calls).2
    let bound := bindings (replay (empty capacity) calls).1
    (labels.entries.map Prod.fst).Nodup ∧
      labels.size = (boundTo bound).card ∧ labels.size ≤ capacity ∧
      (∀ name offset, labels.get? name = some offset ↔ LastTo (Fnv.ofChars name) bound offset) ∧
      (∀ name, labels.get? name = none ↔ Fnv.ofChars name ∉ boundTo bound) ∧
      (∀ name offset fault, labels.define name offset = .error fault ↔
        Fnv.ofChars name ∉ boundTo bound ∧ labels.size = capacity ∧
          fault = .tooManyLabels capacity) ∧
      ∀ name offset fault later, labels.define name offset = .error fault →
        replay labels (.define name offset :: later) =
          ((.define name offset, .refused fault) :: (replay labels later).1,
            (replay labels later).2) := by
  intro labels bound
  obtain ⟨hold, hcapacity⟩ := (Holds.empty capacity).replay calls
  rw [List.nil_append] at hold
  replace hcapacity : labels.capacity = capacity := hcapacity
  refine ⟨hold.nodup, hold.size_eq, ?_, fun name => hold.found_iff _, ?_, ?_, ?_⟩
  · rw [← hcapacity]
    exact hold.size_le
  · intro name
    rw [get?, ← hold.known_iff, Option.not_isSome_iff_eq_none]
  · intro name offset fault
    rw [hold.define_error_iff, hcapacity]
  · intro name offset fault later hd
    simp only [replay, Call.on, hd]

/-- A full table takes a known hash again but no new one, and forgets neither. -/
theorem replay_is_bounded_map_full :
    let labels := (replay (empty 1)
      [.define ['A'] 16, .define ['B'] 17, .get ['B'], .define ['A'] 21]).2
    labels.define ['C'] 30 = .error (.tooManyLabels 1) ∧ labels.get? ['A'] = some 21 ∧
      labels.replay [.define ['C'] 30, .get ['A'], .get ['C']] =
        ([(.define ['C'] 30, .refused (.tooManyLabels 1)), (.get ['A'], .found (some 21)),
          (.get ['C'], .found none)], labels) := by
  intro labels
  have hd : labels.define ['C'] 30 = .error (.tooManyLabels 1) := by decide +kernel
  obtain ⟨-, -, -, hget, -, -, hlater⟩ := replay_is_bounded_map 1
    [.define ['A'] 16, .define ['B'] 17, .get ['B'], .define ['A'] 21]
  refine ⟨hd, (hget ['A'] 21).mpr ?_, ?_⟩
  · exact ⟨[(Fnv.ofChars ['A'], 16)], [], by decide +kernel, nofun⟩
  · rw [hlater ['C'] 30 _ [.get ['A'], .get ['C']] hd]
    decide +kernel

end StackMachine.Labels
