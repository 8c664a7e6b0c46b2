import StackMachine.Proofs.Operand.Grammar

namespace StackMachine

namespace Bytes

/-- An ASCII byte of a character is the whole character. -/
theorem utf8EncodeChar_of_mem {c : Char} {b : UInt8} (hb : b.toNat < 128)
    (h : b ∈ String.utf8EncodeChar c) : String.utf8EncodeChar c = [b] := by
  unfold String.utf8EncodeChar at h ⊢
  simp only at h ⊢
  split at h
  · rename_i hc
    rw [if_pos hc]
    rw [List.mem_singleton.mp h]
  · exfalso
    split_ifs at h <;>
      simp only [List.mem_cons, List.not_mem_nil, or_false] at h <;>
      rcases h with rfl | rfl | rfl | rfl <;>
      simp at hb <;> omega

/-- An ASCII byte of a character is its code point. -/
theorem toNat_of_mem_utf8EncodeChar {c : Char} {b : UInt8} (hb : b.toNat < 128)
    (h : b ∈ String.utf8EncodeChar c) : c.toNat = b.toNat := by
  have hwhole := utf8EncodeChar_of_mem hb h
  have hsize := congrArg List.length hwhole
  rw [String.length_utf8EncodeChar, List.length_singleton, Char.utf8Size_eq_one_iff,
    UInt32.le_iff_toNat_le] at hsize
  have hascii : c.toNat < 128 := Nat.lt_succ_of_le hsize
  have hbytes := @ofChars_ascii [c] (by simpa using hascii)
  rw [ofChars, List.flatMap_singleton, hwhole, List.map_singleton] at hbytes
  rw [(List.cons.inj hbytes).1, toNat_toUInt8]
  omega

/-- Behind an ASCII byte of a text a character ends. -/
theorem exists_boundary {text : List Char} {front rest : List UInt8} {b : UInt8}
    (hb : b.toNat < 128) (h : ofChars text = front ++ b :: rest) :
    ∃ before after, text = before ++ after ∧ ofChars before = front ++ [b] := by
  induction text generalizing front with
  | nil => simp [ofChars] at h
  | cons c text ih =>
    have hcons : ofChars (c :: text) = String.utf8EncodeChar c ++ ofChars text := rfl
    rw [hcons] at h
    rcases List.append_eq_append_iff.mp h with ⟨more, hfront, htext⟩ | ⟨more, hchar, hrest⟩
    · obtain ⟨before, after, rfl, hbefore⟩ := ih htext
      refine ⟨c :: before, after, rfl, ?_⟩
      rw [hfront, List.append_assoc, ← hbefore]
      rfl
    · cases more with
      | nil =>
        obtain ⟨before, after, rfl, hbefore⟩ := @ih [] hrest.symm
        refine ⟨c :: before, after, rfl, ?_⟩
        rw [List.append_nil] at hchar
        rw [← hchar, ← List.nil_append [b], ← hbefore]
        rfl
      | cons b' more =>
        obtain ⟨rfl, rfl⟩ := List.cons.inj hrest
        have hwhole := utf8EncodeChar_of_mem hb (by rw [hchar]; simp)
        have hlength := congrArg List.length (hchar.symm.trans hwhole)
        rw [List.length_append, List.length_cons, List.length_singleton] at hlength
        have hfront : front = [] := List.eq_nil_of_length_eq_zero (by omega)
        exact ⟨[c], text, rfl, by simp [ofChars, hwhole, hfront]⟩

end Bytes

namespace Operand

variable {text : List UInt8} {o : Operand} {used : Nat}

/-- The place of a form among the forms. -/
def Form.rank (form : Form) : Nat :=
  Form.all.idxOf form

/-- A form wins if no form takes more of a text, and no earlier form as much. -/
def Form.Wins (form : Form) (text : List UInt8) (o : Operand) (used : Nat) : Prop :=
  form.Matches text o used ∧ ∀ other o' used', Form.Matches other text o' used' →
    used' < used ∨ used' = used ∧ form.rank ≤ other.rank

/-- A form matches a text in one way. -/
theorem Form.Matches.unique {form : Form} {o' : Operand} {used' : Nat}
    (h : form.Matches text o used) (h' : form.Matches text o' used') : o = o' ∧ used = used' := by
  have hsame := (matchOf_eq_some_iff.mpr h).symm.trans (matchOf_eq_some_iff.mpr h')
  exact Prod.mk.inj (Option.some.inj hsame)

/-- The best match among some forms: the form takes more than those before it, and those behind it
do not take more. -/
def BestOf (text : List UInt8) (seen : List Form) (o : Operand) (used : Nat) : Prop :=
  ∃ earlier form later, seen = earlier ++ form :: later ∧ Form.Matches form text o used ∧
    (∀ other ∈ earlier, ∀ o' used', other.Matches text o' used' → used' < used) ∧
    ∀ other ∈ later, ∀ o' used', other.Matches text o' used' → used' ≤ used

theorem BestOf.le {seen : List Form} (h : BestOf text seen o used) :
    ∀ other ∈ seen, ∀ o' used', other.Matches text o' used' → used' ≤ used := by
  obtain ⟨earlier, form, later, rfl, hform, hearlier, hlater⟩ := h
  intro other hother o' used' hmatch
  rcases List.mem_append.mp hother with hmem | hmem
  · exact Nat.le_of_lt (hearlier other hmem o' used' hmatch)
  · rcases List.mem_cons.mp hmem with rfl | hmem
    · exact (hmatch.unique hform).2.le
    · exact hlater other hmem o' used' hmatch

/-- One more form is the best if it takes more than the best so far. -/
theorem BestOf.of_lt {seen : List Form} {form : Form} {o' : Operand} {used' : Nat}
    (h : BestOf text seen o used) (hform : form.Matches text o' used') (hlt : used < used') :
    BestOf text (seen ++ [form]) o' used' := by
  refine ⟨seen, form, [], rfl, hform, ?_, nofun⟩
  intro other hother o'' used'' hmatch
  exact Nat.lt_of_le_of_lt (h.le other hother o'' used'' hmatch) hlt

/-- The best so far stays the best if one more form takes no more. -/
theorem BestOf.of_le {seen : List Form} {form : Form} (h : BestOf text seen o used)
    (hle : ∀ o' used', form.Matches text o' used' → used' ≤ used) :
    BestOf text (seen ++ [form]) o used := by
  obtain ⟨earlier, best, later, rfl, hbest, hearlier, hlater⟩ := h
  refine ⟨earlier, best, later ++ [form], by simp, hbest, hearlier, ?_⟩
  intro other hother
  rcases List.mem_append.mp hother with hmem | hmem
  · exact hlater other hmem
  · rw [List.mem_singleton.mp hmem]
    exact hle

/-- What is found among some forms is their best match, and there is none if nothing is found. -/
theorem bestOf_foldl (text : List UInt8) (seen : List Form) :
    match (seen.map Form.reader).foldl (fun best form => longer best (matchOf form text)) none with
    | some (o, used) => BestOf text seen o used
    | none => ∀ form ∈ seen, ∀ o used, ¬ form.Matches text o used := by
  -- The last form is compared with the best of those before it, so the list grows at its end.
  induction seen using List.reverseRecOn with
  | nil => exact nofun
  | append_singleton seen form ih =>
    simp only [List.map_append, List.map_cons, List.map_nil, List.foldl_append, List.foldl_cons,
      List.foldl_nil]
    generalize (seen.map Form.reader).foldl (fun best form => longer best (matchOf form text)) none
      = best at ih ⊢
    rcases hmatch : matchOf form.reader text with _ | ⟨o', used'⟩
    · have hnone : ∀ o used, ¬ form.Matches text o used := by
        intro o used h
        rw [matchOf_eq_some_iff.mpr h] at hmatch
        cases hmatch
      rcases best with _ | ⟨o, used⟩
      · intro other hother
        rcases List.mem_append.mp hother with hmem | hmem
        · exact ih other hmem
        · rw [List.mem_singleton.mp hmem]
          exact hnone
      · exact BestOf.of_le ih fun o' used' h => absurd h (hnone o' used')
    · have hform := matchOf_eq_some_iff.mp hmatch
      rcases best with _ | ⟨o, used⟩
      · exact ⟨seen, form, [], rfl, hform, fun other h o used hm => absurd hm (ih other h o used),
          nofun⟩
      · simp only [longer]
        split
        · rename_i heq
          split at heq
          · rename_i hlt
            cases heq
            exact BestOf.of_lt ih hform hlt
          · rename_i hle
            cases heq
            exact BestOf.of_le ih fun o'' used'' h =>
              (h.unique hform).2 ▸ Nat.le_of_not_lt hle
        · rename_i heq
          split at heq <;> cases heq

theorem Form.mem_all (form : Form) : form ∈ Form.all := by
  cases form <;> decide

/-- The best match among all forms wins. -/
theorem BestOf.exists_wins (h : BestOf text Form.all o used) :
    ∃ form, Form.Wins form text o used := by
  have hle := h.le
  obtain ⟨earlier, form, later, hall, hform, hearlier, -⟩ := h
  have hnodup : form ∉ earlier := by
    have hdistinct : Form.all.Nodup := by decide
    rw [hall, List.nodup_append] at hdistinct
    exact fun hmem => hdistinct.2.2 form hmem form List.mem_cons_self rfl
  refine ⟨form, hform, ?_⟩
  intro other o' used' hmatch
  by_cases hother : other ∈ earlier
  · exact .inl (hearlier other hother o' used' hmatch)
  · rcases Nat.lt_or_eq_of_le (hle other other.mem_all o' used' hmatch) with hlt | heq
    · exact .inl hlt
    · refine .inr ⟨heq, ?_⟩
      rw [Form.rank, Form.rank, hall, List.idxOf_append_of_notMem hnodup,
        List.idxOf_append_of_notMem hother, List.idxOf_cons_self]
      exact Nat.add_le_add_left (Nat.zero_le _) _

theorem Form.rank_injective : Function.Injective Form.rank := by
  intro form other h
  exact (List.idxOf_inj form.mem_all).mp h

/-- There is one winner. -/
theorem Form.Wins.unique {form other : Form} {o' : Operand} {used' : Nat}
    (h : form.Wins text o used) (h' : other.Wins text o' used') : o = o' ∧ used = used' := by
  have hother := h.2 other o' used' h'.1
  have hform := h'.2 form o used h.1
  have hrank : form.rank = other.rank := by omega
  obtain rfl := Form.rank_injective hrank
  exact h.1.unique h'.1

theorem read?_eq_some_iff : read? text = some (o, used) ↔ ∃ form, Form.Wins form text o used := by
  have hbest := bestOf_foldl text Form.all
  rw [← forms_eq, ← read?] at hbest
  constructor
  · intro h
    rw [h] at hbest
    exact hbest.exists_wins
  · rintro ⟨form, hwins⟩
    rcases hread : read? text with _ | ⟨o', used'⟩
    · rw [hread] at hbest
      exact absurd hwins.1 (hbest form form.mem_all o used)
    · rw [hread] at hbest
      obtain ⟨form', hwins'⟩ := BestOf.exists_wins hbest
      obtain ⟨rfl, rfl⟩ := hwins.unique hwins'
      rfl

theorem isSome_read?_iff :
    (read? text).isSome ↔ ∃ form o used, Form.Matches form text o used := by
  have hbest := bestOf_foldl text Form.all
  rw [← forms_eq, ← read?] at hbest
  rcases hread : read? text with _ | ⟨o, used⟩
  · rw [hread] at hbest
    simp
    exact fun form => hbest form form.mem_all
  · obtain ⟨form, hwins⟩ := read?_eq_some_iff.mp hread
    exact ⟨fun _ => ⟨form, o, used, hwins.1⟩, fun _ => rfl⟩

theorem Numeral.ends_digit {numeral : List UInt8} {n : Int} (h : Numeral numeral n) :
    ∃ front b, numeral = front ++ [b] ∧ isDigitByte b = true := by
  have hdigits {digits : List UInt8} (hd : Digits digits) :
      ∃ front b, digits = front ++ [b] ∧ isDigitByte b = true :=
    ⟨_, _, (List.dropLast_append_getLast hd.ne_nil).symm, hd.digit _ (List.getLast_mem hd.ne_nil)⟩
  cases h with
  | unsigned hd => exact hdigits hd
  | positive hd | negative hd =>
    obtain ⟨front, b, rfl, hb⟩ := hdigits hd
    exact ⟨_, b, (List.cons_append ..).symm, hb⟩

/-- Every form ends in an ASCII byte. -/
theorem Form.Spells.ends_ascii {form : Form} {taken : List UInt8} (h : form.Spells taken o) :
    ∃ front b, taken = front ++ [b] ∧ b.toNat < 128 := by
  cases h with
  | offset hspelled =>
    cases hspelled
    exact ⟨_, _, rfl, by decide⟩
  | pointer | cell => exact ⟨_, _, rfl, by decide⟩
  | @register w index =>
    exact ⟨w ++ ['R'.toUInt8, 'A'.toUInt8 + index], 'X'.toUInt8, by simp [nameBytes], by decide⟩
  | @number w numeral n _ hn =>
    obtain ⟨front, b, rfl, hb⟩ := hn.ends_digit
    refine ⟨w ++ front, b, (List.append_assoc ..).symm, ?_⟩
    simp only [isDigitByte, Bool.and_eq_true, decide_eq_true_eq, UInt8.le_iff_toNat_le] at hb
    exact Nat.lt_of_le_of_lt hb.2 (by decide)
  | @character w c => exact ⟨w ++ ['\''.toUInt8, c], '\''.toUInt8, by simp, by decide⟩
  | @escape w c => exact ⟨w ++ ['\''.toUInt8, '\\'.toUInt8, c], '\''.toUInt8, by simp, by decide⟩

/-- What a form leaves of a text starts with a whole character. -/
theorem Form.Matches.exists_boundary {form : Form} {text : List Char}
    (h : form.Matches (Bytes.ofChars text) o used) :
    ∃ before after, text = before ++ after ∧ (Bytes.ofChars before).length = used := by
  obtain ⟨taken, rest, htext, rfl, hspells, -⟩ := h
  obtain ⟨front, b, rfl, hb⟩ := hspells.ends_ascii
  rw [List.append_assoc] at htext
  obtain ⟨before, after, rfl, hbefore⟩ := Bytes.exists_boundary hb htext
  exact ⟨before, after, rfl, by rw [hbefore]⟩

/-- An operand is read from a text if and only if one of the forms matches its start. The longest
form wins, and of two that are as long the earlier one. It takes no more bytes than there are, and
what it leaves is a text again. -/
theorem reads_longest_form (text : List Char) :
    ((read? (Bytes.ofChars text)).isSome ↔
      ∃ form o used, Form.Matches form (Bytes.ofChars text) o used) ∧
    (∀ o used, read? (Bytes.ofChars text) = some (o, used) ↔
      ∃ form, Form.Wins form (Bytes.ofChars text) o used) ∧
    ∀ o used, read? (Bytes.ofChars text) = some (o, used) →
      used ≤ (Bytes.ofChars text).length ∧
      ∃ before after, text = before ++ after ∧ (Bytes.ofChars before).length = used ∧
        Bytes.dropBytes? used text = some after := by
  refine ⟨isSome_read?_iff, fun o used => read?_eq_some_iff, ?_⟩
  intro o used hread
  obtain ⟨form, hmatch, -⟩ := read?_eq_some_iff.mp hread
  obtain ⟨before, after, rfl, rfl⟩ := hmatch.exists_boundary
  refine ⟨?_, before, after, rfl, rfl, Bytes.dropBytes?_append before after⟩
  rw [Bytes.ofChars_append, List.length_append]
  exact Nat.le_add_right _ _

/-- A quoted backslash is a character, but before another quote it makes that quote one. -/
example : read? (Bytes.ofChars "'\\''".toList) = some (.immediate 0x27, 4) ∧
    read? (Bytes.ofChars "'\\' # one".toList) = some (.immediate 0x5C, 3) := by
  decide +kernel

end Operand

end StackMachine
