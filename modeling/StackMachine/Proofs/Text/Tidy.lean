import StackMachine.Text.Line
import Mathlib.Tactic.Common

namespace StackMachine.Text

/-- A printable character of ASCII. -/
def IsPrintable (c : Char) : Prop :=
  0x20 ≤ c.toNat ∧ c.toNat ≤ 0x7e

instance (c : Char) : Decidable (IsPrintable c) :=
  inferInstanceAs (Decidable (_ ∧ _))

structure Tidy (line : List Char) : Prop where
  printable : ∀ c ∈ line, IsPrintable c
  head_not_blank : ∀ c ∈ line.head?, isBlank c = false
  last_not_blank : ∀ c ∈ line.getLast?, isBlank c = false

def isTidy (line : List Char) : Bool :=
  line.all (fun c => decide (IsPrintable c)) && line.head?.all (fun c => !isBlank c) &&
    line.getLast?.all fun c => !isBlank c

theorem isTidy_iff {line : List Char} : isTidy line = true ↔ Tidy line := by
  simp only [isTidy, Bool.and_eq_true, List.all_eq_true, Option.all_eq_true, decide_eq_true_eq,
    Bool.not_eq_true']
  constructor
  · rintro ⟨⟨hprintable, hhead⟩, hlast⟩
    exact ⟨hprintable, hhead, hlast⟩
  · intro h
    exact ⟨⟨h.printable, h.head_not_blank⟩, h.last_not_blank⟩

instance (line : List Char) : Decidable (Tidy line) :=
  decidable_of_iff _ isTidy_iff

/-- Text without blanks is tidy. -/
theorem tidy_of_not_blank {text : List Char} (hp : ∀ c ∈ text, IsPrintable c)
    (hb : ∀ c ∈ text, isBlank c = false) : Tidy text :=
  ⟨hp, fun c hc => hb c (List.mem_of_head? hc), fun c hc => hb c (List.mem_of_getLast? hc)⟩

theorem trimStart_eq {text : List Char} (h : ∀ c ∈ text.head?, isBlank c = false) :
    trimStart text = text := by
  cases text with
  | nil => rfl
  | cons c text => simp [trimStart, h c rfl]

theorem trimEnd_eq {text : List Char} (h : ∀ c ∈ text.getLast?, isBlank c = false) :
    trimEnd text = text := by
  have hstart : trimStart text.reverse = text.reverse := by
    apply trimStart_eq
    rwa [List.head?_reverse]
  simp only [trimStart] at hstart
  rw [trimEnd, hstart, List.reverse_reverse]

theorem Tidy.trim {line : List Char} (h : Tidy line) : trim line = line := by
  rw [Text.trim, trimStart_eq h.head_not_blank, trimEnd_eq h.last_not_blank]

theorem pieces_cons {c : Char} (h : c ≠ '\n') (text : List Char) :
    pieces (c :: text) = consFirst c (pieces text) := by
  simp [pieces, h]

/-- The first line of a text goes up to its newline. -/
theorem pieces_append {line : List Char} (rest : List Char) (h : '\n' ∉ line) :
    pieces (line ++ '\n' :: rest) = (line ++ ['\n']) :: pieces rest := by
  induction line with
  | nil => simp [pieces]
  | cons c line ih =>
    have hc : c ≠ '\n' := fun hc => h (hc ▸ List.mem_cons_self)
    rw [List.cons_append, pieces_cons hc, ih fun hl => h (List.mem_cons_of_mem c hl)]
    rfl

theorem Tidy.newline_notMem {line : List Char} (h : Tidy line) : '\n' ∉ line := by
  intro hn
  have hprintable := (h.printable _ hn).1
  simp at hprintable

theorem Tidy.chomp {line : List Char} (h : Tidy line) : chomp (line ++ ['\n']) = line := by
  have hlast : line.getLast? ≠ some '\r' := by
    intro hr
    have hprintable := (h.printable _ (List.mem_of_getLast? hr)).1
    simp at hprintable
  simp [Text.chomp, dropEnding, hlast]

/-- A text of tidy lines, each with a newline, has those lines. -/
theorem lines_tidy {source : List String} (h : ∀ line ∈ source, Tidy line.toList) :
    lines (source.flatMap fun line => line.toList ++ ['\n']) = source.map String.toList := by
  induction source with
  | nil => rfl
  | cons line rest ih =>
    have htidy := h line List.mem_cons_self
    have hrest := ih fun line' hl => h line' (List.mem_cons_of_mem line hl)
    simp only [lines] at hrest ⊢
    rw [List.flatMap_cons, List.append_assoc, List.singleton_append,
      pieces_append _ htidy.newline_notMem, List.map_cons, hrest, htidy.chomp, List.map_cons]

theorem trimmedLines_tidy {text : String} {source : List String}
    (ht : text.toList = source.flatMap fun line => line.toList ++ ['\n'])
    (h : ∀ line ∈ source, Tidy line.toList) : trimmedLines text = source := by
  rw [trimmedLines, ht, lines_tidy h, List.map_map]
  have hsame : ∀ line ∈ source, String.ofList (trim line.toList) = line := by
    intro line hl
    rw [(h line hl).trim, String.ofList_toList]
  exact (List.map_congr_left hsame).trans source.map_id

end StackMachine.Text
