import Mathlib.Data.List.TakeWhile
import StackMachine.Proofs.Text.Decimal
import StackMachine.Proofs.Text.Tidy

namespace StackMachine.Text

/-- A run of white space, which may be empty. -/
def AllBlank (run : List Char) : Prop :=
  ∀ c ∈ run, isBlank c = true

instance (run : List Char) : Decidable (AllBlank run) :=
  List.decidableBAll _ run

def NoBlank (run : List Char) : Prop :=
  ∀ c ∈ run, isBlank c = false

instance (run : List Char) : Decidable (NoBlank run) :=
  List.decidableBAll _ run

variable {left right text run word gap rest : List Char}

theorem trimStart_blank (h : AllBlank run) (text : List Char) :
    trimStart (run ++ text) = trimStart text := by
  rw [trimStart, List.dropWhile_append_of_pos h]
  rfl

theorem trimStart_allBlank (h : AllBlank run) : trimStart run = [] :=
  List.dropWhile_eq_nil_iff.mpr h

theorem trimEnd_append (text rest : List Char) :
    trimEnd (text ++ rest) = if trimEnd rest = [] then trimEnd text else text ++ trimEnd rest := by
  simp only [trimEnd, List.reverse_append, List.dropWhile_append, List.reverse_eq_nil_iff,
    List.isEmpty_iff]
  split <;> simp

theorem trimEnd_allBlank (h : AllBlank run) : trimEnd run = [] := by
  rw [trimEnd, List.reverse_eq_nil_iff, List.dropWhile_eq_nil_iff]
  intro c hc
  exact h c (List.mem_reverse.mp hc)

/-- Blanks at both ends do not count. -/
theorem trim_margins (hl : AllBlank left) (hr : AllBlank right) (text : List Char) :
    trim (left ++ text ++ right) = trim text := by
  have hend (text : List Char) : trimEnd (text ++ right) = trimEnd text := by
    rw [trimEnd_append, if_pos (trimEnd_allBlank hr)]
  rw [trim, List.append_assoc, trimStart_blank hl]
  by_cases hblank : trimStart text = []
  · have hall : AllBlank (text ++ right) := by
      rw [trimStart, List.dropWhile_eq_nil_iff] at hblank
      exact List.forall_mem_append.mpr ⟨hblank, hr⟩
    rw [trim, trimStart_allBlank hall, hblank]
  · have hstart : trimStart (text ++ right) = trimStart text ++ right := by
      rw [trimStart, List.dropWhile_append, if_neg (by simpa [trimStart] using hblank)]
      rfl
    rw [hstart, hend, trim]

/-- What is trimmed away is blank. -/
theorem exists_margins (text : List Char) :
    ∃ left right, AllBlank left ∧ AllBlank right ∧ text = left ++ trim text ++ right := by
  have hfront := @List.takeWhile_append_dropWhile _ isBlank text
  have hback := @List.takeWhile_append_dropWhile _ isBlank (trimStart text).reverse
  refine ⟨text.takeWhile isBlank, ((trimStart text).reverse.takeWhile isBlank).reverse,
    fun c hc => List.mem_takeWhile_imp hc,
    fun c hc => List.mem_takeWhile_imp (List.mem_reverse.mp hc), ?_⟩
  rw [List.append_assoc, trim, trimEnd, ← List.reverse_append, hback, List.reverse_reverse]
  exact hfront.symm

theorem trim_trim (text : List Char) : trim (trim text) = trim text := by
  obtain ⟨left, right, hl, hr, htext⟩ := exists_margins text
  have hmargins := trim_margins hl hr (trim text)
  rw [← htext] at hmargins
  exact hmargins.symm

/-- A trimmed text starts with the first character that is not blank. -/
theorem head?_trim (text : List Char) : (trim text).head? = text.find? (!isBlank ·) := by
  have hfirst : text.find? (!isBlank ·) = (trimStart text).head? :=
    text.find?_not_eq_head?_dropWhile isBlank
  rw [hfirst, trim]
  cases hstart : trimStart text with
  | nil => rfl
  | cons c rest =>
    have hblank : isBlank c = false := by
      rw [hstart] at hfirst
      simpa using List.find?_some hfirst
    have hsingle : trimEnd [c] = [c] := by
      apply trimEnd_eq
      rintro c' ⟨⟩
      exact hblank
    rw [← List.singleton_append, trimEnd_append, hsingle]
    split <;> rfl

/-- If only blanks follow the first word, trimming leaves the word alone. Otherwise the blanks right
behind the word stay. -/
theorem trim_gap (hl : AllBlank left) (hw : NoBlank word) (hne : word ≠ [])
    (hg : AllBlank gap) : trim (left ++ word ++ gap ++ rest) =
      if trimEnd rest = [] then word else word ++ gap ++ trimEnd rest := by
  have hhead : ∀ c ∈ (word ++ (gap ++ rest)).head?, isBlank c = false := by
    obtain ⟨c, word, rfl⟩ := List.exists_cons_of_ne_nil hne
    rintro c' ⟨⟩
    exact hw c List.mem_cons_self
  have hword : trimEnd word = word :=
    trimEnd_eq fun c hc => hw c (List.mem_of_getLast? hc)
  have hempty : trimEnd (gap ++ rest) = if trimEnd rest = [] then [] else gap ++ trimEnd rest := by
    rw [trimEnd_append, trimEnd_allBlank hg]
  rw [trim, List.append_assoc, List.append_assoc, trimStart_blank hl, trimStart_eq hhead,
    trimEnd_append, hempty, hword]
  by_cases hrest : trimEnd rest = []
  · rw [if_pos hrest, if_pos rfl, if_pos hrest]
  · rw [if_neg hrest, if_neg (by simp [hrest]), if_neg hrest, List.append_assoc]

/-- The first word of a line ends where blanks start, and what follows it starts where they end. -/
theorem firstWord_gap (hw : NoBlank word) (hg : AllBlank gap) (hne : gap ≠ [])
    (rest : List Char) :
    firstWord (word ++ gap ++ rest) = word ∧ afterWord (word ++ gap ++ rest) = trimStart rest := by
  have hin : ∀ c ∈ word, (!isBlank c) = true := fun c hc => by rw [hw c hc, Bool.not_false]
  have hout : ∀ c ∈ (gap ++ rest).head?, (!isBlank c) = false := by
    obtain ⟨c, gap, rfl⟩ := List.exists_cons_of_ne_nil hne
    rintro c' ⟨⟩
    simpa using hg c List.mem_cons_self
  rw [List.append_assoc]
  refine ⟨takeWhile_run hin hout, ?_⟩
  rw [afterWord, dropWhile_run hin hout, trimStart_blank hg]

end StackMachine.Text
