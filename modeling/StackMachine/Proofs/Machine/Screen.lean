import StackMachine.Proofs.Machine.Printing

namespace StackMachine

namespace Screen

/-- The screen after attempts to store values under numbers, the last one in front. An attempt that
fails leaves it as it is. -/
def afterAll (s : Screen) : List (Int32 × Int32) → Screen
  | [] => s
  | (key, value) :: earlier =>
    match (s.afterAll earlier).set key value with
    | .ok t => t
    | .error _ => s.afterAll earlier

/-- The value that was stored last under the number of a cell, or zero. -/
def lastStored (attempts : List (Int32 × Int32)) (index : Nat) : Int32 :=
  ((attempts.find? fun attempt => attempt.1.toInt = (index : Int)).map Prod.snd).getD 0

/-- The character for a brightness, out of the 70 that there are. -/
def shade? (value : Int32) : Option UInt8 :=
  (Bytes.ofString palette)[(max 0 (min 69 value.toInt)).toNat]?

/-- Some bytes show the values of all cells, row by row. Without columns there is nothing to show.
-/
structure Shows (width height : Nat) (value : Nat → Int32) (bytes : List UInt8) : Prop where
  length_eq : bytes.length = if width = 0 then 0 else height * (width + 1)
  pixel : ∀ row < height, ∀ col < width,
    bytes[row * (width + 1) + col]? = shade? (value (row * width + col))
  newline : 0 < width → ∀ row < height, bytes[row * (width + 1) + width]? = some 0x0A

/-- The key is the number of one of so many cells. -/
def Numbers (key : Int32) (count : Nat) : Prop :=
  0 ≤ key.toInt ∧ key.toInt < count

instance (key : Int32) (count : Nat) : Decidable (Numbers key count) :=
  inferInstanceAs (Decidable (_ ∧ _))

section Rows

variable {n width : Nat} {f : Nat → List UInt8}

theorem length_rows (hf : ∀ i < n, (f i).length = width) :
    ((List.range n).flatMap f).length = n * width := by
  induction n with
  | zero => simp
  | succ n ih =>
    rw [List.range_succ, List.flatMap_append, List.flatMap_singleton, List.length_append,
      ih fun i hi => hf i (Nat.lt_succ_of_lt hi), hf n (Nat.lt_succ_self n), Nat.succ_mul]

/-- In rows of one width, a place is found by its row and its column. -/
theorem getElem?_rows (hf : ∀ i < n, (f i).length = width) {row col : Nat} (hr : row < n)
    (hc : col < width) : ((List.range n).flatMap f)[row * width + col]? = (f row)[col]? := by
  induction n with
  | zero => exact absurd hr (Nat.not_lt_zero row)
  | succ n ih =>
    have hfirst : ∀ i < n, (f i).length = width := fun i hi => hf i (Nat.lt_succ_of_lt hi)
    have hlength := length_rows hfirst
    rw [List.range_succ, List.flatMap_append, List.flatMap_singleton]
    rcases Nat.lt_succ_iff_lt_or_eq.mp hr with hlt | rfl
    · have hbefore : row * width + col < n * width := by
        have hrow := Nat.mul_le_mul_right width hlt
        rw [Nat.succ_mul] at hrow
        omega
      rw [List.getElem?_append_left (hlength ▸ hbefore)]
      exact ih hfirst hlt
    · rw [List.getElem?_append_right (hlength ▸ Nat.le_add_right _ _), hlength,
        Nat.add_sub_cancel_left]

end Rows

theorem shade?_eq (value : Int32) : shade? value = some (pixel value) := by
  have hsize := size_paletteBytes
  have hplace : (max 0 (min 69 value.toInt)).toNat =
      min value.toInt.toNat (paletteBytes.size - 1) := by
    omega
  have hin : min value.toInt.toNat (paletteBytes.size - 1) < paletteBytes.size := by omega
  rw [shade?, hplace, pixel, Array.getD_eq_getD_getElem?, Array.getElem?_eq_getElem hin,
    Option.getD_some, ← Array.getElem?_eq_getElem hin, paletteBytes, List.getElem?_toArray]

variable {s : Screen} {width height : Nat}

theorem row_end_le (hs : s.cells.size = s.width * height) {row : Nat} (hr : row < height) :
    (row + 1) * s.width ≤ s.cells.size := by
  rw [hs, Nat.mul_comm s.width]
  exact Nat.mul_le_mul_right s.width hr

theorem length_row (hs : s.cells.size = s.width * height) {row : Nat} (hr : row < height) :
    (s.row row).length = s.width + 1 := by
  have hend := row_end_le hs hr
  have hstart := Nat.add_one_mul row s.width
  simp only [Screen.row, List.length_append, List.length_map, Array.length_toList,
    Array.size_extract, List.length_singleton]
  omega

theorem getElem?_row (hs : s.cells.size = s.width * height) {row : Nat} (hr : row < height)
    {col : Nat} (hc : col < s.width) :
    (s.row row)[col]? = some (pixel (s.cells.getD (row * s.width + col) 0)) := by
  have hend := row_end_le hs hr
  have hstart := Nat.add_one_mul row s.width
  have hin : col < (s.cells.extract (row * s.width) ((row + 1) * s.width)).size := by
    rw [Array.size_extract]
    omega
  have hplace : row * s.width + col < s.cells.size := by omega
  have hleft : col < ((s.cells.extract (row * s.width)
      ((row + 1) * s.width)).toList.map pixel).length := by
    rw [List.length_map, Array.length_toList]
    exact hin
  rw [Screen.row, List.getElem?_append_left hleft, List.getElem?_map,
    Array.getElem?_toList, Array.getElem?_eq_getElem hin, Array.getElem_extract,
    Array.getD_eq_getD_getElem?, Array.getElem?_eq_getElem hplace]
  rfl

theorem getElem?_row_end (hs : s.cells.size = s.width * height) {row : Nat} (hr : row < height) :
    (s.row row)[s.width]? = some 0x0A := by
  have hlength := length_row hs hr
  rw [Screen.row, List.length_append, List.length_singleton, Nat.add_right_cancel_iff] at hlength
  rw [Screen.row, List.getElem?_append_right (Nat.le_of_eq hlength), hlength, Nat.sub_self]
  rfl

/-- A screen with this width and so many rows shows its cells. -/
theorem shows_render (hs : s.cells.size = s.width * height) :
    Shows s.width height (fun i => s.cells.getD i 0) s.render := by
  by_cases hw : s.width = 0
  · have hempty : s.render = [] := if_pos hw
    rw [hempty, hw]
    exact ⟨rfl, fun _ _ col hc => absurd hc (Nat.not_lt_zero col),
      fun hpos => absurd hpos (Nat.lt_irrefl 0)⟩
  · have hpos : 0 < s.width := Nat.pos_of_ne_zero hw
    have hrender : s.render = (List.range height).flatMap s.row := by
      rw [render, if_neg hw, hs, Nat.mul_div_cancel_left height hpos]
    have hrows : ∀ row < height, (s.row row).length = s.width + 1 := fun row hr => length_row hs hr
    rw [hrender]
    constructor
    case length_eq => rw [length_rows hrows, if_neg hw]
    case pixel =>
      intro row hr col hc
      rw [getElem?_rows hrows hr (Nat.lt_succ_of_lt hc), getElem?_row hs hr hc, shade?_eq]
    case newline =>
      intro _ row hr
      rw [getElem?_rows hrows hr (Nat.lt_succ_self s.width), getElem?_row_end hs hr]

theorem locate_eq (s : Screen) (key : Int32) :
    s.locate key = if Numbers key s.cells.size then .ok key.toInt.toNat
      else .error (.noPixel key.toInt s.cells.size) := by
  unfold locate indexIn? Numbers
  by_cases hkey : 0 ≤ key.toInt ∧ key.toInt < s.cells.size
  · simp only [hkey, and_self, ↓reduceIte]
  · simp only [hkey, ↓reduceIte]

theorem get_eq (s : Screen) (key : Int32) :
    s.get key = if Numbers key s.cells.size then .ok (s.cells.getD key.toInt.toNat 0)
      else .error (.noPixel key.toInt s.cells.size) := by
  rw [get, locate_eq]
  split <;> rfl

theorem set_eq (s : Screen) (key value : Int32) :
    s.set key value = if Numbers key s.cells.size then
        .ok { s with cells := s.cells.setIfInBounds key.toInt.toNat value }
      else .error (.noPixel key.toInt s.cells.size) := by
  rw [set, locate_eq]
  split <;> rfl

theorem afterAll_append (s : Screen) (later earlier : List (Int32 × Int32)) :
    s.afterAll (later ++ earlier) = (s.afterAll earlier).afterAll later := by
  induction later with
  | nil => rfl
  | cons attempt later ih => rw [List.cons_append, afterAll, afterAll, ih]

/-- A screen keeps its size, and each cell has the value that was stored there last. -/
theorem afterAll_of_make (h : make width height = .ok s) (attempts : List (Int32 × Int32)) :
    (s.afterAll attempts).width = width ∧
      (s.afterAll attempts).cells.size = width * height ∧
      ∀ i < width * height, (s.afterAll attempts).cells.getD i 0 = lastStored attempts i := by
  induction attempts with
  | nil =>
    rw [eq_of_make h]
    refine ⟨rfl, Array.size_replicate, ?_⟩
    intro i hi
    simp [afterAll, lastStored, Array.getD_eq_getD_getElem?, hi]
  | cons attempt earlier ih =>
    obtain ⟨key, value⟩ := attempt
    obtain ⟨hwidth, hsize, hcells⟩ := ih
    have hset := (s.afterAll earlier).set_eq key value
    rw [hsize] at hset
    by_cases hkey : Numbers key (width * height)
    · rw [if_pos hkey] at hset
      simp only [afterAll, hset]
      refine ⟨hwidth, by rw [Array.size_setIfInBounds, hsize], ?_⟩
      intro i hi
      have hbefore := hcells i hi
      rw [Array.getD_eq_getD_getElem?] at hbefore ⊢
      by_cases hsame : key.toInt = i
      · have hplace : key.toInt.toNat = i := by omega
        rw [hplace, Array.getElem?_setIfInBounds_self_of_lt (hsize ▸ hi)]
        simp [lastStored, hsame]
      · have hother : key.toInt.toNat ≠ i := by
          have hlow := hkey.1
          omega
        rw [Array.getElem?_setIfInBounds_ne hother, hbefore]
        simp [lastStored, hsame]
    · rw [if_neg hkey] at hset
      simp only [afterAll, hset]
      refine ⟨hwidth, hsize, ?_⟩
      intro i hi
      have hother : ¬ key.toInt = i := by
        intro hsame
        exact hkey ⟨by omega, by omega⟩
      rw [hcells i hi]
      simp [lastStored, hother]

theorem shows_afterAll (h : make width height = .ok s) (attempts : List (Int32 × Int32)) :
    Shows width height (lastStored attempts) (s.afterAll attempts).render := by
  obtain ⟨hwidth, hsize, hcells⟩ := afterAll_of_make h attempts
  have hshows := shows_render (hwidth.symm ▸ hsize)
  rw [hwidth] at hshows
  refine ⟨hshows.length_eq, ?_, hshows.newline⟩
  intro row hr col hc
  have hrow := Nat.mul_le_mul_right width (Nat.succ_le_of_lt hr)
  rw [Nat.succ_mul, Nat.mul_comm height] at hrow
  rw [hshows.pixel row hr col hc, hcells _ (by omega)]

/-- A cell is looked up by its number. -/
theorem get_afterAll (h : make width height = .ok s) (attempts : List (Int32 × Int32))
    (key : Int32) :
    (s.afterAll attempts).get key = if Numbers key (width * height) then
        .ok (lastStored attempts key.toInt.toNat)
      else .error (.noPixel key.toInt (width * height)) := by
  obtain ⟨-, hsize, hcells⟩ := afterAll_of_make h attempts
  rw [get_eq, hsize]
  by_cases hkey : Numbers key (width * height)
  · have hin : key.toInt.toNat < width * height := by
      obtain ⟨hlow, hhigh⟩ := hkey
      omega
    rw [if_pos hkey, if_pos hkey, hcells _ hin]
  · rw [if_neg hkey, if_neg hkey]

theorem set_afterAll (h : make width height = .ok s) (attempts : List (Int32 × Int32))
    (key value : Int32) :
    (s.afterAll attempts).set key value = if Numbers key (width * height) then
        .ok (s.afterAll ((key, value) :: attempts))
      else .error (.noPixel key.toInt (width * height)) := by
  obtain ⟨-, hsize, -⟩ := afterAll_of_make h attempts
  have hset := (s.afterAll attempts).set_eq key value
  rw [hsize] at hset
  by_cases hkey : Numbers key (width * height)
  · rw [if_pos hkey] at hset ⊢
    simp only [afterAll, hset]
  · rw [hset, if_neg hkey, if_neg hkey]

end Screen

namespace PlainStore

variable {p q : PlainStore} {d : Decoded} {flow : Flow}

theorem execute_setPixel (hi : d.instruction = .setPixel) (callDepth : Nat) (c : Console) :
    p.execute callDepth d c = (p.setPixel d, c) := by
  simp [execute, printed?, effect, hi]

theorem execute_getPixel (hi : d.instruction = .getPixel) (callDepth : Nat) (c : Console) :
    p.execute callDepth d c = (p.lookUp d p.screen.get, c) := by
  simp [execute, printed?, effect, hi]

/-- Only an instruction that stores a value in the screen changes it. -/
theorem screen_of_execute (hi : d.instruction ≠ .setPixel) {callDepth : Nat} {c c' : Console}
    (h : p.execute callDepth d c = (.ok (flow, q), c')) : q.screen = p.screen := by
  have hwrites := writes_of_execute h
  generalize q.cells = cells, q.screen = screen at hwrites ⊢
  cases hwrites with
  | pixel key value rest screen hset => exact absurd hset hi
  | nothing | move | store | register => rfl

end PlainStore

namespace Machine

/-- What the next step tries to store in the screen: the number of a cell and a value. -/
def attempt? (m : Machine) : Option (Int32 × Int32) :=
  match m.fetch.map Decoded.instruction, m.values with
  | .ok .setPixel, key :: value :: _ => some (key, value)
  | _, _ => none

/-- What so many steps try to store in the screen, the last in front. -/
def attempts (m : Machine) : Nat → List (Int32 × Int32)
  | 0 => []
  | count + 1 => (m.after count).attempt?.toList ++ m.attempts count

variable {m : Machine} {p : PlainStore} {d : Decoded}

/-- To store a value in the screen takes its number from the stack. -/
theorem setPixel_step (h : m.store.Holds p) (hf : m.Fits) (hd : m.fetch = .ok d)
    (hi : d.instruction = .setPixel) :
    ∃ key value rest, m.values = key :: value :: rest ∧
      match m.store.screen.set key value with
      | .ok screen => m.carried? = some d ∧ m.step.machine.values = value :: rest ∧
          m.step.machine.store.screen = screen
      | .error fault => m.step = ⟨m, .error fault, none⟩ := by
  have hin := inputs_le_of_fetch h hd
  rw [hi] at hin
  obtain ⟨key, value, rest, hp⟩ := exists_cons_cons hin
  have he := PlainStore.execute_setPixel (p := p) hi m.callDepth m.console
  simp only [PlainStore.setPixel, hp, bind, Except.bind] at he
  refine ⟨key, value, rest, (values_eq h).trans hp, ?_⟩
  rw [h.screen]
  cases hset : p.screen.set key value with
  | error fault =>
    rw [hset] at he
    exact (step_of_error h hf hd he).1
  | ok screen =>
    rw [hset] at he
    obtain ⟨hcarried, hq, -⟩ := step_of_ok h hf hd he
    exact ⟨hcarried, values_eq hq, hq.screen⟩

/-- To look up a value of the screen puts it in the place of its number. -/
theorem getPixel_step (h : m.store.Holds p) (hf : m.Fits) (hd : m.fetch = .ok d)
    (hi : d.instruction = .getPixel) :
    ∃ key rest, m.values = key :: rest ∧
      match m.store.screen.get key with
      | .ok value => m.carried? = some d ∧ m.step.machine.values = value :: rest
      | .error fault => m.step = ⟨m, .error fault, none⟩ := by
  have hin := inputs_le_of_fetch h hd
  rw [hi] at hin
  obtain ⟨key, rest, hp⟩ := List.exists_cons_of_length_pos hin
  have he := PlainStore.execute_getPixel (p := p) hi m.callDepth m.console
  simp only [PlainStore.lookUp, hp, PlainStore.push, bind, Except.bind] at he
  refine ⟨key, rest, (values_eq h).trans hp, ?_⟩
  rw [h.screen]
  cases hget : p.screen.get key with
  | error fault =>
    rw [hget] at he
    exact (step_of_error h hf hd he).1
  | ok value =>
    rw [hget] at he
    obtain ⟨hcarried, hq, -⟩ := step_of_ok h hf hd he
    exact ⟨hcarried, values_eq hq⟩

/-- A step changes the screen by what it tries to store there, if that can be done. -/
theorem screen_step (h : m.store.Holds p) (hf : m.Fits) :
    m.step.machine.store.screen = m.store.screen.afterAll m.attempt?.toList := by
  cases hd : m.fetch with
  | error fault =>
    rw [step_of_fetch_error h hd]
    simp only [attempt?, hd, Except.map, Option.toList_none, Screen.afterAll]
  | ok d =>
    by_cases hi : d.instruction = .setPixel
    · obtain ⟨key, value, rest, hvalues, hstep⟩ := setPixel_step h hf hd hi
      simp only [attempt?, hd, Except.map, hi, hvalues, Option.toList_some, Screen.afterAll]
      cases hset : m.store.screen.set key value with
      | error fault =>
        rw [hset] at hstep
        rw [hstep]
      | ok screen =>
        rw [hset] at hstep
        exact hstep.2.2
    · have hnone : m.attempt? = none := by
        simp only [attempt?, hd, Except.map]
        split
        · rename_i he _
          exact absurd (Except.ok.inj he) hi
        · rfl
      rw [hnone]
      rcases he : p.execute m.callDepth d m.console with ⟨fault | ⟨flow, q⟩, c⟩
      · rw [(step_of_error h hf hd he).1]
        rfl
      · obtain ⟨-, hq, -⟩ := step_of_ok h hf hd he
        rw [hq.screen, PlainStore.screen_of_execute hi he, h.screen]
        rfl

theorem screen_after {m₀ : Machine} (h : m₀.store.Holds p) {count : Nat}
    (hf : m₀.FitsFor count) :
    (m₀.after count).store.screen = m₀.store.screen.afterAll (m₀.attempts count) := by
  induction count with
  | zero => rfl
  | succ count ih =>
    have hbefore := hf.of_le (Nat.le_succ count)
    obtain ⟨-, -, q, hold⟩ := after_holds h hbefore
    rw [after, screen_step hold (hf count (Nat.le_succ count)), ih hbefore, attempts,
      Screen.afterAll_append]

/-- A screen of a size that is accepted is drawn, whatever was stored or tried to be, row by row
with the last values of its cells, and exactly the numbers of the cells are taken. Machines draw the
screen with what all their steps tried to store there, and these are the bytes that their sinks get.
An instruction that uses another number fails and changes nothing at all. -/
theorem draw_shows_last_stores {width height : Nat} {s₀ : Screen}
    (hs : Screen.make width height = .ok s₀) :
    (∀ attempts, let s := s₀.afterAll attempts
      Screen.Shows width height (Screen.lastStored attempts) s.render ∧
      ∀ key, (s.get key = if Screen.Numbers key (width * height) then
            .ok (Screen.lastStored attempts key.toInt.toNat)
          else .error (.noPixel key.toInt (width * height))) ∧
        ∀ value, s.set key value = if Screen.Numbers key (width * height) then
            .ok (s₀.afterAll ((key, value) :: attempts))
          else .error (.noPixel key.toInt (width * height))) ∧
    ∀ program sizes console m₀ count, start program sizes console = .ok m₀ →
      sizes.screenWidth = width → sizes.screenHeight = height → m₀.FitsFor count →
      let m := m₀.after count
      let attempts := m₀.attempts count
      m.store.screen = s₀.afterAll attempts ∧
      ∀ d, m.fetch = .ok d →
        (d.instruction = .draw →
          m.step.machine.console = (m.console.print m.store.screen.render).2 ∧
            m.Prints d m.store.screen.render) ∧
        (d.instruction = .setPixel → ∃ key value rest, m.values = key :: value :: rest ∧
          if Screen.Numbers key (width * height) then
            m.carried? = some d ∧ m.step.machine.values = value :: rest ∧
              m.step.machine.store.screen = s₀.afterAll ((key, value) :: attempts)
          else m.step = ⟨m, .error (.noPixel key.toInt (width * height)), none⟩) ∧
        (d.instruction = .getPixel → ∃ key rest, m.values = key :: rest ∧
          if Screen.Numbers key (width * height) then
            m.carried? = some d ∧
              m.step.machine.values = Screen.lastStored attempts key.toInt.toNat :: rest
          else m.step = ⟨m, .error (.noPixel key.toInt (width * height)), none⟩) := by
  constructor
  · intro attempts s
    exact ⟨Screen.shows_afterAll hs attempts,
      fun key => ⟨Screen.get_afterAll hs attempts key, Screen.set_afterAll hs attempts key⟩⟩
  intro program sizes console m₀ count hstart hwidth hheight hf m attempts
  subst hwidth hheight
  obtain ⟨-, -, -, -, p₀, hold₀, -, -⟩ := start_holds hstart
  obtain ⟨-, -, p, hold⟩ := after_holds hold₀ hf
  have hfits : m.Fits := hf count (Nat.le_refl count)
  have hscreen : m.store.screen = s₀.afterAll attempts := by
    obtain ⟨-, -, _, _, screen, -, -, hmake, rfl⟩ := start_eq hstart
    cases hmake.symm.trans hs
    exact screen_after hold₀ hf
  refine ⟨hscreen, fun d hd => ⟨?_, ?_, ?_⟩⟩
  · intro hi
    have hb : p.printed? d.instruction = some m.store.screen.render := by
      rw [hi, hold.screen]
      rfl
    exact ⟨console_of_printed hold hfits hd hb, prints_of_printed hold hfits hd hb⟩
  · intro hi
    obtain ⟨key, value, rest, hvalues, hstep⟩ := setPixel_step hold hfits hd hi
    rw [hscreen, Screen.set_afterAll hs] at hstep
    refine ⟨key, value, rest, hvalues, ?_⟩
    by_cases hkey : Screen.Numbers key (sizes.screenWidth * sizes.screenHeight)
    · rw [if_pos hkey] at hstep ⊢
      exact hstep
    · rw [if_neg hkey] at hstep ⊢
      exact hstep
  · intro hi
    obtain ⟨key, rest, hvalues, hstep⟩ := getPixel_step hold hfits hd hi
    rw [hscreen, Screen.get_afterAll hs] at hstep
    refine ⟨key, rest, hvalues, ?_⟩
    by_cases hkey : Screen.Numbers key (sizes.screenWidth * sizes.screenHeight)
    · rw [if_pos hkey] at hstep ⊢
      exact hstep
    · rw [if_neg hkey] at hstep ⊢
      exact hstep

/-- Of four cells the second one is as bright as can be. The sink has a byte and room for just the
screen. -/
theorem draw_shows_last_stores_bright :
    ∃ (s₀ : Screen) (m₀ : Machine), Screen.make 2 2 = .ok s₀ ∧
      start (.ofBody #[8, 99, 0, 0, 0, 8, 1, 0, 0, 0, 92, 112]) ⟨1, 1, 2, 2, 0, 0, 1⟩
        ⟨⟨[], false⟩, ⟨#[62], some 6, false⟩⟩ = .ok m₀ ∧ m₀.FitsFor 3 ∧
      m₀.attempts 3 = [(1, 99)] ∧ (m₀.after 3).fetch = .ok ⟨27, .draw, .immediate, 0, 28⟩ ∧
      Screen.Shows 2 2 (Screen.lastStored [(1, 99)]) (s₀.afterAll [(1, 99)]).render ∧
      (m₀.after 3).carried? = some ⟨27, .draw, .immediate, 0, 28⟩ ∧
      (m₀.after 3).step.machine.console.sink.written.toList = Bytes.ofString "> $\n  \n" := by
  obtain ⟨s₀, hmake, hrender⟩ : ∃ s₀, Screen.make 2 2 = .ok s₀ ∧
      (s₀.afterAll [(1, 99)]).render = Bytes.ofString " $\n  \n" :=
    ⟨_, rfl, by decide +kernel⟩
  obtain ⟨m₀, hs, hattempts, hfetch, hsink⟩ : ∃ m₀ : Machine,
      start (.ofBody #[8, 99, 0, 0, 0, 8, 1, 0, 0, 0, 92, 112]) ⟨1, 1, 2, 2, 0, 0, 1⟩
        ⟨⟨[], false⟩, ⟨#[62], some 6, false⟩⟩ = .ok m₀ ∧
      m₀.attempts 3 = [(1, 99)] ∧ (m₀.after 3).fetch = .ok ⟨27, .draw, .immediate, 0, 28⟩ ∧
      (m₀.after 3).console.sink = ⟨#[62], some 6, false⟩ :=
    ⟨_, rfl, by decide +kernel, by decide +kernel, by decide +kernel⟩
  have hf : m₀.FitsFor 3 := fitsFor_of_start hs (by decide)
  obtain ⟨hscreens, hmachines⟩ := draw_shows_last_stores hmake
  obtain ⟨hscreen, hsteps⟩ := hmachines _ _ _ m₀ 3 hs rfl rfl hf
  obtain ⟨hdraw, -, -⟩ := hsteps _ hfetch
  have hprints := (hdraw rfl).2
  rw [hscreen, hattempts, hrender] at hprints
  have hroom : (m₀.after 3).console.sink.HasRoom (Bytes.ofString " $\n  \n").length := by
    intro room hr
    rw [hsink] at hr
    cases hr
    decide
  obtain ⟨hcarried, hwritten⟩ := hprints.all hroom
  rw [hsink] at hwritten
  exact ⟨s₀, m₀, hmake, hs, hf, hattempts, hfetch, (hscreens _).1, hcarried, by rw [hwritten]; rfl⟩

end Machine

end StackMachine
