import StackMachine.Journal.Date
import Mathlib.Tactic.Common
import Mathlib.Tactic.IntervalCases

namespace StackMachine.Journal.Date

/-- Every fourth year is a leap year, but of the years that end a century only every fourth. -/
def IsLeap (year : Nat) : Prop :=
  year % 4 = 0 ∧ (year % 100 ≠ 0 ∨ year % 400 = 0)

instance (year : Nat) : Decidable (IsLeap year) :=
  inferInstanceAs (Decidable (_ ∧ _))

/-- The days of a month. -/
def daysIn (year month : Nat) : Nat :=
  match month with
  | 2 => if IsLeap year then 29 else 28
  | 4 | 6 | 9 | 11 => 30
  | _ => 31

/-- There is such a date. -/
structure OnCalendar (d : Date) : Prop where
  month_pos : 1 ≤ d.month
  month_le : d.month ≤ 12
  day_pos : 1 ≤ d.day
  day_le : d.day ≤ daysIn d.year d.month

def first : Date := ⟨1970, 1, 1⟩

/-- The date of the day after. -/
def next (d : Date) : Date :=
  if d.day < daysIn d.year d.month then { d with day := d.day + 1 }
  else if d.month < 12 then ⟨d.year, d.month + 1, 1⟩
  else ⟨d.year + 1, 1, 1⟩

/-- The date so many days after the first. -/
def later : Nat → Date
  | 0 => first
  | days + 1 => (later days).next

/-- A date in a year that fits in 32 bits. -/
def cut (d : Date) : Date :=
  { d with year := d.year % 0x100000000 }

namespace Strict

/-- A number, if it fits in so many bits. -/
def fit (bits n : Nat) : Option Nat :=
  if n < 2 ^ bits then some n else none

/-- A difference, if it is not below zero. -/
def sub (a b : Nat) : Option Nat :=
  if b ≤ a then some (a - b) else none

/-- The month of the calendar, given the months since March. -/
def month (monthFromMarch : Nat) : Option Nat :=
  if monthFromMarch < 10 then some (monthFromMarch + 3) else sub monthFromMarch 9

/-- The date that is so many days after 1 March of the year 0. Years have 64 bits with their sign,
and all other numbers have 32. -/
def ofCount (count : Nat) : Option Date := do
  let era := count / 146097
  let dayOfEra := count % 146097
  let withoutLeaps ← sub dayOfEra (dayOfEra / 1460)
  let withCenturies ← fit 32 (withoutLeaps + dayOfEra / 36524)
  let days ← sub withCenturies (dayOfEra / 146096)
  let yearOfEra := days / 365
  let julian ← fit 32 (365 * yearOfEra + yearOfEra / 4)
  let yearStart ← sub julian (yearOfEra / 100)
  let dayOfYear ← sub dayOfEra yearStart
  let fifths ← fit 32 (5 * dayOfYear + 2)
  let monthFromMarch := fifths / 153
  let monthFifths ← fit 32 (153 * monthFromMarch + 2)
  let dayOfMonth ← sub dayOfYear (monthFifths / 5)
  let month ← month monthFromMarch
  let marchYear := yearOfEra + era * 400
  let year ← fit 63 (if month ≤ 2 then marchYear + 1 else marchYear)
  some ⟨year % 0x100000000, month, dayOfMonth + 1⟩

/-- The date of a count of days, which stops at a difference below zero and at a number that does
not fit. -/
def ofDays (days : Nat) : Option Date := do
  let count ← fit 63 (days + shift)
  ofCount count

end Strict

/-- The days before a year that starts with March, from 1 March of the year 0. -/
def yearStart (year : Nat) : Nat :=
  365 * year + year / 4 - year / 100 + year / 400

/-- The year of a date where years start with March. -/
def marchYear (d : Date) : Nat :=
  if d.month ≤ 2 then d.year - 1 else d.year

/-- The months since March. -/
def marchMonth (d : Date) : Nat :=
  if d.month ≤ 2 then d.month + 9 else d.month - 3

/-- The days since the start of March. -/
def marchDay (d : Date) : Nat :=
  (153 * d.marchMonth + 2) / 5 + (d.day - 1)

/-- The days from 1 March of the year 0. -/
def count (d : Date) : Nat :=
  yearStart d.marchYear + d.marchDay

variable {d : Date} {n : Nat}

theorem daysIn_pos (year month : Nat) : 1 ≤ daysIn year month := by
  unfold daysIn
  split
  · split <;> decide
  all_goals decide

theorem onCalendar_next (h : d.OnCalendar) : d.next.OnCalendar := by
  obtain ⟨hfirst, hlast, hday, hle⟩ := h
  unfold next
  split
  · rename_i hwithin
    exact ⟨hfirst, hlast, Nat.le_add_left 1 d.day, hwithin⟩
  · split
    · rename_i hmonth
      exact ⟨Nat.le_add_left 1 d.month, hmonth, Nat.le_refl 1, daysIn_pos _ _⟩
    · exact ⟨Nat.le_refl 1, Nat.le_add_left 1 11, Nat.le_refl 1, daysIn_pos _ _⟩

theorem year_le_next (d : Date) : d.year ≤ d.next.year := by
  unfold next
  split
  · exact Nat.le_refl _
  · split
    · exact Nat.le_refl _
    · exact Nat.le_succ _

/-- A year that starts with March is as long as the calendar year in which it ends. -/
theorem yearStart_succ (year : Nat) :
    yearStart (year + 1) = yearStart year + if IsLeap (year + 1) then 366 else 365 := by
  have hcycle (length : Nat) : (year + 1) / length =
      year / length + if (year + 1) % length = 0 then 1 else 0 := by
    simp only [Nat.succ_div, Nat.dvd_iff_mod_eq_zero]
  have hcenturies : year / 100 ≤ year / 4 := by omega
  simp only [yearStart, hcycle, IsLeap]
  by_cases hfourth : (year + 1) % 4 = 0
  · by_cases hcentury : (year + 1) % 100 = 0
    · by_cases hera : (year + 1) % 400 = 0
      · simp only [hfourth, hcentury, hera, ↓reduceIte, ne_eq, not_true, or_true, and_true]
        omega
      · simp only [hfourth, hcentury, hera, ↓reduceIte, ne_eq, not_true, or_false, and_false]
        omega
    · have hera : (year + 1) % 400 ≠ 0 := by omega
      simp only [hfourth, hcentury, hera, ↓reduceIte, ne_eq, not_false_eq_true, true_or, and_true]
      omega
  · have hcentury : (year + 1) % 100 ≠ 0 := by omega
    have hera : (year + 1) % 400 ≠ 0 := by omega
    simp only [hfourth, hcentury, hera, ↓reduceIte, false_and]
    omega

/-- The next day is counted next, also from one month or year to another. -/
theorem count_next (h : d.OnCalendar) (hy : 1 ≤ d.year) : d.next.count = d.count + 1 := by
  obtain ⟨year, month, day⟩ := d
  obtain ⟨hfirst, hlast, hday, hle⟩ := h
  simp only at hfirst hlast hday hle hy
  by_cases hwithin : day < daysIn year month
  · simp only [next, hwithin, ↓reduceIte, count, marchDay, marchMonth, marchYear]
    omega
  · have hend : day = daysIn year month := Nat.le_antisymm hle (Nat.not_lt.mp hwithin)
    subst hend
    simp only [next, Nat.lt_irrefl, ↓reduceIte]
    interval_cases month
    -- The last day of February is the last day of a year that starts with March.
    case «2» =>
      obtain ⟨before, rfl⟩ := Nat.exists_eq_add_of_le' hy
      have hlength := yearStart_succ before
      by_cases hleap : IsLeap (before + 1)
      · simp only [hleap, ↓reduceIte] at hlength
        simp [count, marchDay, marchMonth, marchYear, daysIn, hleap, hlength]
      · simp only [hleap, ↓reduceIte] at hlength
        simp [count, marchDay, marchMonth, marchYear, daysIn, hleap, hlength]
    all_goals simp [count, marchDay, marchMonth, marchYear, daysIn]

/-- What comes after the first of a count of days is a date, and it is counted so. -/
theorem count_later (n : Nat) :
    (later n).OnCalendar ∧ 1970 ≤ (later n).year ∧ (later n).count = n + shift := by
  induction n with
  | zero => exact ⟨⟨by decide, by decide, by decide, by decide⟩, by decide, by decide⟩
  | succ n ih =>
    obtain ⟨hdate, hyear, hcount⟩ := ih
    refine ⟨onCalendar_next hdate, hyear.trans (year_le_next _), ?_⟩
    rw [later, count_next hdate (Nat.le_trans (by decide) hyear), hcount]
    omega

/-- The month is found from the day of a year that starts with March, since each five months from
there have 153 days. The year has a leap day at its end or none. -/
theorem marchDay_bounds (h : d.OnCalendar) (hy : 1 ≤ d.year) :
    (5 * d.marchDay + 2) / 153 = d.marchMonth ∧ d.marchMonth < 12 ∧
      (d.marchDay < 365 ∨ d.marchDay = 365 ∧ IsLeap (d.marchYear + 1)) := by
  obtain ⟨year, month, day⟩ := d
  obtain ⟨hfirst, hlast, hday, hle⟩ := h
  simp only at hfirst hlast hday hle hy
  interval_cases month
  case «2» =>
    obtain ⟨before, rfl⟩ := Nat.exists_eq_add_of_le' hy
    by_cases hleap : IsLeap (before + 1)
    · simp [marchDay, marchMonth, marchYear, daysIn, hleap] at hle ⊢
      omega
    · simp [marchDay, marchMonth, marchYear, daysIn, hleap] at hle ⊢
      omega
  all_goals
    simp [marchDay, marchMonth, daysIn] at hle ⊢
    omega

/-- In an era of 400 years, the year of a day is found by taking away the leap days before it. -/
theorem yearOfEra_eq {century fourth year day dayOfEra : Nat} (hc : century < 4) (hf : fourth < 25)
    (hy : year < 4) (hd : day < 365 ∨ day = 365 ∧ year = 3 ∧ (fourth < 24 ∨ century = 3))
    (he : dayOfEra = 36524 * century + 1461 * fourth + 365 * year + day) :
    (dayOfEra - dayOfEra / 1460 + dayOfEra / 36524 - dayOfEra / 146096) / 365 =
      100 * century + 4 * fourth + year := by
  have hcenturies : dayOfEra / 36524 = century + dayOfEra / 146096 := by
    have hspan : 1461 * fourth + 365 * year + day < 36524 ∨
        century = 3 ∧ dayOfEra = 146096 := by omega
    omega
  have hfourths : dayOfEra / 1460 =
      25 * century + fourth + (24 * century + fourth + 365 * year + day) / 1460 := by omega
  omega

/-- What is found on the way to a date: its era of 400 years, its year in the era where years start
with March, and its day in the era. -/
structure Parts (d : Date) (era year day : Nat) : Prop where
  era_eq : d.count / 146097 = era
  day_eq : d.count % 146097 = day
  year_eq : (day - day / 1460 + day / 36524 - day / 146096) / 365 = year
  marchYear_eq : year + era * 400 = d.marchYear
  marchDay_eq : day - (365 * year + year / 4 - year / 100) = d.marchDay
  year_lt : year < 400
  start_le : 365 * year + year / 4 - year / 100 ≤ day
  day_lt : day < 146097

theorem exists_parts (h : d.OnCalendar) (hy : 1 ≤ d.year) :
    ∃ era year day, d.Parts era year day := by
  obtain ⟨-, -, hday⟩ := marchDay_bounds h hy
  obtain ⟨era, century, fourth, year, hc, hf, hr, hyear⟩ : ∃ era century fourth year,
      century < 4 ∧ fourth < 25 ∧ year < 4 ∧
        d.marchYear = 400 * era + (100 * century + 4 * fourth + year) :=
    ⟨d.marchYear / 400, d.marchYear % 400 / 100, d.marchYear % 100 / 4, d.marchYear % 4,
      by omega, by omega, by omega, by omega⟩
  have hleap : d.marchDay < 365 ∨
      d.marchDay = 365 ∧ year = 3 ∧ (fourth < 24 ∨ century = 3) := by
    unfold IsLeap at hday
    omega
  have hstart : yearStart d.marchYear =
      146097 * era + (36524 * century + 1461 * fourth + 365 * year) := by
    rw [hyear, yearStart]
    omega
  have hfourths : (100 * century + 4 * fourth + year) / 4 = 25 * century + fourth := by omega
  have hcenturies : (100 * century + 4 * fourth + year) / 100 = century := by omega
  refine ⟨era, 100 * century + 4 * fourth + year,
    36524 * century + 1461 * fourth + 365 * year + d.marchDay, ?_⟩
  constructor
  case year_eq => exact yearOfEra_eq hc hf hr hleap rfl
  case era_eq | day_eq =>
    rw [count, hstart]
    omega
  case marchDay_eq | start_le =>
    rw [hfourths, hcenturies]
    omega
  all_goals omega

theorem month_of_march (h : d.OnCalendar) :
    (if d.marchMonth < 10 then d.marchMonth + 3 else d.marchMonth - 9) = d.month := by
  obtain ⟨hfirst, hlast, -, -⟩ := h
  unfold marchMonth
  split <;> split <;> omega

theorem year_of_march (hy : 1 ≤ d.year) :
    (if d.month ≤ 2 then d.marchYear + 1 else d.marchYear) = d.year := by
  unfold marchYear
  split <;> omega

namespace Strict

theorem fit_eq {bits n : Nat} (h : n < 2 ^ bits) : fit bits n = some n :=
  if_pos h

theorem sub_eq {a b : Nat} (h : b ≤ a) : sub a b = some (a - b) :=
  if_pos h

end Strict

theorem day_of_march (h : d.OnCalendar) :
    d.marchDay - (153 * d.marchMonth + 2) / 5 + 1 = d.day := by
  have hpos := h.day_pos
  simp only [marchDay]
  omega

/-- The date of a count of days is the one that is counted so, but for the bits of the year. -/
theorem ofDays_of_count (h : d.OnCalendar) (hy : 1 ≤ d.year) (hc : d.count = n + shift) :
    ofDays n = d.cut := by
  obtain ⟨era, year, day, hp⟩ := exists_parts h hy
  obtain ⟨hmonth, -, -⟩ := marchDay_bounds h hy
  simp only [ofDays, ← hc, hp.era_eq, hp.day_eq, hp.year_eq, hp.marchDay_eq, hp.marchYear_eq,
    hmonth, day_of_march h, month_of_march h, year_of_march hy]
  rfl

/-- Nothing stops on the way to a date that is counted with 63 bits. -/
theorem ofCount_count (h : d.OnCalendar) (hy : 1 ≤ d.year) (hc : d.count < 2 ^ 63) :
    Strict.ofCount d.count = some d.cut := by
  obtain ⟨era, year, day, hp⟩ := exists_parts h hy
  obtain ⟨hmonth, hmonths, -⟩ := marchDay_bounds h hy
  have hyear := hp.year_lt
  have hday := hp.day_lt
  have hleaps := @Strict.sub_eq day (day / 1460) (Nat.div_le_self _ _)
  have hcenturies := @Strict.fit_eq 32 (day - day / 1460 + day / 36524) (by omega)
  have heras := @Strict.sub_eq (day - day / 1460 + day / 36524) (day / 146096) (by omega)
  have hjulian := @Strict.fit_eq 32 (365 * year + year / 4) (by omega)
  have hstart := @Strict.sub_eq (365 * year + year / 4) (year / 100) (by omega)
  have hrest := Strict.sub_eq hp.start_le
  have hfifths := @Strict.fit_eq 32 (5 * d.marchDay + 2) (by
    rw [← hp.marchDay_eq]
    omega)
  have hmonthFifths := @Strict.fit_eq 32 (153 * d.marchMonth + 2) (by omega)
  have hrestOfMonth := @Strict.sub_eq d.marchDay ((153 * d.marchMonth + 2) / 5)
    (Nat.le_add_right _ _)
  have hcalendar : Strict.month d.marchMonth = some d.month := by
    rw [← month_of_march h, Strict.month]
    split
    · rfl
    · exact Strict.sub_eq (by omega)
  have hyears := @Strict.fit_eq 63 d.year (by
    have hera := hp.era_eq
    have hmarch := hp.marchYear_eq
    rw [← year_of_march hy]
    split <;> omega)
  simp only [Strict.ofCount, Option.bind_eq_bind, Option.bind_some, hp.era_eq, hp.day_eq, hleaps,
    hcenturies, heras, hp.year_eq, hjulian, hstart, hrest, hp.marchDay_eq, hfifths, hmonth,
    hmonthFifths, hrestOfMonth, hcalendar, hp.marchYear_eq, year_of_march hy, hyears,
    day_of_march h]
  rfl

/-- A count of days below this has a date in a year that fits in 32 bits. -/
theorem year_later_lt (h : n < 2 ^ 40) : (later n).year < 2 ^ 32 := by
  obtain ⟨-, -, hcount⟩ := count_later n
  have hmarch : (later n).year ≤ (later n).marchYear + 1 := by
    unfold marchYear
    split <;> omega
  simp only [count, yearStart, shift] at hcount
  omega

/-- A date in a year that fits is counted with 63 bits. -/
theorem count_lt (h : d.OnCalendar) (hy : 1 ≤ d.year) (hn : d.year < 2 ^ 32) :
    d.count < 2 ^ 63 := by
  obtain ⟨-, -, hend⟩ := marchDay_bounds h hy
  have hmarch : d.marchYear ≤ d.year := by
    unfold marchYear
    split <;> omega
  simp only [count, yearStart]
  omega

theorem cut_eq (hn : d.year < 2 ^ 32) : d.cut = d := by
  have hyear : d.year % 0x100000000 = d.year := Nat.mod_eq_of_lt hn
  rw [cut, hyear]

/-- Only the day after the last one of a year is in another year. -/
theorem year_next_lt (h : d.OnCalendar) (hn : d.year < 2 ^ 32)
    (hlast : d ≠ ⟨0xFFFFFFFF, 12, 31⟩) : d.next.year < 2 ^ 32 := by
  obtain ⟨-, hmonth, -, hday⟩ := h
  unfold next
  split
  · exact hn
  · rename_i hend
    split
    · exact hn
    · rename_i hyearEnd
      by_contra hover
      obtain ⟨year, month, day⟩ := d
      simp only at hn hmonth hday hend hyearEnd hover
      have hdecember : month = 12 := by omega
      subst hdecember
      have hlength : daysIn year 12 = 31 := rfl
      apply hlast
      rw [Date.mk.injEq]
      omega

/-- As long as the year fits in 32 bits, the date of a count of days is the one that comes so many
days after 1 January 1970. It is on the calendar, and the date of the next day comes next; only the
day after the last one of the last year that fits has its year cut. On the way to the date nothing
is taken from less and no number is too large. -/
theorem ofDays_follows_calendar (hn : (later n).year < 2 ^ 32) :
    ofDays n = later n ∧ (ofDays n).OnCalendar ∧ ofDays 0 = ⟨1970, 1, 1⟩ ∧
      ofDays (n + 1) = (ofDays n).next.cut ∧
      (ofDays n ≠ ⟨0xFFFFFFFF, 12, 31⟩ → ofDays (n + 1) = (ofDays n).next) ∧
      Strict.ofDays n = some (ofDays n) := by
  obtain ⟨hdate, hyear, hcount⟩ := count_later n
  obtain ⟨hdate', hyear', hcount'⟩ := count_later (n + 1)
  have hpos : 1 ≤ (later n).year := Nat.le_trans (by decide) hyear
  have hfits := count_lt hdate hpos hn
  have heq := ofDays_of_count hdate hpos hcount
  have hnext := ofDays_of_count hdate' (Nat.le_trans (by decide) hyear') hcount'
  have hstrict := ofCount_count hdate hpos hfits
  rw [cut_eq hn] at heq hstrict
  rw [later] at hnext
  refine ⟨heq, heq ▸ hdate, rfl, ?_, ?_, ?_⟩
  · rw [heq]
    exact hnext
  · intro hlast
    rw [heq] at hlast ⊢
    rw [hnext]
    exact cut_eq (year_next_lt hdate hn hlast)
  · rw [heq, Strict.ofDays, ← hcount, Strict.fit_eq hfits]
    exact hstrict

/-- The year 2100 has no leap day. -/
theorem ofDays_follows_calendar_century :
    (later 47540).year < 2 ^ 32 ∧ later 47540 = ⟨2100, 2, 28⟩ ∧
      ofDays (47540 + 1) = ⟨2100, 3, 1⟩ ∧ Strict.ofDays 47540 = some ⟨2100, 2, 28⟩ := by
  have hn : (later 47540).year < 2 ^ 32 := year_later_lt (by decide)
  have hdate : ofDays 47540 = ⟨2100, 2, 28⟩ := by decide
  obtain ⟨hlater, -, -, -, hnext, hstrict⟩ := ofDays_follows_calendar hn
  rw [hdate] at hlater hnext hstrict
  exact ⟨hn, hlater.symm, hnext (by decide), hstrict⟩

end StackMachine.Journal.Date
