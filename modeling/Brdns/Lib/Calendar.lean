import Brdns.Lib.Gregorian
import Mathlib.Tactic.IntervalCases

/-! The calendar by its rules: dates with the month lengths of their years, each day's date the one
after the date of the day before, 1970-01-01 a Thursday. The arithmetic on day numbers computes
it. -/

namespace Lib

namespace Gregorian

def IsLeap (y : ℤ) : Prop := y % 4 = 0 ∧ (y % 100 ≠ 0 ∨ y % 400 = 0)

instance (y : ℤ) : Decidable (IsLeap y) :=
  inferInstanceAs (Decidable (y % 4 = 0 ∧ (y % 100 ≠ 0 ∨ y % 400 = 0)))

def monthLength (y : ℤ) (month : ℕ) : ℤ :=
  if month = 2 then if IsLeap y then 29 else 28
  else if month = 4 ∨ month = 6 ∨ month = 9 ∨ month = 11 then 30
  else 31

theorem monthLength_pos (y : ℤ) (month : ℕ) : 1 ≤ monthLength y month := by
  unfold monthLength
  split_ifs <;> omega

/-- Days of a year before the first of a month. -/
def daysBefore (y : ℤ) : ℕ → ℤ
  | 0 => 0
  | 1 => 0
  | month + 2 => daysBefore y (month + 1) + monthLength y (month + 1)

@[ext] structure Date where
  year : ℤ
  month : ℕ
  day : ℤ
  month_mem : 1 ≤ month ∧ month ≤ 12
  day_mem : 1 ≤ day ∧ day ≤ monthLength year month

namespace Date

def next (d : Date) : Date :=
  if h : d.day < monthLength d.year d.month then
    ⟨d.year, d.month, d.day + 1, d.month_mem, by have := d.day_mem; omega⟩
  else if h' : d.month < 12 then
    ⟨d.year, d.month + 1, 1, ⟨by omega, h'⟩, ⟨by omega, monthLength_pos _ _⟩⟩
  else ⟨d.year + 1, 1, 1, by omega, ⟨by omega, monthLength_pos _ _⟩⟩

/-- The day of the year, from 1. -/
def ordinal (d : Date) : ℤ := daysBefore d.year d.month + d.day

/-- What the next date can be: in the same month, the first of the next month, or 1 January. -/
theorem next_cases (d : Date) :
    (d.day < monthLength d.year d.month ∧
      d.next.year = d.year ∧ d.next.month = d.month ∧ d.next.day = d.day + 1) ∨
    (d.day = monthLength d.year d.month ∧ d.month < 12 ∧
      d.next.year = d.year ∧ d.next.month = d.month + 1 ∧ d.next.day = 1) ∨
    (d.day = monthLength d.year d.month ∧ d.month = 12 ∧
      d.next.year = d.year + 1 ∧ d.next.month = 1 ∧ d.next.day = 1) := by
  have hmonth := d.month_mem
  have hday := d.day_mem
  unfold next
  split_ifs with h h'
  · exact .inl ⟨h, rfl, rfl, rfl⟩
  · exact .inr (.inl ⟨by omega, h', rfl, rfl, rfl⟩)
  · exact .inr (.inr ⟨by omega, by omega, rfl, rfl, rfl⟩)

theorem next_injective : Function.Injective next := by
  intro d e h
  have hd := d.next_cases
  have he := e.next_cases
  have hday := d.day_mem
  have hday' := e.day_mem
  have hmonth := d.month_mem
  have hmonth' := e.month_mem
  rw [h] at hd
  have hyear : d.year = e.year := by omega
  have hsame : d.month = e.month := by omega
  have hlength : monthLength d.year d.month = monthLength e.year e.month := by rw [hyear, hsame]
  exact Date.ext hyear hsame (by omega)

/-- The ordinal counts on within a year and starts again with the next. -/
theorem ordinal_next (d : Date) :
    (d.next.year = d.year ∧ d.next.ordinal = d.ordinal + 1) ∨
      (d.next.year = d.year + 1 ∧ d.next.ordinal = 1) := by
  have hmem := d.month_mem
  obtain ⟨month, hmonth⟩ : ∃ month, d.month = month + 1 := ⟨d.month - 1, by omega⟩
  unfold ordinal
  rcases d.next_cases with ⟨-, hy, hm, hd⟩ | ⟨hlast, -, hy, hm, hd⟩ | ⟨-, -, hy, hm, hd⟩
  · left
    rw [hy, hm, hd]
    exact ⟨rfl, by omega⟩
  · left
    rw [hy, hm, hd, hlast, hmonth]
    exact ⟨rfl, rfl⟩
  · right
    rw [hy, hm, hd]
    exact ⟨rfl, rfl⟩

end Date

/-- Days counted from 1970-01-01, which was a Thursday; the days of a week from Monday. -/
structure Calendar where
  date : ℤ → Date
  weekday : ℤ → Fin 7
  date_zero : (date 0).year = 1970 ∧ (date 0).month = 1 ∧ (date 0).day = 1
  date_succ : ∀ n, date (n + 1) = (date n).next
  weekday_zero : weekday 0 = 3
  weekday_succ : ∀ n, weekday (n + 1) = weekday n + 1

namespace Calendar

variable (cal : Calendar)

theorem date_unique (cal' : Calendar) (n : ℤ) : cal.date n = cal'.date n := by
  induction n with
  | zero =>
    obtain ⟨hy, hm, hd⟩ := cal.date_zero
    obtain ⟨hy', hm', hd'⟩ := cal'.date_zero
    exact Date.ext (hy.trans hy'.symm) (hm.trans hm'.symm) (hd.trans hd'.symm)
  | succ n ih => rw [cal.date_succ, cal'.date_succ, ih]
  | pred n ih =>
    apply Date.next_injective
    rw [← cal.date_succ, ← cal'.date_succ, Int.sub_add_cancel]
    exact ih

theorem weekday_eq (n : ℤ) : ((cal.weekday n : ℕ) : ℤ) = (n + 3) % 7 := by
  have hstep : ∀ k, ((cal.weekday (k + 1) : ℕ) : ℤ) = ((cal.weekday k : ℕ) + 1) % 7 := by
    intro k
    rw [cal.weekday_succ, Fin.val_add]
    omega
  induction n with
  | zero => rw [cal.weekday_zero]; rfl
  | succ n ih =>
    have h := hstep n
    omega
  | pred n ih =>
    have h := hstep (-n - 1)
    rw [Int.sub_add_cancel] at h
    have hlt := (cal.weekday (-n - 1)).isLt
    omega

/-- The days before one in its month have its month's dates. -/
theorem date_sub (n : ℤ) {j : ℕ} (hj : (j : ℤ) < (cal.date n).day) :
    (cal.date (n - j)).year = (cal.date n).year ∧ (cal.date (n - j)).month = (cal.date n).month ∧
      (cal.date (n - j)).day = (cal.date n).day - j := by
  induction j with
  | zero => simp
  | succ j ih =>
    obtain ⟨hy, hm, hd⟩ := ih (by omega)
    have hstep := cal.date_succ (n - (j + 1 : ℕ))
    rw [show n - ((j + 1 : ℕ) : ℤ) + 1 = n - j by omega] at hstep
    rw [hstep] at hy hm hd
    have hcases := (cal.date (n - (j + 1 : ℕ))).next_cases
    omega

theorem year_le_ordinal (n : ℤ) (k : ℕ) :
    (cal.date n).year ≤ (cal.date (n + k)).year ∧
      ((cal.date (n + k)).year = (cal.date n).year →
        (cal.date (n + k)).ordinal = (cal.date n).ordinal + k) := by
  induction k with
  | zero => simp
  | succ k ih =>
    have hstep := cal.date_succ (n + k)
    rw [show n + k + 1 = n + ((k + 1 : ℕ) : ℤ) by omega] at hstep
    have hcases := (cal.date (n + k)).ordinal_next
    rw [hstep]
    omega

/-- Within a year the ordinal counts the days. -/
theorem ordinal_sub {n n' : ℤ} (h : (cal.date n).year = (cal.date n').year) :
    (cal.date n').ordinal - (cal.date n).ordinal = n' - n := by
  rcases Int.le_total n n' with hle | hle
  · have hcount := (cal.year_le_ordinal n (n' - n).toNat).2
    rw [show n + ((n' - n).toNat : ℤ) = n' by omega] at hcount
    have := hcount h.symm
    omega
  · have hcount := (cal.year_le_ordinal n' (n - n').toNat).2
    rw [show n' + ((n - n').toNat : ℤ) = n by omega] at hcount
    have := hcount h
    omega

theorem date_injective : Function.Injective cal.date := by
  intro n n' h
  have hcount := cal.ordinal_sub (congrArg Date.year h)
  rw [h] at hcount
  omega

/-- The day the month of a day began on. -/
def monthFirst (n : ℤ) : ℤ := n - ((cal.date n).day - 1)

theorem date_monthFirst (n : ℤ) :
    (cal.date (cal.monthFirst n)).year = (cal.date n).year ∧
      (cal.date (cal.monthFirst n)).month = (cal.date n).month ∧
      (cal.date (cal.monthFirst n)).day = 1 := by
  have hday := (cal.date n).day_mem
  have hback := cal.date_sub n (j := ((cal.date n).day - 1).toNat) (by omega)
  rw [show n - (((cal.date n).day - 1).toNat : ℤ) = cal.monthFirst n by unfold monthFirst; omega]
    at hback
  omega

/-- No other month begins up to a day of a month. -/
theorem monthFirst_greatest {n k : ℤ} (hfirst : (cal.date k).day = 1) (hle : k ≤ n) :
    k ≤ cal.monthFirst n := by
  by_contra hlt
  unfold monthFirst at hlt
  have hback := (cal.date_sub n (j := (n - k).toNat) (by omega)).2.2
  rw [show n - ((n - k).toNat : ℤ) = k by omega] at hback
  omega

theorem monthFirst_eq_iff {n n' : ℤ} :
    cal.monthFirst n = cal.monthFirst n' ↔
      (cal.date n).year = (cal.date n').year ∧ (cal.date n).month = (cal.date n').month := by
  obtain ⟨hy, hm, hd⟩ := cal.date_monthFirst n
  obtain ⟨hy', hm', hd'⟩ := cal.date_monthFirst n'
  constructor
  · intro h
    rw [h] at hy hm
    exact ⟨hy.symm.trans hy', hm.symm.trans hm'⟩
  · rintro ⟨hyear, hmonth⟩
    apply cal.date_injective
    exact Date.ext (by omega) (by omega) (by omega)

/-- The Monday of a day's week. -/
def monday (n : ℤ) : ℤ := n - (cal.weekday n : ℕ)

/-- The ISO week of a day: the year of its week's Thursday, and the Thursday's number in it. -/
def isoWeek (n : ℤ) : ℤ × ℤ :=
  ((cal.date (cal.monday n + 3)).year, ((cal.date (cal.monday n + 3)).ordinal - 1) / 7 + 1)

theorem monday_eq_iff {n n' : ℤ} :
    cal.monday n = cal.monday n' ↔ cal.isoWeek n = cal.isoWeek n' := by
  constructor
  · intro h
    rw [isoWeek, isoWeek, h]
  · intro h
    have hcount := cal.ordinal_sub (congrArg Prod.fst h)
    have hweek : ((cal.date (cal.monday n + 3)).ordinal - 1) / 7 + 1 =
        ((cal.date (cal.monday n' + 3)).ordinal - 1) / 7 + 1 := congrArg Prod.snd h
    have hmod := cal.weekday_eq n
    have hmod' := cal.weekday_eq n'
    unfold monday at *
    omega

end Calendar

theorem yearOf_spec (day : ℤ) : yearStart (yearOf day) ≤ day ∧ day < yearStart (yearOf day + 1) := by
  unfold yearOf
  simp only
  generalize hy : (400 * day + 200) / 146097 = y
  split_ifs with hbelow habove
  · rw [Int.sub_add_cancel]
    refine ⟨?_, hbelow⟩
    unfold yearStart at *
    omega
  · refine ⟨habove, ?_⟩
    unfold yearStart at *
    omega
  · exact ⟨by omega, by omega⟩

theorem yearStart_succ (y : ℤ) :
    yearStart (y + 1) = yearStart y + 365 + if IsLeap (y + 1) then 1 else 0 := by
  unfold yearStart IsLeap
  split_ifs <;> omega

theorem yearStart_mono {y y' : ℤ} (h : y ≤ y') : yearStart y ≤ yearStart y' := by
  unfold yearStart
  omega

theorem yearOf_eq {day y : ℤ} (hle : yearStart y ≤ day) (hlt : day < yearStart (y + 1)) :
    yearOf day = y := by
  obtain ⟨hle', hlt'⟩ := yearOf_spec day
  by_contra hne
  rcases Int.lt_or_gt_of_ne hne with h | h
  · have := yearStart_mono (show yearOf day + 1 ≤ y by omega)
    omega
  · have := yearStart_mono (show y + 1 ≤ yearOf day by omega)
    omega

/-- A day in its year and month. -/
theorem month_spec (day : ℤ) : 0 ≤ monthOfYear day ∧ monthOfYear day ≤ 11 ∧
    day = yearStart (yearOf day) + monthStart (monthOfYear day) + dayOfMonth day - 1 ∧
    1 ≤ dayOfMonth day ∧
    dayOfMonth day ≤ monthStart (monthOfYear day + 1) - monthStart (monthOfYear day) := by
  obtain ⟨hle, hlt⟩ := yearOf_spec day
  have hlength := yearStart_succ (yearOf day)
  have hday : dayOfYear day = day - yearStart (yearOf day) := rfl
  have hyear : dayOfYear day < 366 := by split_ifs at hlength <;> omega
  unfold dayOfMonth monthStart
  unfold monthOfYear
  omega

theorem monthOfYear_eq {day m : ℤ} (hle : monthStart m ≤ dayOfYear day)
    (hlt : dayOfYear day < monthStart (m + 1)) : monthOfYear day = m := by
  unfold monthStart at hle hlt
  unfold monthOfYear
  omega

/-- Months counted from March have the lengths of the civil months, the last but for the leap
day. -/
theorem monthLength_civil (y : ℤ) {m : ℤ} (h0 : 0 ≤ m) (h11 : m ≤ 11) :
    monthLength (y + (m + 2) / 12) ((m + 2) % 12 + 1).toNat =
      if m = 11 then 28 + if IsLeap (y + 1) then 1 else 0 else monthStart (m + 1) - monthStart m := by
  unfold monthLength monthStart
  interval_cases m <;> simp
  split_ifs <;> rfl

/-- The civil date of a day: January and February end the year before. -/
def civil (day : ℤ) : Date where
  year := yearOf day + (monthOfYear day + 2) / 12
  month := ((monthOfYear day + 2) % 12 + 1).toNat
  day := dayOfMonth day
  month_mem := by omega
  day_mem := by
    obtain ⟨h0, h11, hday, hpos, hle⟩ := month_spec day
    have hlt := (yearOf_spec day).2
    rw [yearStart_succ] at hlt
    rw [monthLength_civil _ h0 h11]
    refine ⟨hpos, ?_⟩
    by_cases hlast : monthOfYear day = 11
    · rw [hlast] at hday
      unfold monthStart at hday
      rw [if_pos hlast]
      omega
    · rwa [if_neg hlast]

theorem civil_fields (day : ℤ) :
    (civil day).year = yearOf day + (monthOfYear day + 2) / 12 ∧
      (civil day).month = ((monthOfYear day + 2) % 12 + 1).toNat ∧
      (civil day).day = dayOfMonth day := ⟨rfl, rfl, rfl⟩

/-- The day after a day: in its month, the first of the next month, or the first of March. -/
theorem day_succ_cases (day : ℤ) :
    (yearOf (day + 1) = yearOf day ∧ monthOfYear (day + 1) = monthOfYear day ∧
      dayOfMonth (day + 1) = dayOfMonth day + 1) ∨
    (yearOf (day + 1) = yearOf day ∧ monthOfYear (day + 1) = monthOfYear day + 1 ∧
      dayOfMonth (day + 1) = 1 ∧ monthOfYear day ≠ 11 ∧
      dayOfMonth day = monthStart (monthOfYear day + 1) - monthStart (monthOfYear day)) ∨
    (yearOf (day + 1) = yearOf day + 1 ∧ monthOfYear (day + 1) = 0 ∧ dayOfMonth (day + 1) = 1 ∧
      monthOfYear day = 11 ∧
      dayOfMonth day = 28 + if IsLeap (yearOf day + 1) then 1 else 0) := by
  obtain ⟨h0, h11, hday, hpos, hle⟩ := month_spec day
  obtain ⟨hstart, hend⟩ := yearOf_spec day
  have hlast := yearStart_succ (yearOf day)
  have hdoy : dayOfYear (day + 1) = day + 1 - yearStart (yearOf (day + 1)) := rfl
  have hdom : dayOfMonth (day + 1) =
    dayOfYear (day + 1) - monthStart (monthOfYear (day + 1)) + 1 := rfl
  by_cases hyear : day + 1 < yearStart (yearOf day + 1)
  · have hy : yearOf (day + 1) = yearOf day := yearOf_eq (by omega) hyear
    rw [hy] at hdoy
    by_cases hmonth : dayOfYear (day + 1) < monthStart (monthOfYear day + 1)
    · have hm : monthOfYear (day + 1) = monthOfYear day := monthOfYear_eq (by omega) hmonth
      rw [hm] at hdom
      exact .inl ⟨hy, hm, by omega⟩
    · have hnot : monthOfYear day ≠ 11 := by
        intro h
        rw [h] at hmonth
        unfold monthStart at hmonth
        split_ifs at hlast <;> omega
      have hm : monthOfYear (day + 1) = monthOfYear day + 1 := by
        apply monthOfYear_eq (by omega)
        unfold monthStart at *
        omega
      rw [hm] at hdom
      exact .inr (.inl ⟨hy, hm, by omega, hnot, by omega⟩)
  · have hy : yearOf (day + 1) = yearOf day + 1 := by
      have := yearStart_succ (yearOf day + 1)
      apply yearOf_eq (by omega)
      split_ifs at this <;> omega
    rw [hy] at hdoy
    have hm : monthOfYear (day + 1) = 0 := monthOfYear_eq (by unfold monthStart; omega)
      (by unfold monthStart; omega)
    have hfeb : monthOfYear day = 11 := by
      by_contra hne
      unfold monthStart at *
      split_ifs at hlast <;> omega
    rw [hfeb] at hday
    rw [hm] at hdom
    unfold monthStart at *
    exact .inr (.inr ⟨hy, hm, by omega, hfeb, by omega⟩)

theorem civil_succ (day : ℤ) : civil (day + 1) = (civil day).next := by
  obtain ⟨h0, h11, -, -, -⟩ := month_spec day
  have hlength : monthLength (civil day).year (civil day).month = _ := monthLength_civil _ h0 h11
  have hnext := (civil day).next_cases
  have hmem := (civil (day + 1)).day_mem
  have hfields := civil_fields day
  have hfields' := civil_fields (day + 1)
  rcases day_succ_cases day with ⟨hy, hm, hd⟩ | ⟨hy, hm, hd, hnot, hlast⟩ | ⟨hy, hm, hd, hfeb, hlast⟩
  · have hsame : (civil (day + 1)).year = (civil day).year ∧
      (civil (day + 1)).month = (civil day).month := by omega
    rw [hsame.1, hsame.2] at hmem
    exact Date.ext (by omega) (by omega) (by omega)
  · rw [if_neg hnot] at hlength
    exact Date.ext (by omega) (by omega) (by omega)
  · rw [if_pos hfeb] at hlength
    exact Date.ext (by omega) (by omega) (by omega)

theorem daysFromMonday_mem (day : ℤ) : 0 ≤ daysFromMonday day ∧ daysFromMonday day < 7 := by
  unfold daysFromMonday
  omega

/-- The calendar that the arithmetic on day numbers computes. -/
def calendar : Calendar where
  date n := civil (n + unixEpochDay)
  weekday n := ⟨(daysFromMonday (n + unixEpochDay)).toNat, by
    have := daysFromMonday_mem (n + unixEpochDay)
    omega⟩
  date_zero := by decide
  date_succ n := by rw [← civil_succ, Int.add_right_comm]
  weekday_zero := by decide
  weekday_succ n := by
    apply Fin.ext
    rw [Fin.val_add]
    unfold daysFromMonday
    simp only [Fin.val_one]
    omega

end Gregorian

end Lib
