import Brdns.Lib.Calendar
import Brdns.Spec.Quota
import Mathlib.Order.Bounds.Basic

/-! The windows of `lib/quota.rs` against the calendar: `windowStart` is the last boundary of its
window at or before a timestamp, so it divides time into hours, days, ISO weeks and months. -/

namespace Brdns

open Lib Lib.Gregorian

namespace Quota

def Boundary (cal : Calendar) : Window → ℤ → Prop
  | .Hour, t => t % 3600 = 0
  | .Day, t => t % 86400 = 0
  | .Week, t => t % 86400 = 0 ∧ (cal.weekday (t / 86400)).val = 0
  | .Month, t => t % 86400 = 0 ∧ (cal.date (t / 86400)).day = 1

def SameWindow (cal : Calendar) : Window → ℤ → ℤ → Prop
  | .Hour, t, t' => cal.date (t / 86400) = cal.date (t' / 86400) ∧
      t % 86400 / 3600 = t' % 86400 / 3600
  | .Day, t, t' => cal.date (t / 86400) = cal.date (t' / 86400)
  | .Week, t, t' => cal.isoWeek (t / 86400) = cal.isoWeek (t' / 86400)
  | .Month, t, t' => (cal.date (t / 86400)).year = (cal.date (t' / 86400)).year ∧
      (cal.date (t / 86400)).month = (cal.date (t' / 86400)).month

/-- Timestamps in the range of the date type, a week or more above its first day. -/
def Covered (t : ℤ) : Prop :=
  (DateTime.fromTimestamp t).isSome ∧ (DateTime.minDay + 7) * 86400 ≤ t

def start (cal : Calendar) : Window → ℤ → ℤ
  | .Hour, t => t / 3600 * 3600
  | .Day, t => t / 86400 * 86400
  | .Week, t => cal.monday (t / 86400) * 86400
  | .Month, t => cal.monthFirst (t / 86400) * 86400

variable (cal : Calendar)

theorem Boundary.hour {window : Window} {b : ℤ} (h : Boundary cal window b) :
    Boundary cal .Hour b := by
  cases window <;> simp only [Boundary] at h ⊢ <;> omega

theorem weekday_eq_zero_iff (n : ℤ) : (cal.weekday n).val = 0 ↔ (n + 3) % 7 = 0 := by
  have h := cal.weekday_eq n
  omega

theorem isGreatest_start (window : Window) (t : ℤ) :
    IsGreatest {b | Boundary cal window b ∧ b ≤ t} (start cal window t) := by
  cases window with
  | Hour =>
    refine ⟨⟨by simp [Boundary, start], by simp only [start]; omega⟩, ?_⟩
    rintro b ⟨hb, hle⟩
    simp only [Boundary, start] at hb ⊢
    omega
  | Day =>
    refine ⟨⟨by simp [Boundary, start], by simp only [start]; omega⟩, ?_⟩
    rintro b ⟨hb, hle⟩
    simp only [Boundary, start] at hb ⊢
    omega
  | Week =>
    have hweekday := cal.weekday_eq (t / 86400)
    simp only [Boundary, start, weekday_eq_zero_iff, Calendar.monday]
    constructor
    · constructor <;> omega
    · rintro b ⟨⟨hmidnight, hmonday⟩, hle⟩
      omega
  | Month =>
    have hday := (cal.date (t / 86400)).day_mem
    have hfirst := (cal.date_monthFirst (t / 86400)).2.2
    have hle : cal.monthFirst (t / 86400) ≤ t / 86400 := by
      unfold Calendar.monthFirst
      omega
    simp only [Boundary, start]
    constructor
    · refine ⟨⟨by omega, ?_⟩, by omega⟩
      rwa [Int.mul_ediv_cancel _ (by decide)]
    · rintro b ⟨⟨hmidnight, hb⟩, hbt⟩
      have := cal.monthFirst_greatest hb (n := t / 86400) (by omega)
      omega

theorem start_le (window : Window) (t : ℤ) : start cal window t ≤ t :=
  (isGreatest_start cal window t).1.2

theorem boundary_start (window : Window) (t : ℤ) :
    Boundary cal window (start cal window t) :=
  (isGreatest_start cal window t).1.1

theorem le_start {window : Window} {b t : ℤ} (hb : Boundary cal window b) (hle : b ≤ t) :
    b ≤ start cal window t :=
  (isGreatest_start cal window t).2 ⟨hb, hle⟩

theorem start_mono (window : Window) {t t' : ℤ} (h : t ≤ t') :
    start cal window t ≤ start cal window t' :=
  le_start cal (boundary_start cal window t) ((start_le cal window t).trans h)

theorem start_of_boundary {window : Window} {b : ℤ} (hb : Boundary cal window b) :
    start cal window b = b :=
  le_antisymm (start_le cal window b) (le_start cal hb (le_refl b))

/-- Boundaries fall on full hours, so a timestamp may be truncated to its hour first. -/
theorem start_start_hour (window : Window) (t : ℤ) :
    start cal window (start cal .Hour t) = start cal window t := by
  apply le_antisymm
  · exact start_mono cal window (start_le cal .Hour t)
  · apply le_start cal (boundary_start cal window t)
    exact le_start cal (boundary_start cal window t).hour (start_le cal window t)

theorem start_eq_iff (window : Window) (t t' : ℤ) :
    start cal window t = start cal window t' ↔ SameWindow cal window t t' := by
  cases window with
  | Hour =>
    simp only [start, SameWindow, cal.date_injective.eq_iff]
    omega
  | Day =>
    simp only [start, SameWindow, cal.date_injective.eq_iff]
    omega
  | Week =>
    simp only [start, SameWindow, ← cal.monday_eq_iff]
    omega
  | Month =>
    simp only [start, SameWindow, ← cal.monthFirst_eq_iff]
    omega

theorem daysFromMonday_eq (n : ℤ) :
    daysFromMonday (n + unixEpochDay) = (cal.weekday n : ℕ) := by
  rw [cal.weekday_eq]
  unfold daysFromMonday unixEpochDay
  omega

theorem dayOfMonth_eq (n : ℤ) : dayOfMonth (n + unixEpochDay) = (cal.date n).day := by
  rw [cal.date_unique calendar]
  rfl

theorem fromTimestamp_eq {t : ℤ} (hmin : DateTime.minDay ≤ t / 86400)
    (hmax : t / 86400 ≤ DateTime.maxDay) :
    DateTime.fromTimestamp t = some ⟨t / 86400, t % 86400⟩ :=
  if_pos ⟨hmin, hmax⟩

/-- The source's arithmetic on UTC fields finds the start, as long as that can be held. -/
theorem windowStart_eq (window : Window) {t : ℤ}
    (hmin : DateTime.minDay * 86400 ≤ start cal window t) (hmax : t / 86400 ≤ DateTime.maxDay) :
    windowStart t window = .ok (start cal window t) := by
  have hle := start_le cal window t
  have hdate := fromTimestamp_eq (t := t) (by omega) hmax
  cases window with
  | Hour =>
    simp only [windowStart, hdate, startOfDay, DateTime.timestamp, DateTime.hour, start]
    congr 1
    omega
  | Day =>
    simp only [windowStart, hdate, startOfDay, DateTime.timestamp, start]
    congr 1
    omega
  | Week =>
    have hmonday : DateTime.minDay ≤ cal.monday (t / 86400) := by
      simp only [start] at hmin
      omega
    unfold Calendar.monday at hmonday
    simp only [windowStart, hdate, DateTime.subDays, DateTime.numDaysFromMonday,
      daysFromMonday_eq cal, if_pos hmonday, startOfDay, DateTime.timestamp, start,
      Calendar.monday, add_zero]
  | Month =>
    simp only [windowStart, hdate, DateTime.withDayOne, dayOfMonth_eq cal, startOfDay,
      DateTime.timestamp, start, Calendar.monthFirst, add_zero]

/-- The first day is the first of a month, so only the week needs its margin. -/
theorem minDay_le_start (window : Window) {t : ℤ} (h : Covered t) :
    DateTime.minDay * 86400 ≤ start cal window t := by
  have hmargin := h.2
  cases window with
  | Week =>
    have hweekday := (cal.weekday (t / 86400)).isLt
    simp only [start, Calendar.monday]
    omega
  | Hour => exact le_start cal (by simp only [Boundary]; decide) (by omega)
  | Day => exact le_start cal (by simp only [Boundary]; decide) (by omega)
  | Month =>
    apply le_start cal _ (by omega)
    refine ⟨by decide, ?_⟩
    rw [cal.date_unique calendar]
    decide

theorem Covered.le_maxDay {t : ℤ} (h : Covered t) : t / 86400 ≤ DateTime.maxDay := by
  have hsome := h.1
  unfold DateTime.fromTimestamp at hsome
  split at hsome
  · next hrange => exact hrange.2
  · cases hsome

theorem windowStart_partitions (cal : Calendar) (window : Window) {t : ℤ} (ht : Covered t) :
    ∃ s, windowStart t window = .ok s ∧ s ≤ t ∧ Boundary cal window s ∧
      (∀ b, Boundary cal window b → ¬ (s < b ∧ b ≤ t)) ∧
      windowStart s window = .ok s ∧
      (∃ hour, windowStart t .Hour = .ok hour ∧ windowStart hour window = .ok s) ∧
      ∀ t', Covered t' → ∃ s', windowStart t' window = .ok s' ∧ (t ≤ t' → s ≤ s') ∧
        (s = s' ↔ SameWindow cal window t t') := by
  have hmin := minDay_le_start cal window ht
  have hmax := ht.le_maxDay
  have hle := start_le cal window t
  have hhour := start_le cal .Hour t
  have hfixed := start_of_boundary cal (boundary_start cal window t)
  have hvia := start_start_hour cal window t
  refine ⟨start cal window t, windowStart_eq cal window hmin hmax, hle,
    boundary_start cal window t, ?_, ?_, ?_, ?_⟩
  · rintro b hb ⟨hlt, hbt⟩
    have := le_start cal hb hbt
    omega
  · have hagain := windowStart_eq cal window (t := start cal window t) (by rwa [hfixed]) (by omega)
    rwa [hfixed] at hagain
  · refine ⟨start cal .Hour t, windowStart_eq cal .Hour (minDay_le_start cal .Hour ht) hmax, ?_⟩
    have hagain := windowStart_eq cal window (t := start cal .Hour t) (by rwa [hvia]) (by omega)
    rwa [hvia] at hagain
  · intro t' ht'
    exact ⟨start cal window t', windowStart_eq cal window (minDay_le_start cal window ht')
      ht'.le_maxDay, start_mono cal window, start_eq_iff cal window t t'⟩

/-- A minute past noon on 29 February 2024, and the first of that month. -/
theorem windowStart_partitions_leap_day :
    Covered 1709208060 ∧ windowStart 1709208060 .Month = .ok 1706745600 ∧
      Boundary calendar .Month 1706745600 ∧
      ∀ b, Boundary calendar .Month b → ¬ (1706745600 < b ∧ b ≤ 1709208060) := by
  have ht : Covered 1709208060 := ⟨by decide, by decide⟩
  have hstart : windowStart 1709208060 .Month = .ok 1706745600 := by decide
  obtain ⟨s, hs, -, hb, hlast, -⟩ := windowStart_partitions calendar .Month ht
  cases hs.symm.trans hstart
  exact ⟨ht, hstart, hb, hlast⟩

end Quota

end Brdns
