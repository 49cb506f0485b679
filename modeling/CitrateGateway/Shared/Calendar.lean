import Mathlib.Tactic.IntervalCases
import Mathlib.Order.Monotone.Basic

/-!
# The Gregorian calendar

Months and leap years as they are defined, one day after the other. Days are also numbered by
a closed formula over years that begin in March; the next day has the next number and no two
days share one, so a day that has the right number is the right day.
-/

namespace Calendar
set_option autoImplicit false

section Days

def isLeap (year : Nat) : Prop := year % 4 = 0 ∧ (year % 100 ≠ 0 ∨ year % 400 = 0)

instance (year : Nat) : Decidable (isLeap year) :=
  inferInstanceAs (Decidable (year % 4 = 0 ∧ (year % 100 ≠ 0 ∨ year % 400 = 0)))

def daysInMonth (year month : Nat) : Nat :=
  if month = 2 then if isLeap year then 29 else 28
  else if month = 4 ∨ month = 6 ∨ month = 9 ∨ month = 11 then 30
  else 31

structure Date where
  year : Nat
  month : Nat
  day : Nat
  month_pos : 1 ≤ month
  month_le : month ≤ 12
  day_pos : 1 ≤ day
  day_le : day ≤ daysInMonth year month

theorem Date.ext {d d' : Date} (hyear : d.year = d'.year) (hmonth : d.month = d'.month)
    (hday : d.day = d'.day) : d = d' := by
  cases d
  cases d'
  simp only at hyear hmonth hday
  subst hyear hmonth hday
  rfl

theorem daysInMonth_pos (year month : Nat) : 1 ≤ daysInMonth year month := by
  unfold daysInMonth
  split
  · split <;> omega
  · split <;> omega

def Date.next (d : Date) : Date :=
  if hday : d.day < daysInMonth d.year d.month then
    { d with
      day := d.day + 1
      day_pos := by omega
      day_le := hday }
  else if hmonth : d.month < 12 then
    { year := d.year
      month := d.month + 1
      day := 1
      month_pos := by omega
      month_le := hmonth
      day_pos := by omega
      day_le := daysInMonth_pos _ _ }
  else
    { year := d.year + 1
      month := 1
      day := 1
      month_pos := by omega
      month_le := by omega
      day_pos := by omega
      day_le := daysInMonth_pos _ _ }

/-- The first of January 1970. -/
def epoch : Date where
  year := 1970
  month := 1
  day := 1
  month_pos := by omega
  month_le := by omega
  day_pos := by omega
  day_le := daysInMonth_pos _ _

/-- The day so many days after the epoch. -/
def dayAfter : Nat → Date
  | 0 => epoch
  | n+1 => (dayAfter n).next

end Days

section Order

/-- The next day is the next of its month, or the first of the next month or year. -/
theorem Date.next_cases (d : Date) :
    (d.next.year = d.year ∧ d.next.month = d.month ∧ d.next.day = d.day + 1) ∨
    (d.day = daysInMonth d.year d.month ∧ d.month < 12 ∧
      d.next.year = d.year ∧ d.next.month = d.month + 1 ∧ d.next.day = 1) ∨
    (d.day = daysInMonth d.year d.month ∧ d.month = 12 ∧
      d.next.year = d.year + 1 ∧ d.next.month = 1 ∧ d.next.day = 1) := by
  have hday := d.day_le
  have hmonth := d.month_le
  by_cases hlast : d.day < daysInMonth d.year d.month
  · left
    rw [next, dif_pos hlast]
    exact ⟨rfl, rfl, rfl⟩
  · right
    by_cases hdec : d.month < 12
    · left
      rw [next, dif_neg hlast, dif_pos hdec]
      exact ⟨by omega, hdec, rfl, rfl, rfl⟩
    · right
      rw [next, dif_neg hlast, dif_neg hdec]
      exact ⟨by omega, by omega, rfl, rfl, rfl⟩

def Date.before (d d' : Date) : Prop :=
  d.year < d'.year ∨ d.year = d'.year ∧
    (d.month < d'.month ∨ d.month = d'.month ∧ d.day < d'.day)

theorem Date.before_next (d : Date) : d.before d.next := by
  unfold Date.before
  rcases d.next_cases with h | h | h <;> omega

theorem Date.before_trans {d d' d'' : Date} (h : d.before d') (h' : d'.before d'') :
    d.before d'' := by
  unfold Date.before at *
  omega

theorem Date.not_before_self (d : Date) : ¬ d.before d := by
  unfold Date.before
  omega

theorem dayAfter_before {n m : Nat} (h : n < m) : (dayAfter n).before (dayAfter m) := by
  induction m with
  | zero => omega
  | succ m ih =>
    by_cases hn : n = m
    · subst hn
      exact Date.before_next _
    · exact Date.before_trans (ih (by omega)) (Date.before_next _)

theorem dayAfter_before_iff {n m : Nat} : (dayAfter n).before (dayAfter m) ↔ n < m := by
  constructor
  · intro h
    rcases Nat.lt_trichotomy n m with hlt | rfl | hgt
    · exact hlt
    · exact absurd h (Date.not_before_self _)
    · exact absurd (Date.before_trans h (dayAfter_before hgt)) (Date.not_before_self _)
  · exact dayAfter_before

theorem dayAfter_inj {n m : Nat} (h : dayAfter n = dayAfter m) : n = m := by
  rcases Nat.lt_trichotomy n m with hlt | heq | hgt
  · have hbefore := dayAfter_before hlt
    rw [h] at hbefore
    exact absurd hbefore (Date.not_before_self _)
  · exact heq
  · have hbefore := dayAfter_before hgt
    rw [h] at hbefore
    exact absurd hbefore (Date.not_before_self _)

end Order

section Numbers

/-- The days before a year that begins on the first of March, counted from the year 0. -/
def yearStart (year : Nat) : Nat := 365 * year + year / 4 - year / 100 + year / 400

/-- The days of such a year before its month, the first of which is March. -/
def monthStart (month : Nat) : Nat := (153 * month + 2) / 5

/-- The year that began last March, counted from the year -400. -/
def Date.marchYear (d : Date) : Nat := if d.month ≤ 2 then d.year + 399 else d.year + 400

def Date.marchMonth (d : Date) : Nat := if d.month ≤ 2 then d.month + 9 else d.month - 3

def Date.number (d : Date) : Nat :=
  yearStart d.marchYear + monthStart d.marchMonth + d.day

def leapDays (year : Nat) : Nat := if isLeap year then 1 else 0

theorem yearStart_succ (year : Nat) :
    yearStart (year + 1) = yearStart year + 365 + leapDays (year + 1) := by
  have hfour : (year + 1) / 4 = year / 4 + if (year + 1) % 4 = 0 then 1 else 0 := by
    split <;> omega
  have hhundred : (year + 1) / 100 = year / 100 + if (year + 1) % 100 = 0 then 1 else 0 := by
    split <;> omega
  have hcycle : (year + 1) / 400 = year / 400 + if (year + 1) % 400 = 0 then 1 else 0 := by
    split <;> omega
  have hle : year / 100 ≤ year / 4 := Nat.div_le_div_left (by omega) (by omega)
  have hleap : leapDays (year + 1) + (if (year + 1) % 100 = 0 then 1 else 0) =
      (if (year + 1) % 4 = 0 then 1 else 0) + if (year + 1) % 400 = 0 then 1 else 0 := by
    have hcentury : (year + 1) % 400 = 0 → (year + 1) % 100 = 0 := by omega
    have hquarter : (year + 1) % 100 = 0 → (year + 1) % 4 = 0 := by omega
    by_cases h4 : (year + 1) % 4 = 0 <;> by_cases h100 : (year + 1) % 100 = 0 <;>
      by_cases h400 : (year + 1) % 400 = 0 <;> simp_all [leapDays, isLeap]
  unfold yearStart
  rw [hfour, hhundred, hcycle]
  omega

theorem yearStart_mono {year year' : Nat} (h : year ≤ year') :
    yearStart year ≤ yearStart year' := by
  apply monotone_nat_of_le_succ _ h
  intro n
  have := yearStart_succ n
  omega

theorem leapDays_add (year : Nat) : leapDays (year + 400) = leapDays year := by
  have h : isLeap (year + 400) ↔ isLeap year := by
    unfold isLeap
    omega
  simp only [leapDays, h]

theorem daysInMonth_february (year : Nat) : daysInMonth year 2 = 28 + leapDays year := by
  rw [daysInMonth, if_pos rfl, leapDays]
  split <;> rfl

/-- A month before February ends where the next one begins. -/
theorem monthStart_succ (year : Nat) {month : Nat} (hpos : 1 ≤ month) (hle : month ≤ 12)
    (hfeb : month ≠ 2) :
    monthStart (if month ≤ 2 then month + 9 else month - 3) + daysInMonth year month =
      monthStart ((if month ≤ 2 then month + 9 else month - 3) + 1) := by
  interval_cases month <;> simp_all [monthStart, daysInMonth]

theorem Date.marchMonth_le (d : Date) : d.marchMonth ≤ 11 := by
  have := d.month_le
  unfold marchMonth
  split <;> omega

theorem Date.marchMonth_eq (d : Date) : d.marchMonth = 11 ↔ d.month = 2 := by
  have := d.month_le
  have := d.month_pos
  unfold marchMonth
  split <;> omega

theorem Date.day_le_month (d : Date) (h : d.marchMonth ≠ 11) :
    monthStart d.marchMonth + d.day ≤ monthStart (d.marchMonth + 1) := by
  have hfeb : d.month ≠ 2 := mt d.marchMonth_eq.2 h
  have hend := monthStart_succ d.year d.month_pos d.month_le hfeb
  have hday := d.day_le
  unfold marchMonth
  omega

theorem Date.marchYear_succ {d : Date} (h : d.month ≤ 2) : d.marchYear + 1 = d.year + 400 := by
  rw [marchYear, if_pos h]

theorem Date.day_le_year (d : Date) : d.number ≤ yearStart (d.marchYear + 1) := by
  have hstep := yearStart_succ d.marchYear
  unfold number
  by_cases hfeb : d.marchMonth = 11
  · have hmonth := d.marchMonth_eq.1 hfeb
    have hday := d.day_le
    have hyear := Date.marchYear_succ (d := d) (by omega)
    have hstart : monthStart 11 = 337 := rfl
    rw [hmonth, daysInMonth_february] at hday
    rw [hyear, leapDays_add] at hstep
    rw [hfeb, hstart, hyear, hstep]
    omega
  · have hday := d.day_le_month hfeb
    have hle := d.marchMonth_le
    have hstart : monthStart (d.marchMonth + 1) ≤ 337 := by
      unfold monthStart
      omega
    omega

theorem Date.number_next (d : Date) : d.next.number = d.number + 1 := by
  rcases d.next_cases with ⟨hyear, hmonth, hday⟩ | ⟨hend, hdec, hyear, hmonth, hday⟩ |
    ⟨hend, hdec, hyear, hmonth, hday⟩
  · simp only [number, marchYear, marchMonth, hyear, hmonth, hday]
    omega
  · by_cases hfeb : d.month = 2
    · have hstep := yearStart_succ (d.year + 399)
      have hlength := daysInMonth_february d.year
      have hleap := leapDays_add d.year
      have h₁₁ : monthStart 11 = 337 := rfl
      have h₀ : monthStart 0 = 0 := rfl
      have hsame : d.year + 399 + 1 = d.year + 400 := rfl
      rw [hfeb, hlength] at hend
      rw [hsame] at hstep
      simp only [number, marchYear, marchMonth, hyear, hmonth, hday, hfeb]
      simp only [Nat.reduceAdd, Nat.reduceLeDiff, if_true, if_false, h₁₁, h₀, Nat.le_refl,
        Nat.sub_self]
      omega
    · have hstart := monthStart_succ d.year d.month_pos d.month_le hfeb
      have hpos := d.month_pos
      simp only [number, marchYear, marchMonth, hyear, hmonth, hday]
      by_cases hjan : d.month = 1
      · simp only [hjan, hend] at hstart ⊢
        simp at hstart ⊢
        omega
      · rw [if_neg (by omega)] at hstart
        rw [if_neg (by omega), if_neg (by omega), if_neg (by omega), if_neg (by omega), hend,
          show d.month + 1 - 3 = d.month - 3 + 1 by omega]
        omega
  · have hlength : daysInMonth d.year 12 = 31 := rfl
    have h₉ : monthStart 9 = 275 := rfl
    have h₁₀ : monthStart 10 = 306 := rfl
    rw [hdec, hlength] at hend
    simp only [number, marchYear, marchMonth, hyear, hmonth, hday, hdec, hend]
    simp only [Nat.reduceLeDiff, if_true, if_false, Nat.reduceAdd, Nat.reduceSub, h₉, h₁₀]

theorem dayAfter_number (n : Nat) : (dayAfter n).number = epoch.number + n := by
  induction n with
  | zero => rfl
  | succ n ih =>
    rw [dayAfter, Date.number_next, ih]
    omega

theorem Date.number_pos_in (d : Date) :
    yearStart d.marchYear < d.number := by
  have := d.day_pos
  unfold number
  omega

theorem marchYear_eq_of_number {d d' : Date} (h : d.number = d'.number) :
    d.marchYear = d'.marchYear := by
  have hday := d.day_le_year
  have hday' := d'.day_le_year
  have hpos := d.number_pos_in
  have hpos' := d'.number_pos_in
  rcases Nat.lt_trichotomy d.marchYear d'.marchYear with hlt | heq | hgt
  · have hmono := yearStart_mono (Nat.succ_le_of_lt hlt)
    rw [Nat.succ_eq_add_one] at hmono
    omega
  · exact heq
  · have hmono := yearStart_mono (Nat.succ_le_of_lt hgt)
    rw [Nat.succ_eq_add_one] at hmono
    omega

theorem marchMonth_le_of_day {d d' : Date}
    (h : monthStart d'.marchMonth + d'.day ≤ monthStart d.marchMonth + d.day) :
    d'.marchMonth ≤ d.marchMonth := by
  by_contra hlt
  have hle := d'.marchMonth_le
  have hday := d.day_le_month (by omega)
  have hpos := d'.day_pos
  unfold monthStart at h hday
  omega

/-- No two days share a number. -/
theorem Date.number_inj {d d' : Date} (h : d.number = d'.number) : d = d' := by
  have hyear := marchYear_eq_of_number h
  have hsum : monthStart d.marchMonth + d.day = monthStart d'.marchMonth + d'.day := by
    unfold number at h
    rw [hyear] at h
    omega
  have hmarch : d.marchMonth = d'.marchMonth :=
    Nat.le_antisymm (marchMonth_le_of_day hsum.le) (marchMonth_le_of_day hsum.ge)
  have hmonth : d.month = d'.month := by
    have := d.month_pos
    have := d'.month_pos
    have := d.month_le
    have := d'.month_le
    unfold marchMonth at hmarch
    split at hmarch <;> split at hmarch <;> omega
  rw [hmarch] at hsum
  unfold marchYear at hyear
  rw [hmonth] at hyear
  apply Date.ext
  · split at hyear <;> omega
  · exact hmonth
  · omega

end Numbers
end Calendar
