import CitrateGateway.Shared.Calendar

/-!
# The date of an instant

A day is found by closed formulas over eras of 400 years that begin in March. They never
subtract more than there is, and they find the day that the calendar reaches by counting.
-/

namespace Gateway.Usage
set_option autoImplicit false
open Calendar

section Algorithm

/-- A subtraction of unsigned numbers; without a result it underflows. -/
def checkedSub (a b : Nat) : Option Nat := if b ≤ a then some (a - b) else none

/-- A signed number as an unsigned one; without a result it is negative. -/
def toUnsigned (z : Int) : Option Nat := if 0 ≤ z then some z.toNat else none

/-- Year, month and day of an instant. -/
def civilParts (secs : UInt64) : Option (Int × Nat × Nat) := do
  let days : Int := (secs.toNat / 86400 : Nat)
  let z := days + 719468
  let era := (if 0 ≤ z then z else z - 146096).tdiv 146097
  let doe ← toUnsigned (z - era * 146097)
  let used ← checkedSub doe (doe / 1460)
  let used ← checkedSub (used + doe / 36524) (doe / 146096)
  let yoe := used / 365
  let y : Int := yoe + era * 400
  let before ← checkedSub (365 * yoe + yoe / 4) (yoe / 100)
  let doy ← checkedSub doe before
  let mp := (5 * doy + 2) / 153
  let d ← checkedSub doy ((153 * mp + 2) / 5)
  let m ← if mp < 10 then some (mp + 3) else checkedSub mp 9
  return (if m ≤ 2 then y + 1 else y, m, d + 1)

/-- A number in decimal, filled up with zeros on the left. -/
def padded (width n : Nat) : String :=
  String.ofList (List.replicate (width - (Nat.repr n).length) '0') ++ Nat.repr n

def paddedYear (year : Int) : String :=
  if year < 0 then "-" ++ padded 3 year.natAbs else padded 4 year.natAbs

def civilDate (secs : UInt64) : Option String :=
  (civilParts secs).map fun parts =>
    paddedYear parts.1 ++ "-" ++ padded 2 parts.2.1 ++ "-" ++ padded 2 parts.2.2

end Algorithm

section Years

/-- The place of a day in an era: centuries, cycles of four years, years, and days. -/
structure EraDay (doe c q t doy : Nat) : Prop where
  century : c ≤ 3
  cycle : q ≤ 24
  year : t ≤ 3
  day : doy ≤ 365
  leap : doy = 365 → t = 3 ∧ (q ≠ 24 ∨ c = 3)
  sum : doe = 36524 * c + 1461 * q + 365 * t + doy

theorem exists_eraDay {doe : Nat} (h : doe ≤ 146096) :
    ∃ c q t doy, EraDay doe c q t doy := by
  by_cases hlast : doe = 146096
  · exact ⟨3, 24, 3, 365, by omega, by omega, by omega, by omega, fun _ => ⟨rfl, .inr rfl⟩,
      by omega⟩
  · let c := doe / 36524
    let r := doe % 36524
    let q := r / 1461
    let s := r % 1461
    by_cases hs : s = 1460
    · refine ⟨c, q, 3, 365, ?_, ?_, by omega, by omega, fun _ => ⟨rfl, .inl ?_⟩, ?_⟩ <;> omega
    · refine ⟨c, q, s / 365, s % 365, ?_, ?_, ?_, ?_, ?_, ?_⟩ <;> omega

variable {doe c q t doy : Nat}

theorem EraDay.century_eq (h : EraDay doe c q t doy) : doe / 36524 = c + doe / 146096 := by
  obtain ⟨hc, hq, ht, hdoy, hleap, hsum⟩ := h
  have hrest : 1461 * q + 365 * t + doy < 36524 ∨
      c = 3 ∧ 1461 * q + 365 * t + doy = 36524 := by omega
  have hsplit : doe = 36524 * c + (1461 * q + 365 * t + doy) := by omega
  clear hleap hdoy ht hq hsum
  generalize 1461 * q + 365 * t + doy = rest at *
  rcases hrest with hlt | ⟨rfl, rfl⟩
  · have hcentury : doe / 36524 = c := by omega
    have hlast : doe / 146096 = 0 := by omega
    omega
  · subst hsplit
    rfl

/-- The cycles that a day of an era has behind it, with the one its leap days may complete. -/
theorem EraDay.cycle_eq (h : EraDay doe c q t doy) :
    ∃ carry, doe / 1460 = 25 * c + q + carry ∧ carry ≤ doy ∧ (doy = 365 → 1 ≤ carry) := by
  obtain ⟨hc, hq, ht, hdoy, hleap, hsum⟩ := h
  exact ⟨(24 * c + q + 365 * t + doy) / 1460, by omega, by omega, by omega⟩

theorem EraDay.yearOfEra (h : EraDay doe c q t doy) :
    (doe - doe / 1460 + doe / 36524 - doe / 146096) / 365 = 100 * c + 4 * q + t := by
  obtain ⟨carry, hcycle, hcarry, hlast⟩ := h.cycle_eq
  have hday := h.day
  have hdays : doe - (25 * c + q + carry) + (c + doe / 146096) - doe / 146096 =
      365 * (100 * c + 4 * q + t) + (doy - carry) := by
    have hsum := h.sum
    generalize doe / 146096 = extra
    omega
  rw [h.century_eq, hcycle, hdays]
  omega

theorem EraDay.before (h : EraDay doe c q t doy) :
    365 * (100 * c + 4 * q + t) + (100 * c + 4 * q + t) / 4 - (100 * c + 4 * q + t) / 100 + doy =
      doe := by
  obtain ⟨hc, hq, ht, hdoy, hleap, hsum⟩ := h
  omega

theorem EraDay.isLeap (h : EraDay doe c q t doy) (hdoy : doy = 365) (era : Nat) :
    isLeap (100 * c + 4 * q + t + era * 400 + 1) := by
  obtain ⟨hc, hq, ht, -, hleap, hsum⟩ := h
  have hlast := hleap hdoy
  unfold Calendar.isLeap
  omega

end Years

section Months

/-- The month, counted from March, that a day of a year falls in. -/
def monthOfYear (doy : Nat) : Nat := (5 * doy + 2) / 153

theorem monthStart_le (doy : Nat) : monthStart (monthOfYear doy) ≤ doy := by
  unfold monthStart monthOfYear
  omega

theorem lt_monthStart_succ (doy : Nat) : doy < monthStart (monthOfYear doy + 1) := by
  unfold monthStart monthOfYear
  omega

theorem monthOfYear_le {doy : Nat} (h : doy ≤ 365) : monthOfYear doy ≤ 11 := by
  unfold monthOfYear
  omega

/-- The month as the calendar counts it. -/
def calendarMonth (mp : Nat) : Nat := if mp < 10 then mp + 3 else mp - 9

theorem day_le_daysInMonth {year doy : Nat} (h : doy ≤ 365) (hleap : doy = 365 → isLeap year) :
    doy - monthStart (monthOfYear doy) + 1 ≤
      daysInMonth year (calendarMonth (monthOfYear doy)) := by
  have hmp := monthOfYear_le h
  have hlt := lt_monthStart_succ doy
  have hle := monthStart_le doy
  by_cases hfeb : monthOfYear doy = 11
  · have hstart : monthStart 11 = 337 := rfl
    rw [hfeb, hstart] at hle ⊢
    have hmonth : calendarMonth 11 = 2 := rfl
    rw [hmonth, daysInMonth_february, leapDays]
    by_cases hlast : doy = 365
    · rw [if_pos (hleap hlast)]
      omega
    · omega
  · have hrange : 1 ≤ calendarMonth (monthOfYear doy) ∧ calendarMonth (monthOfYear doy) ≤ 12 ∧
        calendarMonth (monthOfYear doy) ≠ 2 := by
      unfold calendarMonth
      split <;> omega
    have hlength := monthStart_succ year hrange.1 hrange.2.1 hrange.2.2
    have hback : (if calendarMonth (monthOfYear doy) ≤ 2 then calendarMonth (monthOfYear doy) + 9
        else calendarMonth (monthOfYear doy) - 3) = monthOfYear doy := by
      unfold calendarMonth
      split <;> split <;> omega
    rw [hback] at hlength
    omega

end Months

section Agreement

/-- The day that the formulas find. -/
theorem exists_date {doe c q t doy : Nat} (h : EraDay doe c q t doy) (era : Nat) :
    ∃ date : Date,
      date.month = calendarMonth (monthOfYear doy) ∧
      date.day = doy - monthStart (monthOfYear doy) + 1 ∧
      date.year = (100 * c + 4 * q + t + era * 400) +
        (if calendarMonth (monthOfYear doy) ≤ 2 then 1 else 0) ∧
      date.number = era * 146097 + doe + 146098 := by
  have hmp := monthOfYear_le h.day
  have hpos : 1 ≤ calendarMonth (monthOfYear doy) := by
    unfold calendarMonth
    split <;> omega
  have hle : calendarMonth (monthOfYear doy) ≤ 12 := by
    unfold calendarMonth
    split <;> omega
  have hleap : doy = 365 → isLeap (100 * c + 4 * q + t + era * 400 +
      (if calendarMonth (monthOfYear doy) ≤ 2 then 1 else 0)) := by
    intro hlast
    have hmonth : calendarMonth (monthOfYear doy) ≤ 2 := by
      rw [hlast]
      decide
    rw [if_pos hmonth]
    exact h.isLeap hlast era
  refine ⟨⟨_, _, _, hpos, hle, by omega, day_le_daysInMonth h.day hleap⟩, rfl, rfl, rfl, ?_⟩
  have hbefore := h.before
  have hstart := monthStart_le doy
  have hmonth : (if calendarMonth (monthOfYear doy) ≤ 2 then calendarMonth (monthOfYear doy) + 9
      else calendarMonth (monthOfYear doy) - 3) = monthOfYear doy := by
    unfold calendarMonth
    split <;> split <;> omega
  have hyear : (if calendarMonth (monthOfYear doy) ≤ 2 then
      100 * c + 4 * q + t + era * 400 + (if calendarMonth (monthOfYear doy) ≤ 2 then 1 else 0) + 399
      else 100 * c + 4 * q + t + era * 400 +
        (if calendarMonth (monthOfYear doy) ≤ 2 then 1 else 0) + 400) =
      100 * c + 4 * q + t + era * 400 + 400 := by
    split <;> omega
  have hyears : yearStart (100 * c + 4 * q + t + era * 400 + 400) + doy =
      era * 146097 + 146097 + doe := by
    have hc := h.century
    have hq := h.cycle
    have ht := h.year
    have hsum := h.sum
    unfold yearStart
    omega
  simp only [Date.number, Date.marchYear, Date.marchMonth, hmonth, hyear]
  omega

theorem exists_era (n : Nat) : ∃ era doe, n + 719468 = era * 146097 + doe ∧ doe ≤ 146096 := by
  refine ⟨(n + 719468) / 146097, (n + 719468) % 146097, ?_, ?_⟩ <;> omega

theorem tdiv_era {n era doe : Nat} (h : n + 719468 = era * 146097 + doe) (hdoe : doe ≤ 146096) :
    ((n : Int) + 719468).tdiv 146097 = (era : Nat) := by
  rw [Int.tdiv_eq_ediv_of_nonneg (by omega)]
  omega

theorem checkedSub_of_le {a b : Nat} (h : b ≤ a) : checkedSub a b = some (a - b) := if_pos h

theorem checkedSub_eq {a b d : Nat} (h : b + d = a) : checkedSub a b = some d := by
  rw [checkedSub_of_le (by omega)]
  congr 1
  omega

/-- None of the subtractions underflows. -/
theorem civilParts_of_eraDay {secs : UInt64} {era doe c q t doy : Nat}
    (hdays : secs.toNat / 86400 + 719468 = era * 146097 + doe) (hdoe : doe ≤ 146096)
    (h : EraDay doe c q t doy) :
    civilParts secs = some
      (if calendarMonth (monthOfYear doy) ≤ 2 then
        ((100 * c + 4 * q + t : Nat) : Int) + (era : Nat) * 400 + 1
        else ((100 * c + 4 * q + t : Nat) : Int) + (era : Nat) * 400,
      calendarMonth (monthOfYear doy), doy - monthStart (monthOfYear doy) + 1) := by
  have hera := tdiv_era hdays hdoe
  have hyear := h.yearOfEra
  have hbefore := h.before
  unfold civilParts
  generalize secs.toNat / 86400 = n at hdays hera ⊢
  generalize 100 * c + 4 * q + t = yoe at hyear hbefore ⊢
  have hz : (0 : Int) ≤ (n : Int) + 719468 := by omega
  have hunsigned : toUnsigned ((n : Int) + 719468 - (era : Nat) * 146097) = some doe := by
    rw [toUnsigned, if_pos (by omega)]
    congr 1
    omega
  have hused : checkedSub doe (doe / 1460) = some (doe - doe / 1460) :=
    checkedSub_of_le (Nat.div_le_self _ _)
  have hused' : checkedSub (doe - doe / 1460 + doe / 36524) (doe / 146096) =
      some (doe - doe / 1460 + doe / 36524 - doe / 146096) := checkedSub_of_le (by omega)
  have hyears : checkedSub (365 * yoe + yoe / 4) (yoe / 100) =
      some (365 * yoe + yoe / 4 - yoe / 100) := checkedSub_of_le (by omega)
  have hdoy : checkedSub doe (365 * yoe + yoe / 4 - yoe / 100) = some doy :=
    checkedSub_eq hbefore
  have hstart : checkedSub doy ((153 * ((5 * doy + 2) / 153) + 2) / 5) =
      some (doy - monthStart (monthOfYear doy)) := checkedSub_of_le (monthStart_le doy)
  simp only [if_pos hz, hera, hunsigned, hused, hused', hyear, hyears, hdoy, hstart,
    Option.bind_eq_bind, Option.bind_some, Option.pure_def]
  by_cases hmonth : (5 * doy + 2) / 153 < 10
  · have hm : calendarMonth (monthOfYear doy) = (5 * doy + 2) / 153 + 3 := if_pos hmonth
    rw [if_pos hmonth, hm]
  · have hm : calendarMonth (monthOfYear doy) = (5 * doy + 2) / 153 - 9 := if_neg hmonth
    rw [if_neg hmonth, checkedSub_of_le (by omega), Option.bind_some, hm]

/-- The formulas find the day that counting finds, without an underflow. -/
theorem civilParts_eq (secs : UInt64) :
    civilParts secs = some (((dayAfter (secs.toNat / 86400)).year : Int),
      (dayAfter (secs.toNat / 86400)).month, (dayAfter (secs.toNat / 86400)).day) := by
  obtain ⟨era, doe, hdays, hdoe⟩ := exists_era (secs.toNat / 86400)
  obtain ⟨c, q, t, doy, h⟩ := exists_eraDay hdoe
  obtain ⟨date, hmonth, hday, hyear, hnumber⟩ := exists_date h era
  have hdate : dayAfter (secs.toNat / 86400) = date := by
    apply Date.number_inj
    have hepoch : epoch.number = 865566 := by decide
    rw [dayAfter_number, hnumber, hepoch]
    omega
  rw [civilParts_of_eraDay hdays hdoe h, hdate, hmonth, hday, hyear]
  congr 2
  split <;> omega

end Agreement
end Gateway.Usage
