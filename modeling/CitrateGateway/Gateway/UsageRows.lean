import CitrateGateway.Gateway.CivilDate
import CitrateGateway.Shared.Text
import Mathlib.Data.List.AList

/-!
# Usage rows

Requests are counted in rows by key and date. Up to the year 9999 dates have as many digits as
their form has places, so they sort as texts the way their days follow each other, and a row
is one day of one key.
-/

namespace Gateway.Usage
set_option autoImplicit false
open Words Calendar

section Digits

/-- The last `width` decimal digits of a number. -/
def fixedDigits : Nat → Nat → Bytes
  | 0, _ => []
  | width+1, n => UInt8.ofNat (48 + n / 10 ^ width % 10) :: fixedDigits width n

theorem fixedDigits_length (width n : Nat) : (fixedDigits width n).length = width := by
  induction width with
  | zero => rfl
  | succ width ih => rw [fixedDigits, List.length_cons, ih]

theorem fixedDigits_ascii (width n : Nat) : ∀ b ∈ fixedDigits width n, b.toNat < 128 := by
  induction width with
  | zero => simp [fixedDigits]
  | succ width ih =>
    intro b hb
    rw [fixedDigits, List.mem_cons] at hb
    rcases hb with rfl | hb
    · rw [UInt8.toNat_ofNat']
      omega
    · exact ih b hb

theorem fixedDigits_concat (width n : Nat) :
    fixedDigits (width + 1) n = fixedDigits width (n / 10) ++ [UInt8.ofNat (48 + n % 10)] := by
  induction width with
  | zero => simp [fixedDigits]
  | succ width ih =>
    rw [fixedDigits, ih, fixedDigits, Nat.pow_succ', Nat.div_div_eq_div_mul]
    rfl

theorem digitChar_eq {n : Nat} (h : n < 10) : n.digitChar = Char.ofUInt8 (UInt8.ofNat (48 + n)) := by
  have : ∀ m : Fin 10, m.val.digitChar = Char.ofUInt8 (UInt8.ofNat (48 + m.val)) := by decide
  exact this ⟨n, h⟩

/-- A number with room in its place is written with all of its digits. -/
theorem padded_digits {width n : Nat} (h : n < 10 ^ (width + 1)) :
    List.replicate (width + 1 - (Nat.toDigits 10 n).length) '0' ++ Nat.toDigits 10 n =
      (fixedDigits (width + 1) n).map Char.ofUInt8 := by
  induction width generalizing n with
  | zero =>
    have hn : n < 10 := h
    rw [Nat.toDigits_of_lt_base hn, fixedDigits_concat, Nat.mod_eq_of_lt hn]
    simp [fixedDigits, digitChar_eq hn]
  | succ width ih =>
    have hdiv : n / 10 < 10 ^ (width + 1) := by
      rw [Nat.pow_succ] at h
      exact (Nat.div_lt_iff_lt_mul (by omega)).2 h
    rw [fixedDigits_concat, List.map_append, ← ih hdiv, List.map_singleton,
      ← digitChar_eq (Nat.mod_lt n (by omega))]
    by_cases hn : n < 10
    · have hzero : n / 10 = 0 := by omega
      rw [Nat.toDigits_of_lt_base hn, hzero, Nat.toDigits_zero, Nat.mod_eq_of_lt hn]
      simp only [List.length_singleton, Nat.add_sub_cancel]
      rw [← List.replicate_succ']
    · rw [Nat.toDigits_of_base_le (by omega) (by omega), List.length_append,
        List.length_singleton, Nat.add_sub_add_right, List.append_assoc]

theorem padded_eq {width n : Nat} (h : n < 10 ^ (width + 1)) :
    padded (width + 1) n = asciiText (fixedDigits (width + 1) n) := by
  rw [asciiText, ← padded_digits h, padded, ← String.length_toList, Nat.toList_repr,
    String.ofList_append, ← Nat.toList_repr, String.ofList_toList]

theorem utf8_padded {width n : Nat} (h : n < 10 ^ (width + 1)) :
    utf8 (padded (width + 1) n) = fixedDigits (width + 1) n := by
  rw [padded_eq h, utf8_asciiText (fixedDigits_ascii _ _)]

end Digits

section Order

theorem append_lt_append_iff {l l' r r' : Bytes} (h : l.length = l'.length) :
    l ++ r < l' ++ r' ↔ l < l' ∨ l = l' ∧ r < r' := by
  induction l generalizing l' with
  | nil =>
    have hnil : l' = [] := List.eq_nil_of_length_eq_zero h.symm
    subst hnil
    simp
  | cons a l ih =>
    cases l' with
    | nil => simp at h
    | cons b l' =>
      have hlen : l.length = l'.length := by simpa using h
      rw [List.cons_append, List.cons_append, List.cons_lt_cons_iff, List.cons_lt_cons_iff,
        ih hlen, List.cons.injEq]
      tauto

theorem add_mul_lt_iff {a b r s p : Nat} (hr : r < p) (hs : s < p) :
    r + p * a < s + p * b ↔ a < b ∨ a = b ∧ r < s := by
  constructor
  · intro h
    rcases Nat.lt_trichotomy a b with hlt | rfl | hgt
    · exact .inl hlt
    · exact .inr ⟨rfl, by omega⟩
    · have := Nat.mul_le_mul_left p hgt
      rw [Nat.mul_succ] at this
      omega
  · rintro (hlt | ⟨rfl, hrs⟩)
    · have := Nat.mul_le_mul_left p hlt
      rw [Nat.mul_succ] at this
      omega
    · omega

theorem ofNat_digit_lt_iff {a b : Nat} (ha : a < 10) (hb : b < 10) :
    UInt8.ofNat (48 + a) < UInt8.ofNat (48 + b) ↔ a < b := by
  rw [UInt8.lt_iff_toNat_lt, UInt8.toNat_ofNat', UInt8.toNat_ofNat']
  omega

theorem ofNat_digit_inj {a b : Nat} (ha : a < 10) (hb : b < 10) :
    UInt8.ofNat (48 + a) = UInt8.ofNat (48 + b) ↔ a = b := by
  rw [← UInt8.toNat_inj, UInt8.toNat_ofNat', UInt8.toNat_ofNat']
  omega

theorem fixedDigits_lt_iff (width n m : Nat) :
    fixedDigits width n < fixedDigits width m ↔ n % 10 ^ width < m % 10 ^ width := by
  induction width with
  | zero => simp [fixedDigits, Nat.mod_one]
  | succ width ih =>
    have hpow : 0 < 10 ^ width := Nat.pow_pos (by omega)
    have hn := Nat.mod_lt (n / 10 ^ width) (y := 10) (by omega)
    have hm := Nat.mod_lt (m / 10 ^ width) (y := 10) (by omega)
    rw [fixedDigits, fixedDigits, List.cons_lt_cons_iff, ofNat_digit_lt_iff hn hm,
      ofNat_digit_inj hn hm, ih, Nat.mod_pow_succ, Nat.mod_pow_succ,
      add_mul_lt_iff (Nat.mod_lt _ hpow) (Nat.mod_lt _ hpow)]

theorem fixedDigits_lt {width n m : Nat} (hn : n < 10 ^ width) (hm : m < 10 ^ width) :
    fixedDigits width n < fixedDigits width m ↔ n < m := by
  rw [fixedDigits_lt_iff, Nat.mod_eq_of_lt hn, Nat.mod_eq_of_lt hm]

theorem fixedDigits_inj {width n m : Nat} (hn : n < 10 ^ width) (hm : m < 10 ^ width) :
    fixedDigits width n = fixedDigits width m ↔ n = m := by
  constructor
  · intro h
    have hlt := mt (fixedDigits_lt hn hm).2 (by rw [h]; exact List.lt_irrefl _)
    have hgt := mt (fixedDigits_lt hm hn).2 (by rw [h]; exact List.lt_irrefl _)
    omega
  · rintro rfl
    rfl

end Order

section Texts

/-- A day as it is written. -/
def dateText (d : Date) : String :=
  padded 4 d.year ++ "-" ++ padded 2 d.month ++ "-" ++ padded 2 d.day

def dayText (n : Nat) : String := dateText (dayAfter n)

theorem utf8_append (s t : String) : utf8 (s ++ t) = utf8 s ++ utf8 t := by
  simp [utf8, String.toUTF8_eq_toByteArray, String.toByteArray_append]

theorem Date.day_lt (d : Date) : d.day < 10 ^ 2 := by
  have hday := d.day_le
  have hle : daysInMonth d.year d.month ≤ 31 := by
    unfold daysInMonth
    split
    · split <;> omega
    · split <;> omega
  omega

theorem utf8_dateText {d : Date} (hyear : d.year ≤ 9999) :
    utf8 (dateText d) = fixedDigits 4 d.year ++ ([45] ++ (fixedDigits 2 d.month ++
      ([45] ++ fixedDigits 2 d.day))) := by
  have hdash : utf8 "-" = [45] := by decide
  have hmonth := d.month_le
  rw [dateText, utf8_append, utf8_append, utf8_append, utf8_append, hdash,
    utf8_padded (by omega), utf8_padded (by omega), utf8_padded (Date.day_lt d)]
  simp only [List.append_assoc]

theorem dateText_lt_iff {d d' : Date} (hyear : d.year ≤ 9999) (hyear' : d'.year ≤ 9999) :
    utf8 (dateText d) < utf8 (dateText d') ↔ d.before d' := by
  have hmonth := d.month_le
  have hmonth' := d'.month_le
  have hlength : ∀ width n m, (fixedDigits width n).length = (fixedDigits width m).length := by
    intro width n m
    rw [fixedDigits_length, fixedDigits_length]
  rw [utf8_dateText hyear, utf8_dateText hyear', append_lt_append_iff (hlength _ _ _),
    append_lt_append_iff rfl, append_lt_append_iff (hlength _ _ _), append_lt_append_iff rfl,
    fixedDigits_lt (by omega) (by omega), fixedDigits_inj (by omega) (by omega),
    fixedDigits_lt (by omega) (by omega), fixedDigits_inj (by omega) (by omega),
    fixedDigits_lt (Date.day_lt d) (Date.day_lt d')]
  have hirrefl := List.lt_irrefl ([45] : Bytes)
  simp [hirrefl, Date.before]

theorem civilDate_eq (secs : UInt64) : civilDate secs = some (dayText (secs.toNat / 86400)) := by
  have hyear : ∀ year : Nat, paddedYear year = padded 4 year := by
    intro year
    rw [paddedYear, if_neg (by omega), Int.natAbs_natCast]
  rw [civilDate, civilParts_eq, Option.map_some, hyear]
  rfl

theorem dayText_lt_iff {n m : Nat} (hn : (dayAfter n).year ≤ 9999)
    (hm : (dayAfter m).year ≤ 9999) : utf8 (dayText n) < utf8 (dayText m) ↔ n < m :=
  (dateText_lt_iff hn hm).trans dayAfter_before_iff

theorem dayText_inj {n m : Nat} (hn : (dayAfter n).year ≤ 9999)
    (hm : (dayAfter m).year ≤ 9999) (h : dayText n = dayText m) : n = m := by
  have hlt := mt (dayText_lt_iff hn hm).2 (by rw [h]; exact List.lt_irrefl _)
  have hgt := mt (dayText_lt_iff hm hn).2 (by rw [h]; exact List.lt_irrefl _)
  omega

end Texts
section Store

structure RawRow where
  requests : UInt64
  inputTokens : UInt64
  outputTokens : UInt64
  saltSpentGrains : U256

structure UsageRow where
  date : String
  requests : UInt64
  inputTokens : UInt64
  outputTokens : UInt64
  saltSpentGrains : String

def RawRow.default : RawRow := ⟨0, 0, 0, 0⟩

abbrev UsageStore := AList fun _ : String × String => RawRow

/-- A successful request of a key at an instant. -/
structure Call where
  keyId : String
  secs : UInt64
  inputTokens : UInt32
  outputTokens : UInt32
  grains : U256

/-- One more request in a row. The sum of the grains comes last; when it overflows, the call
panics and the counts before it stay. -/
def RawRow.add (row : RawRow) (call : Call) : RawRow where
  requests := row.requests + 1
  inputTokens := row.inputTokens + call.inputTokens.toUInt64
  outputTokens := row.outputTokens + call.outputTokens.toUInt64
  saltSpentGrains :=
    if (overflowingAdd row.saltSpentGrains call.grains).2 then row.saltSpentGrains
    else (overflowingAdd row.saltSpentGrains call.grains).1

/-- The store after a call; without a result the date underflowed. -/
def record (store : UsageStore) (call : Call) : Option UsageStore :=
  (civilDate call.secs).map fun date =>
    store.insert (call.keyId, date)
      (((store.lookup (call.keyId, date)).getD RawRow.default).add call)

def UsageRow.ofRaw (date : String) (row : RawRow) : UsageRow where
  date := date
  requests := row.requests
  inputTokens := row.inputTokens
  outputTokens := row.outputTokens
  saltSpentGrains := toDecStr row.saltSpentGrains

def notEarlier (a b : UsageRow) : Bool := decide (utf8 b.date ≤ utf8 a.date)

def rowsFor (store : UsageStore) (keyId : String) : List UsageRow :=
  (((store.entries.filter fun e => e.1.1 = keyId).map fun e =>
    UsageRow.ofRaw e.1.2 e.2)).mergeSort notEarlier

/-- The store that a list of calls leaves, the newest of which comes first. -/
def after : List Call → Option UsageStore
  | [] => some ∅
  | call :: past => (after past).bind fun store => record store call

end Store

section Runs

/-- The calls of a key on a day. -/
def Call.on (keyId date : String) (call : Call) : Bool :=
  call.keyId = keyId && dayText (call.secs.toNat / 86400) = date

theorem record_eq (store : UsageStore) (call : Call) :
    record store call = some (store.insert (call.keyId, dayText (call.secs.toNat / 86400))
      (((store.lookup (call.keyId, dayText (call.secs.toNat / 86400))).getD
        RawRow.default).add call)) := by
  rw [record, civilDate_eq, Option.map_some]

/-- Rows and their counts, as the calls so far made them. -/
def Counted (calls : List Call) (store : UsageStore) : Prop :=
  ∀ keyId date, (store.lookup (keyId, date)).map RawRow.requests =
    if calls.countP (Call.on keyId date) = 0 then none
    else some (UInt64.ofNat (calls.countP (Call.on keyId date)))

theorem Counted.record {calls : List Call} {store : UsageStore} (h : Counted calls store)
    (call : Call) : Counted (call :: calls) (store.insert
      (call.keyId, dayText (call.secs.toNat / 86400))
        (((store.lookup (call.keyId, dayText (call.secs.toNat / 86400))).getD
          RawRow.default).add call)) := by
  intro keyId date
  by_cases hsame : (keyId, date) = (call.keyId, dayText (call.secs.toNat / 86400))
  · obtain ⟨rfl, rfl⟩ := Prod.mk.inj hsame
    have hold := h call.keyId (dayText (call.secs.toNat / 86400))
    have hon : Call.on call.keyId (dayText (call.secs.toNat / 86400)) call = true := by
      simp [Call.on]
    rw [AList.lookup_insert, List.countP_cons_of_pos hon, if_neg (by omega), Option.map_some]
    congr 1
    cases hl : store.lookup (call.keyId, dayText (call.secs.toNat / 86400)) with
    | none =>
      rw [hl, Option.map_none] at hold
      split at hold
      · rename_i hzero
        rw [hzero]
        rfl
      · cases hold
    | some row =>
      rw [hl, Option.map_some] at hold
      split at hold
      · cases hold
      · have hrow := Option.some.inj hold
        simp only [Option.getD_some, RawRow.add, hrow, UInt64.ofNat_add]
        rfl
  · have hoff : Call.on keyId date call = false := by
      simp only [Prod.mk.injEq, not_and] at hsame
      by_cases hkey : call.keyId = keyId
      · have hdate := hsame hkey.symm
        simp [Call.on, Ne.symm hdate]
      · simp [Call.on, hkey]
    rw [AList.lookup_insert_ne hsame, List.countP_cons_of_neg (by simp [hoff])]
    exact h keyId date

/-- Every call finds its date, and the rows count the calls. -/
theorem exists_after (calls : List Call) : ∃ store, after calls = some store ∧
    Counted calls store := by
  induction calls with
  | nil =>
    refine ⟨∅, rfl, ?_⟩
    intro keyId date
    rfl
  | cons call calls ih =>
    obtain ⟨store, hafter, hcounted⟩ := ih
    refine ⟨_, ?_, hcounted.record call⟩
    rw [after, hafter, Option.bind_some, record_eq]

theorem mem_rowsFor {store : UsageStore} {keyId : String} {row : UsageRow} :
    row ∈ rowsFor store keyId ↔
      ∃ date raw, store.lookup (keyId, date) = some raw ∧ row = UsageRow.ofRaw date raw := by
  rw [rowsFor, (List.mergeSort_perm _ _).mem_iff, List.mem_map]
  constructor
  · rintro ⟨e, he, rfl⟩
    obtain ⟨hmem, hkey⟩ := List.mem_filter.1 he
    have hkey : e.1.1 = keyId := by simpa using hkey
    subst hkey
    exact ⟨e.1.2, e.2, AList.mem_lookup_iff.2 hmem, rfl⟩
  · rintro ⟨date, raw, hlookup, rfl⟩
    refine ⟨⟨(keyId, date), raw⟩, List.mem_filter.2 ⟨AList.mem_lookup_iff.1 hlookup, ?_⟩, rfl⟩
    simp

theorem rowsFor_nodup (store : UsageStore) (keyId : String) :
    ((rowsFor store keyId).map UsageRow.date).Nodup := by
  have hperm := (List.mergeSort_perm (((store.entries.filter fun e => e.1.1 = keyId).map fun e =>
    UsageRow.ofRaw e.1.2 e.2)) notEarlier).map UsageRow.date
  rw [rowsFor, hperm.nodup_iff, List.map_map, List.nodup_map_iff_inj_on]
  · intro e he e' he' hdate
    have hkeys : e.1 = e'.1 := by
      obtain ⟨-, hkey⟩ := List.mem_filter.1 he
      obtain ⟨-, hkey'⟩ := List.mem_filter.1 he'
      simp only [decide_eq_true_eq] at hkey hkey'
      exact Prod.ext (hkey.trans hkey'.symm) hdate
    have hlookup := AList.mem_lookup_iff.2 (List.mem_filter.1 he).1
    have hlookup' := AList.mem_lookup_iff.2 (List.mem_filter.1 he').1
    obtain ⟨k, v⟩ := e
    obtain ⟨k', v'⟩ := e'
    simp only at hkeys hlookup hlookup'
    subst hkeys
    rw [hlookup] at hlookup'
    rw [Option.some.inj hlookup']
  · exact (store.nodupKeys.nodup).filter _

/-- The rows come in the order of their dates, the greatest text first. -/
theorem rowsFor_sorted (store : UsageStore) (keyId : String) :
    (rowsFor store keyId).Pairwise fun a b => utf8 b.date < utf8 a.date := by
  have hle : (rowsFor store keyId).Pairwise fun a b => notEarlier a b = true := by
    apply List.pairwise_mergeSort
    · intro a b c hab hbc
      simp only [notEarlier, decide_eq_true_eq] at hab hbc ⊢
      exact List.le_trans hbc hab
    · intro a b
      simp only [notEarlier, Bool.or_eq_true, decide_eq_true_eq]
      exact List.le_total _ _
  have hne := List.pairwise_map.1 (rowsFor_nodup store keyId)
  apply (hle.and hne).imp
  intro a b ⟨hab, hdate⟩
  simp only [notEarlier, decide_eq_true_eq] at hab
  rcases List.le_iff_lt_or_eq.1 hab with hlt | heq
  · exact hlt
  · exact absurd (utf8_inj heq).symm hdate

end Runs

section Buckets

/-- The instant lies in the year 9999 or before. -/
def FourDigitYear (secs : UInt64) : Prop := (dayAfter (secs.toNat / 86400)).year ≤ 9999

theorem fourDigitYear_of_parts {secs : UInt64} {parts : Int × Nat × Nat}
    (h : civilParts secs = some parts) (hyear : parts.1 ≤ 9999) : FourDigitYear secs := by
  rw [civilParts_eq, Option.some.injEq] at h
  subst h
  simp only at hyear
  unfold FourDigitYear
  omega

theorem countP_on {calls : List Call} (hyears : ∀ call ∈ calls, FourDigitYear call.secs)
    {keyId : String} {n : Nat} (hn : (dayAfter n).year ≤ 9999) :
    calls.countP (Call.on keyId (dayText n)) =
      calls.countP fun call => call.keyId = keyId ∧ call.secs.toNat / 86400 = n := by
  apply List.countP_congr
  intro call hcall
  have hday : dayText (call.secs.toNat / 86400) = dayText n ↔ call.secs.toNat / 86400 = n :=
    ⟨dayText_inj (hyears call hcall) hn, fun h => by rw [h]⟩
  simp [Call.on, hday]

/-- A row is a day on which the key was used. -/
theorem call_of_row {calls : List Call} {store : UsageStore} (hcounted : Counted calls store)
    {keyId : String} {row : UsageRow} (hrow : row ∈ rowsFor store keyId) :
    ∃ call ∈ calls, call.keyId = keyId ∧ row.date = dayText (call.secs.toNat / 86400) ∧
      row.requests = UInt64.ofNat (calls.countP (Call.on keyId row.date)) := by
  obtain ⟨date, raw, hlookup, rfl⟩ := mem_rowsFor.1 hrow
  have hcount := hcounted keyId date
  rw [hlookup, Option.map_some] at hcount
  split at hcount
  · cases hcount
  · rename_i hpos
    obtain ⟨call, hcall, hon⟩ := List.countP_pos_iff.1 (Nat.pos_of_ne_zero hpos)
    simp only [Call.on, Bool.and_eq_true, decide_eq_true_eq] at hon
    exact ⟨call, hcall, hon.1, hon.2.symm, Option.some.inj hcount⟩

theorem row_of_call {calls : List Call} {store : UsageStore} (hcounted : Counted calls store)
    {call : Call} (hcall : call ∈ calls) :
    ∃ row ∈ rowsFor store call.keyId, row.date = dayText (call.secs.toNat / 86400) := by
  have hcount := hcounted call.keyId (dayText (call.secs.toNat / 86400))
  have hpos : 0 < calls.countP (Call.on call.keyId (dayText (call.secs.toNat / 86400))) :=
    List.countP_pos_iff.2 ⟨call, hcall, by simp [Call.on]⟩
  rw [if_neg (by omega)] at hcount
  obtain ⟨raw, hlookup, -⟩ := Option.map_eq_some_iff.1 hcount
  exact ⟨_, mem_rowsFor.2 ⟨_, raw, hlookup, rfl⟩, rfl⟩

/-- The date of an instant is the day that counting from 1970 reaches; dates sort as texts like
their days; and over any calls the rows of a key are its days, newest first. -/
theorem usage_dates :
    (∀ secs, civilDate secs = some (dayText (secs.toNat / 86400))) ∧
    (∀ secs secs' text text', FourDigitYear secs → FourDigitYear secs' →
      civilDate secs = some text → civilDate secs' = some text' →
        (utf8 text < utf8 text' ↔ secs.toNat / 86400 < secs'.toNat / 86400) ∧
        (text = text' ↔ secs.toNat / 86400 = secs'.toNat / 86400)) ∧
    ∀ calls : List Call, (∀ call ∈ calls, FourDigitYear call.secs) →
      ∃ store, after calls = some store ∧ ∀ keyId,
        ((rowsFor store keyId).Pairwise fun a b =>
          ∃ n m, a.date = dayText n ∧ b.date = dayText m ∧ m < n) ∧
        (∀ call ∈ calls, call.keyId = keyId →
          ∃ row ∈ rowsFor store keyId, row.date = dayText (call.secs.toNat / 86400)) ∧
        ∀ row ∈ rowsFor store keyId, ∃ call ∈ calls, call.keyId = keyId ∧
          row.date = dayText (call.secs.toNat / 86400) ∧
          row.requests = UInt64.ofNat (calls.countP fun other => other.keyId = keyId ∧
            other.secs.toNat / 86400 = call.secs.toNat / 86400) := by
  refine ⟨civilDate_eq, ?_, ?_⟩
  · intro secs secs' text text' hyear hyear' htext htext'
    rw [civilDate_eq, Option.some.injEq] at htext htext'
    subst htext htext'
    exact ⟨dayText_lt_iff hyear hyear', dayText_inj hyear hyear', fun h => by rw [h]⟩
  · intro calls hyears
    obtain ⟨store, hafter, hcounted⟩ := exists_after calls
    refine ⟨store, hafter, ?_⟩
    intro keyId
    refine ⟨?_, ?_, ?_⟩
    · apply (rowsFor_sorted store keyId).imp_of_mem
      intro a b ha hb hlt
      obtain ⟨call, hcall, -, hdate, -⟩ := call_of_row hcounted ha
      obtain ⟨call', hcall', -, hdate', -⟩ := call_of_row hcounted hb
      refine ⟨_, _, hdate, hdate', ?_⟩
      rw [hdate, hdate'] at hlt
      exact (dayText_lt_iff (hyears call' hcall') (hyears call hcall)).1 hlt
    · rintro call hcall rfl
      exact row_of_call hcounted hcall
    · intro row hrow
      obtain ⟨call, hcall, hkey, hdate, hrequests⟩ := call_of_row hcounted hrow
      refine ⟨call, hcall, hkey, hdate, ?_⟩
      rw [hrequests, hdate, countP_on hyears (hyears call hcall)]

/-- The two sides of a midnight at the end of a leap year's February. -/
theorem usage_dates_sample :
    civilDate 951868799 = some "2000-02-29" ∧ civilDate 951868800 = some "2000-03-01" ∧
      (utf8 "2000-02-29" < utf8 "2000-03-01" ↔ 951868799 / 86400 < 951868800 / 86400) := by
  have hlast : civilDate 951868799 = some "2000-02-29" := by decide +kernel
  have hfirst : civilDate 951868800 = some "2000-03-01" := by decide +kernel
  have hparts : civilParts 951868799 = some (2000, 2, 29) := by decide +kernel
  have hparts' : civilParts 951868800 = some (2000, 3, 1) := by decide +kernel
  have hyear : FourDigitYear 951868799 := fourDigitYear_of_parts hparts (by decide)
  have hyear' : FourDigitYear 951868800 := fourDigitYear_of_parts hparts' (by decide)
  exact ⟨hlast, hfirst,
    (usage_dates.2.1 951868799 951868800 _ _ hyear hyear' hlast hfirst).1⟩

end Buckets
end Gateway.Usage
