import Mathlib.Algebra.Group.Nat.Defs
import Mathlib.Order.Monotone.Basic
import SimpleClaw.Lib.Text

/-!
# Instants as RFC 3339 texts

An instant is a number of nanoseconds since the beginning of the year 0000 of the proleptic
Gregorian calendar, in UTC.  Its text has all the fields of date and time in their order, each in a
fixed number of digits, and a fraction of the second in none, three, six or nine digits, as many as
are needed.

* `digits w n`: the last `w` decimal digits.
* `yearOf`, `monthOf`: the calendar.
* `instantText`: the text of an instant, up to the end of the year 9999.
* `instantText_lt`: texts are in the order of the instants.
* `readInstant_instantText`: instants are read back from their texts.
-/

namespace Rfc3339

/-! ## Texts in the order of characters -/

/-- The first difference decides. -/
theorem append_lt_append {a b : Text} (hlength : a.length = b.length) (hlt : a < b) (x y : Text) :
    a ++ x < b ++ y := by
  induction a generalizing b with
  | nil =>
      rw [List.length_nil] at hlength
      rw [List.length_eq_zero_iff.mp hlength.symm] at hlt
      exact absurd hlt (List.lt_irrefl _)
  | cons c a ih =>
      cases b with
      | nil => simp at hlength
      | cons d b =>
          rw [List.cons_append, List.cons_append, List.cons_lt_cons_iff]
          rcases List.cons_lt_cons_iff.mp hlt with hcd | ⟨hcd, hab⟩
          · exact Or.inl hcd
          · exact Or.inr ⟨hcd, ih (by simpa using hlength) hab⟩

/-! ## Digits -/

def digit (n : Nat) : Char := Char.ofNat (48 + n % 10)

theorem digit_lt {m n : Nat} (hmn : m % 10 < n % 10) : digit m < digit n := by
  have hall : ∀ a < 10, ∀ b < 10, a < b → Char.ofNat (48 + a) < Char.ofNat (48 + b) := by decide
  exact hall _ (Nat.mod_lt m (by omega)) _ (Nat.mod_lt n (by omega)) hmn

/-- A plus sign comes before a digit. -/
theorem plus_lt_digit (n : Nat) : '+' < digit n := by
  have hall : ∀ a < 10, '+' < Char.ofNat (48 + a) := by decide
  exact hall _ (Nat.mod_lt n (by omega))

/-- The last `w` decimal digits. -/
def digits : Nat → Nat → Text
  | 0, _ => []
  | w + 1, n => digits w (n / 10) ++ [digit n]

@[simp] theorem length_digits (w n : Nat) : (digits w n).length = w := by
  induction w generalizing n with
  | zero => rfl
  | succ w ih => simp [digits, ih]

/-- Numerals of one length are in the order of the numbers. -/
theorem digits_lt {w m n : Nat} (hn : n < 10 ^ w) (hmn : m < n) : digits w m < digits w n := by
  induction w generalizing m n with
  | zero =>
      rw [pow_zero] at hn
      omega
  | succ w ih =>
      rw [pow_succ] at hn
      rw [digits, digits]
      rcases Nat.lt_or_ge (m / 10) (n / 10) with hlt | hge
      · exact append_lt_append (by simp) (ih (by omega) hlt) _ _
      · rw [show m / 10 = n / 10 by omega]
        exact List.append_left_lt (List.cons_lt_cons_iff.mpr (Or.inl (digit_lt (by omega))))

/-- A numeral in the middle of a text. -/
theorem digits_append_lt {w m n : Nat} (hn : n < 10 ^ w) (hmn : m < n) (x y : Text) :
    digits w m ++ x < digits w n ++ y :=
  append_lt_append (by simp) (digits_lt hn hmn) x y

/-- Only the last digits of the number count. -/
theorem digits_mod (w n : Nat) : digits w (n % 10 ^ w) = digits w n := by
  induction w generalizing n with
  | zero => rfl
  | succ w ih =>
      have hdiv : n % 10 ^ (w + 1) / 10 = n / 10 % 10 ^ w := by
        rw [pow_succ', Nat.mod_mul_right_div_self]
      have hdigit : digit (n % 10 ^ (w + 1)) = digit n := by
        rw [digit, pow_succ', Nat.mod_mul_right_mod]
        rfl
      rw [digits, digits, hdiv, hdigit, ih]

theorem digits_add (w v n : Nat) : digits (w + v) n = digits w (n / 10 ^ v) ++ digits v n := by
  induction v generalizing n with
  | zero => simp [digits]
  | succ v ih =>
      rw [← Nat.add_assoc, digits, ih, digits, Nat.div_div_eq_div_mul, ← pow_succ',
        List.append_assoc]

/-! ## The calendar -/

/-- The days before the first one of a year. -/
def daysBeforeYear (year : Nat) : Nat :=
  365 * year + (year + 3) / 4 - (year + 99) / 100 + (year + 399) / 400

def isLeapYear (year : Nat) : Bool := year % 4 = 0 && (year % 100 ≠ 0 || year % 400 = 0)

/-- The year of a day: four hundred years have 146097 days. -/
def yearOf (day : Nat) : Nat :=
  let year := day * 400 / 146097
  if day < daysBeforeYear year then year - 1
  else if daysBeforeYear (year + 1) ≤ day then year + 1
  else year

theorem daysBeforeYear_yearOf_le (day : Nat) : daysBeforeYear (yearOf day) ≤ day := by
  unfold yearOf
  simp only
  split
  · next h => unfold daysBeforeYear at *; omega
  · split
    · next h => exact h
    · next h _ => exact Nat.le_of_not_lt h

theorem lt_daysBeforeYear_yearOf (day : Nat) : day < daysBeforeYear (yearOf day + 1) := by
  unfold yearOf
  simp only
  split
  · next h =>
      rw [Nat.sub_add_cancel]
      · exact h
      · unfold daysBeforeYear at h
        omega
  · split
    · next h => unfold daysBeforeYear at *; omega
    · next h => exact Nat.lt_of_not_le h

theorem daysBeforeYear_mono : Monotone daysBeforeYear := by
  refine monotone_nat_of_le_succ fun year => ?_
  unfold daysBeforeYear
  omega

/-- Later days are in no earlier year. -/
theorem yearOf_mono {d e : Nat} (h : d ≤ e) : yearOf d ≤ yearOf e := by
  by_contra hlt
  have hle : daysBeforeYear (yearOf e + 1) ≤ daysBeforeYear (yearOf d) :=
    daysBeforeYear_mono (Nat.lt_of_not_le hlt)
  have hd := daysBeforeYear_yearOf_le d
  have he := lt_daysBeforeYear_yearOf e
  omega

/-- The days of the year before the first one of each month. -/
def monthStarts (leap : Bool) : List Nat :=
  if leap then [0, 31, 60, 91, 121, 152, 182, 213, 244, 274, 305, 335]
  else [0, 31, 59, 90, 120, 151, 181, 212, 243, 273, 304, 334]

/-- The month of a day of the year, from 1 to 12. -/
def monthOf (leap : Bool) (dayOfYear : Nat) : Nat := (monthStarts leap).countP (· ≤ dayOfYear)

/-- The day of the month of a day of the year. -/
def dayOf (leap : Bool) (dayOfYear : Nat) : Nat :=
  dayOfYear + 1 - (monthStarts leap).getD (monthOf leap dayOfYear - 1) 0

theorem monthOf_mono (leap : Bool) : Monotone (monthOf leap) := fun _ _ h =>
  List.countP_mono_left fun _ _ hx => decide_eq_true (le_trans (of_decide_eq_true hx) h)

theorem monthOf_le (leap : Bool) (d : Nat) : monthOf leap d ≤ 12 := by
  refine le_trans List.countP_le_length ?_
  cases leap <;> decide

theorem monthStart_le (leap : Bool) {d : Nat} (hd : d < 366) :
    (monthStarts leap).getD (monthOf leap d - 1) 0 ≤ d ∧ dayOf leap d < 100 := by
  have hall : ∀ leap : Bool, ∀ d < 366, (monthStarts leap).getD (monthOf leap d - 1) 0 ≤ d ∧
      dayOf leap d < 100 := by decide +kernel
  exact hall leap d hd

/-! ## Texts of dates and times -/

/-- The text of a day. -/
def dateText (day : Nat) : Text :=
  let year := yearOf day
  let dayOfYear := day - daysBeforeYear year
  let leap := isLeapYear year
  digits 4 year ++ '-' :: digits 2 (monthOf leap dayOfYear) ++
    '-' :: digits 2 (dayOf leap dayOfYear)

/-- The text of a second of a day. -/
def timeText (second : Nat) : Text :=
  digits 2 (second / 3600) ++ ':' :: digits 2 (second / 60 % 60) ++ ':' :: digits 2 (second % 60)

/-- The fraction of a second in as many groups of three digits as it needs, and the offset. -/
def fractionText (nanos : Nat) : Text :=
  if nanos = 0 then "+00:00"
  else if nanos % 1000000 = 0 then '.' :: digits 3 (nanos / 1000000) ++ ("+00:00" : Text)
  else if nanos % 1000 = 0 then '.' :: digits 6 (nanos / 1000) ++ ("+00:00" : Text)
  else '.' :: digits 9 nanos ++ ("+00:00" : Text)

/-- The text of an instant in a year of four digits. -/
def instantText (instant : Nat) : Text :=
  let second := instant / 1000000000
  dateText (second / 86400) ++ 'T' :: timeText (second % 86400) ++
    fractionText (instant % 1000000000)

/-- The days up to the end of the year 9999. -/
def lastDay : Nat := 3652425

example : lastDay = daysBeforeYear 10000 := rfl

@[simp] theorem length_dateText (day : Nat) : (dateText day).length = 10 := by simp [dateText]

@[simp] theorem length_timeText (second : Nat) : (timeText second).length = 8 := by simp [timeText]

theorem cons_lt_cons {x y : Text} (c : Char) (h : x < y) : c :: x < c :: y :=
  List.cons_lt_cons_iff.mpr (Or.inr ⟨rfl, h⟩)

/-- Days up to the last one are in years of four digits. -/
theorem yearOf_lt {day : Nat} (h : day < lastDay) : yearOf day < 10 ^ 4 := by
  have hle := daysBeforeYear_yearOf_le day
  by_contra hge
  have hmono : daysBeforeYear 10000 ≤ daysBeforeYear (yearOf day) :=
    daysBeforeYear_mono (Nat.le_of_not_lt hge)
  rw [show daysBeforeYear 10000 = lastDay from rfl] at hmono
  omega

/-- Texts of days are in the order of the days. -/
theorem dateText_lt {d e : Nat} (he : e < lastDay) (hde : d < e) : dateText d < dateText e := by
  have hyear := yearOf_lt he
  rcases Nat.lt_or_ge (yearOf d) (yearOf e) with hlt | hge
  · simp only [dateText, List.append_assoc]
    exact digits_append_lt hyear hlt _ _
  · have heq : yearOf d = yearOf e := le_antisymm (yearOf_mono (le_of_lt hde)) hge
    simp only [dateText, List.append_assoc]
    rw [heq]
    refine List.append_left_lt (cons_lt_cons _ ?_)
    have hd := daysBeforeYear_yearOf_le d
    have hlast := lt_daysBeforeYear_yearOf e
    rw [heq] at hd
    generalize isLeapYear (yearOf e) = leap
    obtain ⟨m, hm⟩ : ∃ m, m = d - daysBeforeYear (yearOf e) := ⟨_, rfl⟩
    obtain ⟨n, hn⟩ : ∃ n, n = e - daysBeforeYear (yearOf e) := ⟨_, rfl⟩
    have hyearLength : daysBeforeYear (yearOf e + 1) ≤ daysBeforeYear (yearOf e) + 366 := by
      unfold daysBeforeYear
      omega
    have hmn : m < n := by omega
    have hn366 : n < 366 := by omega
    rw [← hm, ← hn]
    have hmonth := monthOf_le leap n
    rcases Nat.lt_or_ge (monthOf leap m) (monthOf leap n) with hlt | hge
    · exact digits_append_lt (by omega) hlt _ _
    · have hmonths : monthOf leap m = monthOf leap n :=
        le_antisymm (monthOf_mono leap (le_of_lt hmn)) hge
      rw [hmonths]
      refine List.append_left_lt (cons_lt_cons _ (digits_lt ?_ ?_))
      · exact (monthStart_le leap hn366).2
      · have hstart := (monthStart_le leap (show m < 366 by omega)).1
        rw [hmonths] at hstart
        unfold dayOf
        rw [hmonths]
        omega

/-- Texts of seconds are in the order of the seconds. -/
theorem timeText_lt {s t : Nat} (ht : t < 86400) (hst : s < t) : timeText s < timeText t := by
  simp only [timeText, List.append_assoc]
  rcases Nat.lt_or_ge (s / 3600) (t / 3600) with hlt | hge
  · exact digits_append_lt (by omega) hlt _ _
  · rw [show s / 3600 = t / 3600 by omega]
    refine List.append_left_lt (cons_lt_cons _ ?_)
    rcases Nat.lt_or_ge (s / 60 % 60) (t / 60 % 60) with hlt | hge
    · exact digits_append_lt (by omega) hlt _ _
    · rw [show s / 60 % 60 = t / 60 % 60 by omega]
      exact List.append_left_lt (cons_lt_cons _ (digits_lt (by omega) (by omega)))

/-! ## Fractions -/

/-- The fraction after its first group. -/
def fractionRest (nanos : Nat) : Text :=
  if nanos % 1000000 = 0 then "+00:00"
  else digits 3 (nanos / 1000 % 1000) ++
    if nanos % 1000 = 0 then ("+00:00" : Text) else digits 3 (nanos % 1000) ++ ("+00:00" : Text)

theorem fractionText_eq {nanos : Nat} (hne : nanos ≠ 0) :
    fractionText nanos = '.' :: (digits 3 (nanos / 1000000) ++ fractionRest nanos) := by
  have hsix : digits 6 (nanos / 1000) =
      digits 3 (nanos / 1000000) ++ digits 3 (nanos / 1000 % 1000) := by
    rw [show (1000 : Nat) = 10 ^ 3 from rfl, digits_mod, digits_add 3 3, Nat.div_div_eq_div_mul]
    rfl
  have hnine : digits 9 nanos = digits 6 (nanos / 1000) ++ digits 3 (nanos % 1000) := by
    rw [digits_add 6 3, show (1000 : Nat) = 10 ^ 3 from rfl, digits_mod]
  rw [fractionText, fractionRest, if_neg hne]
  split
  · rfl
  · split
    · rw [hsix]
      simp
    · rw [hnine, hsix]
      simp

/-- The offset comes before another group of digits. -/
theorem offset_lt_digits (n : Nat) (x : Text) : ("+00:00" : Text) < digits 3 n ++ x := by
  have hfirst : digits 3 n = digit (n / 10 / 10) :: [digit (n / 10), digit n] := rfl
  rw [hfirst]
  exact List.cons_lt_cons_iff.mpr (Or.inl (plus_lt_digit _))

/-- Texts of fractions are in the order of the fractions. -/
theorem fractionText_lt {m n : Nat} (hn : n < 1000000000) (hmn : m < n) :
    fractionText m < fractionText n := by
  rw [fractionText_eq (show n ≠ 0 by omega)]
  by_cases hm : m = 0
  · rw [hm]
    exact List.cons_lt_cons_iff.mpr (Or.inl (by decide))
  · rw [fractionText_eq hm]
    refine cons_lt_cons _ ?_
    rcases Nat.lt_or_ge (m / 1000000) (n / 1000000) with hlt | hge
    · exact digits_append_lt (by omega) hlt _ _
    · rw [show m / 1000000 = n / 1000000 by omega]
      refine List.append_left_lt ?_
      rw [fractionRest, fractionRest, if_neg (show n % 1000000 ≠ 0 by omega)]
      split
      · exact offset_lt_digits _ _
      · rcases Nat.lt_or_ge (m / 1000 % 1000) (n / 1000 % 1000) with hlt | hge
        · exact digits_append_lt (by omega) hlt _ _
        · rw [show m / 1000 % 1000 = n / 1000 % 1000 by omega,
            if_neg (show n % 1000 ≠ 0 by omega)]
          refine List.append_left_lt ?_
          split
          · exact offset_lt_digits _ _
          · exact digits_append_lt (by omega) (by omega) _ _

/-- **Texts of instants are in the order of the instants.** -/
theorem instantText_lt {s t : Nat} (ht : t < lastDay * 86400 * 1000000000) (hst : s < t) :
    instantText s < instantText t := by
  unfold lastDay at ht
  simp only [instantText, List.append_assoc]
  rcases Nat.lt_or_ge (s / 1000000000 / 86400) (t / 1000000000 / 86400) with hlt | hge
  · refine append_lt_append (by simp) (dateText_lt ?_ hlt) _ _
    unfold lastDay
    omega
  · rw [show s / 1000000000 / 86400 = t / 1000000000 / 86400 by omega]
    refine List.append_left_lt (cons_lt_cons _ ?_)
    rcases Nat.lt_or_ge (s / 1000000000 % 86400) (t / 1000000000 % 86400) with hlt | hge
    · exact append_lt_append (by simp) (timeText_lt (by omega) hlt) _ _
    · rw [show s / 1000000000 % 86400 = t / 1000000000 % 86400 by omega]
      exact List.append_left_lt (fractionText_lt (by omega) (by omega))

/-! ## Reading a text back -/

/-- The number that decimal digits stand for. -/
def number (t : Text) : Nat := t.foldl (fun n c => 10 * n + (c.toNat - 48)) 0

theorem digit_isDigit (n : Nat) : (digit n).isDigit = true ∧ (digit n).toNat - 48 = n % 10 := by
  have hall : ∀ a < 10, (Char.ofNat (48 + a)).isDigit = true ∧
      (Char.ofNat (48 + a)).toNat - 48 = a := by decide
  exact hall _ (Nat.mod_lt n (by omega))

theorem number_digits (w n : Nat) : number (digits w n) = n % 10 ^ w := by
  induction w generalizing n with
  | zero => simp [digits, number, Nat.mod_one]
  | succ w ih =>
      have hfold : number (digits (w + 1) n) =
          10 * number (digits w (n / 10)) + ((digit n).toNat - 48) := by
        simp [number, digits]
      rw [hfold, ih, (digit_isDigit n).2, pow_succ', Nat.mod_mul, Nat.add_comm]

theorem isDigit_of_mem_digits {w n : Nat} {c : Char} (h : c ∈ digits w n) : c.isDigit = true := by
  induction w generalizing n with
  | zero => cases h
  | succ w ih =>
      rcases List.mem_append.mp h with h | h
      · exact ih h
      · rw [List.mem_singleton.mp h]
        exact (digit_isDigit n).1

theorem drop_digits {w k : Nat} (h : w ≤ k) (n : Nat) : (digits w n).drop k = [] :=
  List.drop_eq_nil_of_le (by simpa using h)

/-- The day of a date. -/
def dayOfText (t : Text) : Nat :=
  let year := number (t.take 4)
  daysBeforeYear year + (monthStarts (isLeapYear year)).getD (number ((t.drop 5).take 2) - 1) 0 +
    number (t.drop 8) - 1

/-- The second of a time. -/
def secondOfText (t : Text) : Nat :=
  number (t.take 2) * 3600 + number ((t.drop 3).take 2) * 60 + number (t.drop 6)

/-- The nanoseconds of a fraction. -/
def nanosOfText : Text → Nat
  | '.' :: t => number (t.takeWhile Char.isDigit) * 10 ^ (9 - (t.takeWhile Char.isDigit).length)
  | _ => 0

/-- The instant of a text in the form that `instantText` writes. -/
def readInstant (t : Text) : Option Nat :=
  let instant := (dayOfText (t.take 10) * 86400 + secondOfText ((t.drop 11).take 8)) * 1000000000 +
    nanosOfText (t.drop 19)
  if instantText instant = t then some instant else none

theorem dayOfText_dateText {day : Nat} (h : day < lastDay) : dayOfText (dateText day) = day := by
  have hyear := yearOf_lt h
  have hle := daysBeforeYear_yearOf_le day
  have hlt := lt_daysBeforeYear_yearOf day
  have hlength : daysBeforeYear (yearOf day + 1) ≤ daysBeforeYear (yearOf day) + 366 := by
    unfold daysBeforeYear
    omega
  have hmonth := monthOf_le (isLeapYear (yearOf day)) (day - daysBeforeYear (yearOf day))
  obtain ⟨hstart, hday⟩ := monthStart_le (isLeapYear (yearOf day))
    (show day - daysBeforeYear (yearOf day) < 366 by omega)
  have hfields : (dateText day).take 4 = digits 4 (yearOf day) ∧
      ((dateText day).drop 5).take 2 =
        digits 2 (monthOf (isLeapYear (yearOf day)) (day - daysBeforeYear (yearOf day))) ∧
      (dateText day).drop 8 =
        digits 2 (dayOf (isLeapYear (yearOf day)) (day - daysBeforeYear (yearOf day))) := by
    simp [dateText, List.drop_append, drop_digits]
  rw [dayOfText, hfields.1, hfields.2.1, hfields.2.2, number_digits, number_digits, number_digits,
    Nat.mod_eq_of_lt (by omega : yearOf day < 10 ^ 4), Nat.mod_eq_of_lt (by omega : _ < 10 ^ 2),
    Nat.mod_eq_of_lt (by omega : _ < 10 ^ 2)]
  unfold dayOf
  omega

theorem secondOfText_timeText {second : Nat} (h : second < 86400) :
    secondOfText (timeText second) = second := by
  have hfields : (timeText second).take 2 = digits 2 (second / 3600) ∧
      ((timeText second).drop 3).take 2 = digits 2 (second / 60 % 60) ∧
      (timeText second).drop 6 = digits 2 (second % 60) := by
    simp [timeText, List.drop_append, drop_digits]
  rw [secondOfText, hfields.1, hfields.2.1, hfields.2.2, number_digits, number_digits,
    number_digits]
  omega

theorem nanosOfText_fractionText {nanos : Nat} (h : nanos < 1000000000) :
    nanosOfText (fractionText nanos) = nanos := by
  have hread : ∀ w n, nanosOfText ('.' :: digits w n ++ ("+00:00" : Text)) =
      n % 10 ^ w * 10 ^ (9 - w) := by
    intro w n
    have htake : (digits w n ++ ("+00:00" : Text)).takeWhile Char.isDigit = digits w n := by
      rw [List.takeWhile_append_of_pos fun c hc => isDigit_of_mem_digits hc]
      exact List.append_nil _
    rw [List.cons_append, nanosOfText, htake, length_digits, number_digits]
  rw [fractionText]
  split
  · next hzero =>
      rw [hzero]
      rfl
  · split
    · rw [hread]
      omega
    · split
      · rw [hread]
        omega
      · rw [hread]
        omega

/-- **Instants are read back from their texts.** -/
theorem readInstant_instantText {t : Nat} (ht : t < lastDay * 86400 * 1000000000) :
    readInstant (instantText t) = some t := by
  have hfields : (instantText t).take 10 = dateText (t / 1000000000 / 86400) ∧
      ((instantText t).drop 11).take 8 = timeText (t / 1000000000 % 86400) ∧
      (instantText t).drop 19 = fractionText (t % 1000000000) := by
    simp [instantText, List.take_append, List.drop_append]
  have hday : t / 1000000000 / 86400 < lastDay := by
    unfold lastDay at ht ⊢
    omega
  rw [readInstant, hfields.1, hfields.2.1, hfields.2.2, dayOfText_dateText hday,
    secondOfText_timeText (by omega), nanosOfText_fractionText (by omega),
    show (t / 1000000000 / 86400 * 86400 + t / 1000000000 % 86400) * 1000000000 +
      t % 1000000000 = t by omega]
  exact if_pos rfl

example : instantText 62167219230500000000 = ("1970-01-01T00:00:30.500+00:00" : Text) := by
  decide +kernel

end Rfc3339
