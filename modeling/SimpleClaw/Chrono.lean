import SimpleClaw.Lib.Rfc3339

/-!
# Instants and their texts

An instant is a number of nanoseconds since 1970.  The library that writes instants as RFC 3339
texts and reads them back is a parameter, `Chrono`; what is asked of it is said for the years of
four digits, and holds of `Chrono.utc`.
-/

namespace SimpleClaw

def nanosPerSecond : Int := 1000000000

/-- Instants as texts. -/
structure Chrono where
  toRfc3339 : Int → Text
  parseFromRfc3339 : Text → Except Text Int

/-- The instant lies in a year of four digits, from 0000 to 9999. -/
def FourDigitYear (t : Int) : Prop :=
  -62167219200 * 1000000000 ≤ t ∧ t < 253402300800 * 1000000000

instance (t : Int) : Decidable (FourDigitYear t) :=
  inferInstanceAs (Decidable (-62167219200 * 1000000000 ≤ t ∧ t < 253402300800 * 1000000000))

/-- Texts of instants in years of four digits are read back exactly. -/
def Chrono.ReadsBack (chrono : Chrono) : Prop :=
  ∀ t, FourDigitYear t → chrono.parseFromRfc3339 (chrono.toRfc3339 t) = .ok t

/-- Texts of instants in years of four digits are in the order of the instants. -/
def Chrono.Ordered (chrono : Chrono) : Prop :=
  ∀ s t, FourDigitYear s → FourDigitYear t → (chrono.toRfc3339 s < chrono.toRfc3339 t ↔ s < t)

/-- Different instants have different texts. -/
theorem Chrono.Ordered.injective {chrono : Chrono} (h : chrono.Ordered) {t u : Int}
    (ht : FourDigitYear t) (hu : FourDigitYear u) (heq : chrono.toRfc3339 t = chrono.toRfc3339 u) :
    t = u := by
  have hirrefl : ¬ chrono.toRfc3339 u < chrono.toRfc3339 u := List.lt_irrefl _
  have htu : ¬ t < u := fun hlt => hirrefl (heq ▸ (h t u ht hu).mpr hlt)
  have hut : ¬ u < t := fun hlt => hirrefl (heq ▸ (h u t hu ht).mpr hlt)
  omega

/-! ## A library of texts -/

/-- The nanoseconds from the beginning of the year 0000 to 1970. -/
def yearZeroToEpoch : Int := 62167219200 * nanosPerSecond

/-- The instant from the beginning of the year 0000. -/
def sinceYearZero (t : Int) : Nat := (t + yearZeroToEpoch).toNat

theorem sinceYearZero_lt {t : Int} (h : FourDigitYear t) :
    sinceYearZero t < Rfc3339.lastDay * 86400 * 1000000000 := by
  unfold FourDigitYear at h
  unfold sinceYearZero yearZeroToEpoch nanosPerSecond Rfc3339.lastDay
  omega

theorem coe_sinceYearZero {t : Int} (h : FourDigitYear t) :
    (sinceYearZero t : Int) - yearZeroToEpoch = t := by
  unfold FourDigitYear at h
  unfold sinceYearZero yearZeroToEpoch nanosPerSecond
  omega

def utcText (t : Int) : Text := Rfc3339.instantText (sinceYearZero t)

def utcInstant (raw : Text) : Except Text Int :=
  match Rfc3339.readInstant raw with
  | some instant => .ok (instant - yearZeroToEpoch)
  | none => .error "input contains invalid characters"

/-- The texts of `Rfc3339`. -/
def Chrono.utc : Chrono where
  toRfc3339 := utcText
  parseFromRfc3339 := utcInstant

theorem utcInstant_utcText {t : Int} (h : FourDigitYear t) : utcInstant (utcText t) = .ok t := by
  rw [utcInstant, utcText, Rfc3339.readInstant_instantText (sinceYearZero_lt h)]
  exact congrArg Except.ok (coe_sinceYearZero h)

theorem utcText_lt {s t : Int} (hs : FourDigitYear s) (ht : FourDigitYear t) (hst : s < t) :
    utcText s < utcText t := by
  rw [utcText, utcText]
  refine Rfc3339.instantText_lt (sinceYearZero_lt ht) ?_
  have hs' := coe_sinceYearZero hs
  have ht' := coe_sinceYearZero ht
  omega

theorem Chrono.utc_readsBack : Chrono.utc.ReadsBack := fun _ ht => utcInstant_utcText ht

theorem Chrono.utc_ordered : Chrono.utc.Ordered := by
  intro s t hs ht
  refine ⟨fun hlt => ?_, utcText_lt hs ht⟩
  by_contra hge
  rcases Int.lt_or_eq_of_le (Int.not_lt.mp hge) with hgt | heq
  · exact List.lt_asymm hlt (utcText_lt ht hs hgt)
  · rw [heq] at hlt
    exact List.lt_irrefl _ hlt

end SimpleClaw
