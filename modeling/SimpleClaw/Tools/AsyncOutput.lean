import SimpleClaw.Lib.Utf8Encode
import SimpleClaw.Tools.AsyncRuns

/-!
# The output of a background process

A process writes what it prints to two logs, and a snapshot of its run shows the end of each: as
many bytes as it has room for.  The end is read as text all at once, so that it is lost altogether
where it begins within a character, or where it is not text.

* `readProcessOutputTail`, `ProcessOutput.ofLogs`: the output a snapshot shows.
* `OutputKept`: what of a log a snapshot should show.
* `TailReadable`, `readProcessOutputTail_keeps_iff`: when it does.
-/

namespace SimpleClaw
namespace Tools

open Utf8 (encode)

/-- The bytes of a log from where it is read: its last ones. -/
def tailBytes (maxBytes : Nat) (log : List UInt8) : List UInt8 :=
  log.drop (if maxBytes < log.length then log.length - maxBytes else 0)

/-- The text at the end of a log; `none` if the log cannot be opened. -/
def readProcessOutputTail (file : Option (List UInt8)) (maxBytes : Nat) : Text :=
  match file with
  | none => []
  | some log =>
      match Utf8.read (tailBytes maxBytes log) with
      | .ok t => t
      -- what is not text is not put into the buffer, and the error is dropped
      | .error _ => []

/-- What a snapshot shows of the two logs. -/
structure ProcessOutput where
  stdout : Text
  stderr : Text

def ProcessOutput.ofLogs (stdout stderr : Option (List UInt8)) : ProcessOutput where
  stdout := readProcessOutputTail stdout 32768
  stderr := readProcessOutputTail stderr 16384

theorem tailBytes_eq_drop (maxBytes : Nat) (log : List UInt8) :
    tailBytes maxBytes log = log.drop (log.length - maxBytes) := by
  rw [tailBytes]
  split
  · rfl
  · rw [Nat.sub_eq_zero_of_le (by omega)]

theorem readProcessOutputTail_of_text {maxBytes : Nat} {log : List UInt8} {t : Text}
    (h : tailBytes maxBytes log = encode t) : readProcessOutputTail (some log) maxBytes = t := by
  rw [readProcessOutputTail, h, Utf8.read_encode]

theorem readProcessOutputTail_of_not_text {maxBytes : Nat} {log : List UInt8}
    (h : ∀ t, tailBytes maxBytes log ≠ encode t) :
    readProcessOutputTail (some log) maxBytes = [] := by
  rw [readProcessOutputTail]
  split
  · next t ht => exact absurd (Utf8.read_eq_ok_iff.mp ht) (h t)
  · rfl

/-! ## What should be shown -/

/-- Of a log that is text: all of it, or its end but for the character within which the end begins.
Of any other log: all the text that is within the end. -/
structure OutputKept (log : List UInt8) (maxBytes : Nat) (output : Text) : Prop where
  whole : ∀ t, log = encode t → t.utf8Len ≤ maxBytes → output = t
  suffix : ∀ t, log = encode t → maxBytes < t.utf8Len →
    output <:+ t ∧ maxBytes - 3 ≤ output.utf8Len
  around : (∀ t, log ≠ encode t) →
    ∀ text, encode text <:+: tailBytes maxBytes log → text <:+: output

/-! ## Logs that are text -/

section Text

variable {t : Text} {maxBytes : Nat}

theorem tailBytes_encode :
    tailBytes maxBytes (encode t) = (encode t).drop (t.utf8Len - maxBytes) := by
  rw [tailBytes_eq_drop, Utf8.length_encode]

/-- An end that begins within a character is lost. -/
theorem readProcessOutputTail_of_straddles (h : t.Straddles (t.utf8Len - maxBytes)) :
    readProcessOutputTail (some (encode t)) maxBytes = [] := by
  refine readProcessOutputTail_of_not_text fun text htext => ?_
  rw [tailBytes_encode] at htext
  exact Utf8.not_read_drop_encode h text (Utf8.read_eq_ok_iff.mpr htext)

/-- Any other end is shown. -/
theorem exists_readProcessOutputTail (h : ¬ t.Straddles (t.utf8Len - maxBytes)) :
    ∃ p, t = p ++ readProcessOutputTail (some (encode t)) maxBytes ∧
      p.utf8Len = t.utf8Len - maxBytes := by
  obtain ⟨p, s, hsplit, hlength, hdrop⟩ := Utf8.exists_drop_encode (Nat.sub_le _ _) h
  rw [readProcessOutputTail_of_text (tailBytes_encode.trans hdrop)]
  exact ⟨p, hsplit, hlength⟩

theorem outputKept_of_not_straddles (h : ¬ t.Straddles (t.utf8Len - maxBytes)) :
    OutputKept (encode t) maxBytes (readProcessOutputTail (some (encode t)) maxBytes) := by
  obtain ⟨p, hsplit, hlength⟩ := exists_readProcessOutputTail h
  generalize readProcessOutputTail (some (encode t)) maxBytes = output at hsplit
  have hsum : t.utf8Len = p.utf8Len + output.utf8Len := by rw [hsplit, Text.utf8Len_append]
  refine ⟨fun t' ht' hle => ?_, fun t' ht' hlt => ?_, fun hnot => absurd rfl (hnot t)⟩
  · obtain rfl := Utf8.encode_injective ht'
    have hp := Text.length_le_utf8Len p
    obtain rfl : p = [] := List.length_eq_zero_iff.mp (by omega)
    exact hsplit.symm
  · obtain rfl := Utf8.encode_injective ht'
    exact ⟨⟨p, hsplit.symm⟩, by omega⟩

theorem outputKept_nil_iff_of_text (h : t.Straddles (t.utf8Len - maxBytes)) :
    OutputKept (encode t) maxBytes [] ↔ maxBytes ≤ 3 := by
  have hpos : 0 < t.utf8Len - maxBytes := by
    refine Nat.pos_of_ne_zero fun hzero => Text.not_straddles_zero t ?_
    rwa [hzero] at h
  constructor
  · intro hkept
    have hlength := (hkept.suffix t rfl (by omega)).2
    rw [Text.utf8Len_nil] at hlength
    omega
  · intro hle
    refine ⟨fun t' ht' hfits => ?_, fun t' ht' hlt => ?_, fun hnot => absurd rfl (hnot t)⟩
    · obtain rfl := Utf8.encode_injective ht'
      omega
    · exact ⟨List.nil_suffix, by omega⟩

end Text

/-! ## Logs that are not -/

theorem outputKept_nil_iff_of_not_text {log : List UInt8} {maxBytes : Nat}
    (h : ∀ t, log ≠ encode t) :
    OutputKept log maxBytes [] ↔ ∀ c, ¬ encode [c] <:+: tailBytes maxBytes log := by
  constructor
  · intro hkept c hc
    have hnil := List.infix_nil.mp (hkept.around h [c] hc)
    cases hnil
  · refine fun hnone => ⟨fun t ht => absurd ht (h t), fun t ht => absurd ht (h t), ?_⟩
    intro _ text htext
    cases text with
    | nil => exact List.nil_infix
    | cons c text =>
        refine absurd (List.IsInfix.trans ?_ htext) (hnone c)
        exact ⟨[], encode text, (Utf8.encode_append [c] text).symm⟩

theorem outputKept_of_tail_text {log : List UInt8} {maxBytes : Nat} {t : Text}
    (h : ∀ t, log ≠ encode t) (htail : tailBytes maxBytes log = encode t) :
    OutputKept log maxBytes t := by
  refine ⟨fun t ht => absurd ht (h t), fun t ht => absurd ht (h t), fun _ text htext => ?_⟩
  rw [htail] at htext
  exact Utf8.infix_of_encode htext

/-! ## When it is shown -/

/-- The end of a log that is text begins between two characters, or is too short to matter; the end
of any other log is text, or there is no text in it. -/
def TailReadable (log : List UInt8) (maxBytes : Nat) : Prop :=
  (∃ t, log = encode t ∧ (maxBytes ≤ 3 ∨ ¬ t.Straddles (t.utf8Len - maxBytes))) ∨
    (∀ t, log ≠ encode t) ∧ ((∃ t, tailBytes maxBytes log = encode t) ∨
      ∀ c, ¬ encode [c] <:+: tailBytes maxBytes log)

/-- **A snapshot shows what it should exactly of the logs whose end can be read.** -/
theorem readProcessOutputTail_keeps_iff (log : List UInt8) (maxBytes : Nat) :
    OutputKept log maxBytes (readProcessOutputTail (some log) maxBytes) ↔
      TailReadable log maxBytes := by
  by_cases htext : ∃ t, log = encode t
  · obtain ⟨t, rfl⟩ := htext
    have hreadable : TailReadable (encode t) maxBytes ↔
        (maxBytes ≤ 3 ∨ ¬ t.Straddles (t.utf8Len - maxBytes)) := by
      constructor
      · rintro (⟨t', ht', hcond⟩ | ⟨hnot, -⟩)
        · obtain rfl := Utf8.encode_injective ht'
          exact hcond
        · exact absurd rfl (hnot t)
      · exact fun hcond => .inl ⟨t, rfl, hcond⟩
    rw [hreadable]
    by_cases hstraddles : t.Straddles (t.utf8Len - maxBytes)
    · rw [readProcessOutputTail_of_straddles hstraddles, outputKept_nil_iff_of_text hstraddles]
      exact ⟨.inl, fun hcond => hcond.resolve_right (not_not_intro hstraddles)⟩
    · exact iff_of_true (outputKept_of_not_straddles hstraddles) (.inr hstraddles)
  · have hnot : ∀ t, log ≠ encode t := fun t ht => htext ⟨t, ht⟩
    have hreadable : TailReadable log maxBytes ↔ ((∃ t, tailBytes maxBytes log = encode t) ∨
        ∀ c, ¬ encode [c] <:+: tailBytes maxBytes log) := by
      rw [TailReadable, or_iff_right (fun ⟨t, ht, _⟩ => hnot t ht), and_iff_right hnot]
    rw [hreadable]
    by_cases htail : ∃ t, tailBytes maxBytes log = encode t
    · obtain ⟨t, ht⟩ := htail
      rw [readProcessOutputTail_of_text ht]
      exact iff_of_true (outputKept_of_tail_text hnot ht) (.inl ⟨t, ht⟩)
    · rw [readProcessOutputTail_of_not_text fun t ht => htail ⟨t, ht⟩,
        outputKept_nil_iff_of_not_text hnot, or_iff_right htail]

/-- A line with an accent first, one byte longer than a snapshot has room for. -/
def accentedLine : Text := 'é' :: List.replicate 32767 'a'

theorem accentedLine_straddles : accentedLine.Straddles (accentedLine.utf8Len - 32768) := by
  have hlength : accentedLine.utf8Len = 32769 := by
    have hreplicate : ∀ n, Text.utf8Len (List.replicate n 'a') = n := fun n => by
      induction n with
      | zero => rfl
      | succ n ih =>
          have hone : 'a'.utf8Size = 1 := by decide
          rw [List.replicate_succ, Text.utf8Len_cons, ih, hone]
          omega
    have htwo : 'é'.utf8Size = 2 := by decide
    rw [accentedLine, Text.utf8Len_cons, hreplicate, htwo]
  rw [hlength]
  exact ⟨[], 'é', _, rfl, by decide, by decide⟩

/-- The whole of it is lost, and so are the letters beside a byte that is no text. -/
theorem readProcessOutputTail_loses :
    ¬ OutputKept (encode accentedLine) 32768
        (ProcessOutput.ofLogs (some (encode accentedLine)) none).stdout ∧
      ¬ OutputKept [0x6F, 0x6B, 0xFF] 32768
        (ProcessOutput.ofLogs (some [0x6F, 0x6B, 0xFF]) none).stdout := by
  constructor
  · rw [ProcessOutput.ofLogs, readProcessOutputTail_of_straddles accentedLine_straddles,
      outputKept_nil_iff_of_text accentedLine_straddles]
    decide
  · have hread : Utf8.read [0x6F, 0x6B, 0xFF] = .error ⟨2, some 1⟩ := by decide
    have hnot : ∀ t, ([0x6F, 0x6B, 0xFF] : List UInt8) ≠ encode t := fun t ht => by
      rw [Utf8.read_eq_ok_iff.mpr ht] at hread
      cases hread
    have htail : tailBytes 32768 [0x6F, 0x6B, 0xFF] = [0x6F, 0x6B, 0xFF] := rfl
    rw [ProcessOutput.ofLogs, readProcessOutputTail_of_not_text (htail ▸ hnot),
      outputKept_nil_iff_of_not_text hnot]
    exact fun hnone => hnone 'o' ⟨[], [0x6B, 0xFF], by decide⟩

end Tools
end SimpleClaw
