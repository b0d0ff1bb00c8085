import SimpleClaw.Telemetry.Redaction

/-!
# What a scan does to a text

A scan is where its byte is at a character, and it has put the text before that character behind
it.  What it does to the text from there on does not depend on what is behind.

* `valueLength`: how much of a text is the value that a needle before it asks for.
* `redactTurn_of_firstEnd`, `redactTurn_of_forall_not`: a turn, by the first end of the needle.
* `Redacts`: what a scan makes of the text in front of it, `none` if it gets stuck within a
  character.
* `Redacts.redactLoop_eq`, `Redacts.redactScan_eq`: the loop does that, and has fuel enough.
-/

namespace SimpleClaw
namespace Telemetry

open Text

/-- The characters of the value that the text begins with. -/
def valueLength (takesBearer : Bool) (text : Text) : Nat :=
  if takesBearer = true ∧ ("bearer " : Text) <+: toAsciiLowercase text then
    7 + ((text.drop 7).takeWhile fun c => !isSecretValueTerminator c).length
  else (text.takeWhile fun c => !isSecretValueTerminator c).length

/-! ## Slices -/

theorem sliceFrom_append (out text : Text) : sliceFrom (utf8Len out) (out ++ text) = some text := by
  rw [sliceFrom, splitBytes_eq_some_iff.mpr ⟨rfl, rfl⟩, Option.map_some]

theorem valueEndFrom_append (out text : Text) : valueEndFrom (out ++ text) (utf8Len out) =
    some (utf8Len (out ++ text.takeWhile fun c => !isSecretValueTerminator c)) := by
  rw [valueEndFrom, sliceFrom_append, Option.map_some, utf8Len_append, utf8Len_append,
    ← findChar_getD]
  cases findChar isSecretValueTerminator text with
  | none => rfl
  | some n => rfl

theorem utf8Len_take_drop_bearer {text : Text} (h : ("bearer " : Text) <+: toAsciiLowercase text) :
    utf8Len (text.take 7) = utf8Len "bearer " := by
  have htake : toAsciiLowercase (text.take 7) = "bearer ".toList := by
    rw [toAsciiLowercase, List.map_take]
    exact (List.prefix_iff_eq_take.mp h).symm
  rw [← utf8Len_toAsciiLowercase, htake]

/-- **The value ends as many characters further.** -/
theorem valueEnd_append (takesBearer : Bool) (out text : Text) :
    valueEndFrom (out ++ text)
      (if takesBearer = true ∧ ("bearer " : Text) <+: toAsciiLowercase text then
        utf8Len out + utf8Len "bearer " else utf8Len out) =
      some (utf8Len (out ++ text.take (valueLength takesBearer text))) := by
  have htake (t : Text) : t.take (t.takeWhile fun c => !isSecretValueTerminator c).length =
      t.takeWhile fun c => !isSecretValueTerminator c :=
    (List.prefix_iff_eq_take.mp (List.takeWhile_prefix _)).symm
  rw [valueLength]
  split
  · next h =>
    have hvalue := valueEndFrom_append (out ++ text.take 7) (text.drop 7)
    rw [List.append_assoc, List.take_append_drop, utf8Len_append,
      utf8Len_take_drop_bearer h.2] at hvalue
    rw [hvalue, List.take_add, htake, List.append_assoc]
  · rw [valueEndFrom_append, htake]

/-! ## A turn -/

variable {needle : Text} {takesBearer : Bool}

theorem toAsciiLowercase_append (s t : Text) :
    toAsciiLowercase (s ++ t) = toAsciiLowercase s ++ toAsciiLowercase t := List.map_append

theorem length_toAsciiLowercase (t : Text) : (toAsciiLowercase t).length = t.length :=
  List.length_map _

theorem toAsciiLowercase_take (t : Text) (n : Nat) :
    toAsciiLowercase (t.take n) = (toAsciiLowercase t).take n := List.map_take

theorem utf8Len_pos {t : Text} (h : t ≠ []) : 0 < utf8Len t :=
  Nat.lt_of_lt_of_le (List.length_pos_iff.mpr h) (length_le_utf8Len t)

/-- The slice that a turn searches. -/
theorem sliceFrom_toAsciiLowercase (out text : Text) :
    sliceFrom (utf8Len out) (toAsciiLowercase (out ++ text)) = some (toAsciiLowercase text) := by
  rw [toAsciiLowercase_append, ← utf8Len_toAsciiLowercase]
  exact sliceFrom_append _ _

/-- **Without a needle the scan stops.** -/
theorem redactTurn_of_forall_not (hneedle : needle ≠ []) {text : Text}
    (h : ∀ n < text.length, ¬ FirstEnd needle (toAsciiLowercase text) n) (out : Text) :
    redactTurn needle takesBearer (out ++ text) (utf8Len out) = some .stop := by
  rw [redactTurn]
  split
  · rfl
  · rw [sliceFrom_toAsciiLowercase, Option.bind_some]
    obtain ⟨hnone, -⟩ | ⟨n, i, hfirst, hsome, hbytes⟩ :=
      findText_cases hneedle (toAsciiLowercase text)
    · rw [hnone]
    · have hn : n = text.length := by
        have hle := hfirst.le
        rw [length_toAsciiLowercase] at hle
        exact Nat.le_antisymm hle (not_lt.mp fun hlt => h n hlt hfirst)
      rw [hn, ← length_toAsciiLowercase, List.take_length, utf8Len_toAsciiLowercase] at hbytes
      rw [hsome]
      exact if_pos (by rw [utf8Len_append]; omega)

/-- **A turn looks at what is behind the first end of the needle.** -/
theorem redactTurn_of_firstEnd (takesBearer : Bool) (hneedle : needle ≠ []) {text : Text}
    {n : Nat} (hn : n < text.length) (h : FirstEnd needle (toAsciiLowercase text) n) (out : Text) :
    redactTurn needle takesBearer (out ++ text) (utf8Len out) =
      some (if valueLength takesBearer (text.drop n) = 0 then
          .skip (utf8Len (out ++ text.take n) + 1)
        else .replace (utf8Len (out ++ text.take n))
          (utf8Len (out ++ text.take (n + valueLength takesBearer (text.drop n))))) := by
  obtain ⟨-, hnone⟩ | ⟨m, i, hfirst, hsome, hbytes⟩ :=
    findText_cases hneedle (toAsciiLowercase text)
  · exact absurd h.ends (hnone n h.le)
  obtain rfl : m = n := by
    obtain hlt | heq | hlt := lt_trichotomy m n
    · exact absurd hfirst.ends (h.first m hlt)
    · exact heq
    · exact absurd h.ends (hfirst.first n hlt)
  have hstart : utf8Len out + i + utf8Len needle = utf8Len (out ++ text.take m) := by
    rw [← toAsciiLowercase_take, utf8Len_toAsciiLowercase] at hbytes
    rw [utf8Len_append]
    omega
  have hsplit : out ++ text = out ++ text.take m ++ text.drop m := by
    rw [List.append_assoc, List.take_append_drop]
  have hrest : text.drop m ≠ [] := fun hnil => by
    rw [List.drop_eq_nil_iff] at hnil
    omega
  have hbehind : utf8Len (out ++ text.take m) < utf8Len (out ++ text) := by
    have hpos := utf8Len_pos hrest
    rw [hsplit, utf8Len_append (out ++ text.take m)]
    omega
  have hfront : utf8Len out ≤ utf8Len (out ++ text.take m) := by
    rw [utf8Len_append]
    exact Nat.le_add_right _ _
  rw [redactTurn, if_neg (by omega), sliceFrom_toAsciiLowercase, Option.bind_some, hsome]
  simp only [hstart]
  rw [if_neg (by omega)]
  conv_lhs => rw [hsplit]
  rw [sliceFrom_append, Option.bind_some, valueEnd_append, Option.map_some, List.append_assoc,
    ← List.take_add]
  congr 1
  by_cases hzero : valueLength takesBearer (text.drop m) = 0
  · rw [if_pos hzero, hzero, Nat.add_zero, if_pos rfl]
  · rw [if_neg hzero, if_neg]
    have hvalue : (text.drop m).take (valueLength takesBearer (text.drop m)) ≠ [] := by
      rw [ne_eq, List.take_eq_nil_iff, not_or]
      exact ⟨hzero, hrest⟩
    have hpos := utf8Len_pos hvalue
    rw [List.take_add, ← List.append_assoc, utf8Len_append (out ++ text.take m)]
    omega

/-! ## A scan -/

section Scans

variable {α : Type*} {char : α → Char} {mark : List α}

/-- What a scan makes of the text in front of it. -/
inductive Redacts (char : α → Char) (mark : List α) (needle : Text) (takesBearer : Bool) :
    List α → Option (List α) → Prop where
  | stop {text : List α}
      (hnone : ∀ n < text.length, ¬ FirstEnd needle (toAsciiLowercase (text.map char)) n) :
      Redacts char mark needle takesBearer text (some text)
  | replace {text : List α} {n : Nat} {result : Option (List α)} (hn : n < text.length)
      (hfirst : FirstEnd needle (toAsciiLowercase (text.map char)) n)
      (hvalue : valueLength takesBearer ((text.drop n).map char) ≠ 0)
      (h : Redacts char mark needle takesBearer
        (text.drop (n + valueLength takesBearer ((text.drop n).map char))) result) :
      Redacts char mark needle takesBearer text (result.map (text.take n ++ mark ++ ·))
  | skip {text rest : List α} {s : α} {n : Nat} {result : Option (List α)}
      (hs : text.drop n = s :: rest)
      (hfirst : FirstEnd needle (toAsciiLowercase (text.map char)) n)
      (hvalue : valueLength takesBearer ((text.drop n).map char) = 0)
      (hnarrow : (char s).utf8Size = 1)
      (h : Redacts char mark needle takesBearer rest result) :
      Redacts char mark needle takesBearer text (result.map (text.take n ++ [s] ++ ·))
  | stuck {text rest : List α} {s : α} {n : Nat} (hs : text.drop n = s :: rest)
      (hfirst : FirstEnd needle (toAsciiLowercase (text.map char)) n)
      (hvalue : valueLength takesBearer ((text.drop n).map char) = 0)
      (hwide : (char s).utf8Size ≠ 1) :
      Redacts char mark needle takesBearer text none

/-- What is between two characters is replaced. -/
theorem replaceRange_append (out text replacement : List α) {n m : Nat} (hle : n ≤ m) :
    replaceRange char (out ++ text) (utf8Len ((out ++ text.take n).map char))
      (utf8Len ((out ++ text.take m).map char)) replacement =
      some (out ++ text.take n ++ replacement ++ text.drop m) := by
  have hsplit (k : Nat) : splitBytes (utf8Len ((out ++ text.take k).map char))
      ((out ++ text).map char) = some ((out ++ text.take k).map char, (text.drop k).map char) := by
    rw [splitBytes_eq_some_iff, ← List.map_append, List.append_assoc, List.take_append_drop]
    exact ⟨rfl, rfl⟩
  have htext (k : Nat) : out ++ text = out ++ text.take k ++ text.drop k := by
    rw [List.append_assoc, List.take_append_drop]
  have hbytes :
      utf8Len ((out ++ text.take n).map char) ≤ utf8Len ((out ++ text.take m).map char) := by
    obtain ⟨k, rfl⟩ := Nat.exists_eq_add_of_le hle
    have hmore : out ++ text.take (n + k) = out ++ text.take n ++ (text.drop n).take k := by
      rw [List.take_add, List.append_assoc]
    conv_rhs => rw [hmore, List.map_append, utf8Len_append]
    exact Nat.le_add_right _ _
  have hbefore (k : Nat) : (out ++ text).take ((out ++ text.take k).map char).length =
      out ++ text.take k := by
    rw [List.length_map, htext k, List.take_left]
  have hafter (k : Nat) : (out ++ text).drop ((out ++ text.take k).map char).length =
      text.drop k := by
    rw [List.length_map, htext k, List.drop_left]
  rw [replaceRange, if_neg (not_lt.mpr hbytes), hsplit n, Option.bind_some, hsplit m,
    Option.map_some, hbefore n, hafter m, List.append_assoc (out ++ text.take n)]

theorem redactLoop_succ (fuel : Nat) (output : List α) (searchFrom : Nat) :
    redactLoop char mark needle takesBearer (fuel + 1) output searchFrom =
      match redactTurn needle takesBearer (output.map char) searchFrom with
      | none => .panicked
      | some .stop => .returned output
      | some (.skip searchFrom) => redactLoop char mark needle takesBearer fuel output searchFrom
      | some (.replace valueStart valueEnd) =>
          match replaceRange char output valueStart valueEnd mark with
          | none => .panicked
          | some output => redactLoop char mark needle takesBearer fuel output
              (valueStart + utf8Len (mark.map char)) := rfl

/-- A scan that is within a character panics. -/
theorem redactLoop_of_straddles {output : List α} {searchFrom : Nat}
    (h : Straddles searchFrom (output.map char)) (fuel : Nat) :
    redactLoop char mark needle takesBearer (fuel + 1) output searchFrom = .panicked := by
  have hlower : Straddles searchFrom (toAsciiLowercase (output.map char)) := by
    obtain ⟨p, c, s, heq, hlt, hgt⟩ := h
    refine ⟨toAsciiLowercase p, c.toLower, toAsciiLowercase s, ?_, ?_, ?_⟩
    · rw [heq, toAsciiLowercase_append]
      rfl
    · rwa [utf8Len_toAsciiLowercase]
    · rwa [utf8Len_toAsciiLowercase, utf8Size_toLower]
  have hslice : sliceFrom searchFrom (toAsciiLowercase (output.map char)) = none := by
    rw [sliceFrom, (splitBytes_eq_none_iff hlower.lt.le).mpr hlower]
    rfl
  rw [redactLoop_succ, redactTurn, if_neg (not_le.mpr h.lt), hslice]
  rfl

theorem lt_length_of_drop_eq_cons {text rest : List α} {s : α} {n : Nat}
    (hs : text.drop n = s :: rest) : n < text.length := by
  by_contra hge
  rw [List.drop_eq_nil_of_le (not_lt.mp hge)] at hs
  cases hs

/-- A turn with an empty value goes on behind the byte after the needle. -/
theorem redactTurn_of_empty (hneedle : needle ≠ []) {text rest : List α} {s : α} {n : Nat}
    (hs : text.drop n = s :: rest) (hfirst : FirstEnd needle (toAsciiLowercase (text.map char)) n)
    (hvalue : valueLength takesBearer ((text.drop n).map char) = 0) (out : List α) :
    redactTurn needle takesBearer ((out ++ text).map char) (utf8Len (out.map char)) =
      some (.skip (utf8Len ((out ++ text.take n).map char) + 1)) := by
  have hturn := redactTurn_of_firstEnd takesBearer hneedle
    (by rw [List.length_map]; exact lt_length_of_drop_eq_cons hs) hfirst (out.map char)
  rwa [← List.map_drop, if_pos hvalue, ← List.map_take, ← List.map_append,
    ← List.map_append] at hturn

/-- **The loop makes of the text in front of it what it has to, with fuel for each character.** -/
theorem Redacts.redactLoop_eq (hneedle : needle ≠ []) {text : List α} {result : Option (List α)}
    (h : Redacts char mark needle takesBearer text result) (out : List α) {fuel : Nat}
    (hfuel : text.length < fuel) :
    redactLoop char mark needle takesBearer fuel (out ++ text) (utf8Len (out.map char)) =
      .ofOption (result.map (out ++ ·)) := by
  induction h generalizing out fuel with
  | stop hnone =>
      obtain ⟨fuel, rfl⟩ := Nat.exists_eq_succ_of_ne_zero (Nat.ne_zero_of_lt hfuel)
      rw [redactLoop_succ, List.map_append,
        redactTurn_of_forall_not hneedle (by rwa [List.length_map])]
      rfl
  | @replace text n result hn hfirst hvalue h ih =>
      obtain ⟨fuel, rfl⟩ := Nat.exists_eq_succ_of_ne_zero (Nat.ne_zero_of_lt hfuel)
      have hturn := redactTurn_of_firstEnd takesBearer hneedle
        (by rwa [List.length_map]) hfirst (out.map char)
      rw [← List.map_drop, if_neg hvalue, ← List.map_take, ← List.map_take, ← List.map_append,
        ← List.map_append, ← List.map_append] at hturn
      have hlength : (text.drop (n + valueLength takesBearer ((text.drop n).map char))).length
          < fuel := by
        rw [List.length_drop]
        omega
      have hloop := ih (out ++ text.take n ++ mark) hlength
      rw [List.map_append, utf8Len_append] at hloop
      rw [redactLoop_succ, hturn]
      simp only [replaceRange_append out text mark (Nat.le_add_right n _)]
      rw [hloop]
      cases result with
      | none => rfl
      | some result => simp
  | @skip text rest s n result hs hfirst hvalue hnarrow h ih =>
      obtain ⟨fuel, rfl⟩ := Nat.exists_eq_succ_of_ne_zero (Nat.ne_zero_of_lt hfuel)
      have htext : text = text.take n ++ s :: rest := by rw [← hs, List.take_append_drop]
      have hlength : rest.length < fuel := by
        have := congrArg List.length htext
        rw [List.length_append, List.length_cons] at this
        omega
      have hloop := ih (out ++ text.take n ++ [s]) hlength
      rw [List.append_assoc _ [s], List.singleton_append, List.append_assoc, ← htext,
        List.map_append, utf8Len_append, List.map_singleton, utf8Len_cons, hnarrow,
        utf8Len_nil] at hloop
      rw [redactLoop_succ, redactTurn_of_empty hneedle hs hfirst hvalue out]
      simp only
      rw [hloop]
      cases result with
      | none => rfl
      | some result => simp
  | @stuck text rest s n hs hfirst hvalue hwide =>
      obtain ⟨fuel, rfl⟩ := Nat.exists_eq_succ_of_ne_zero (Nat.ne_zero_of_lt hfuel)
      have hn := lt_length_of_drop_eq_cons hs
      obtain ⟨fuel, rfl⟩ := Nat.exists_eq_succ_of_ne_zero (n := fuel) (by omega)
      rw [redactLoop_succ, redactTurn_of_empty hneedle hs hfirst hvalue out]
      simp only
      rw [redactLoop_of_straddles]
      · rfl
      · have hpos := (char s).utf8Size_pos
        refine ⟨(out ++ text.take n).map char, char s, rest.map char, ?_, by omega, by omega⟩
        conv_lhs => rw [← List.take_append_drop n text, hs, ← List.append_assoc, List.map_append]
        rfl

/-- **A scan makes of a text what it has to.** -/
theorem Redacts.redactScan_eq (hneedle : needle ≠ []) {text : List α} {result : Option (List α)}
    (h : Redacts char mark needle takesBearer text result) :
    redactScan char mark needle takesBearer text = .ofOption result := by
  have hloop := h.redactLoop_eq hneedle [] (Nat.lt_succ_self _)
  rw [List.nil_append] at hloop
  rw [redactScan]
  refine hloop.trans ?_
  cases result <;> rfl

end Scans

end Telemetry
end SimpleClaw
