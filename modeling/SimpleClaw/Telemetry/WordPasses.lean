import SimpleClaw.Lib.Words
import SimpleClaw.Telemetry.Cuts

/-!
# The scans, word by word

A scan sees a text as words and the terminators between them.  The scan for a key cuts each word
behind the first needle in it, and where `authorization` is followed by the word `bearer` and a
blank, the next word goes with it.  The scan for bearer tokens replaces whole words.

* `valueLength_append`, `valueLength_bearer`: the value that begins a text of words.
* `keyPass`, `redacts_keyPass`: the scan for a key on the words of a text.
* `bearerPass`, `redacts_bearerPass`: the scan for bearer tokens.
* `redactScan_join_keyPass`, `redactScan_join_bearerPass`: the scans of the source.
-/

namespace SimpleClaw
namespace Telemetry

open Text

/-! ## The value at the beginning of a text -/

/-- A text that is empty or begins with a terminator. -/
def BehindWord (text : Text) : Prop := ∀ c, text.head? = some c → isSecretValueTerminator c = true

theorem takeWhile_append {word rest : Text} (hword : IsWord word) (hrest : BehindWord rest) :
    (word ++ rest).takeWhile (fun c => !isSecretValueTerminator c) = word := by
  rw [List.takeWhile_append_of_pos fun c hc => by rw [hword c hc]; rfl]
  cases rest with
  | nil => rw [List.takeWhile_nil, List.append_nil]
  | cons s rest =>
      rw [List.takeWhile_cons_of_neg (by rw [hrest s rfl]; exact Bool.false_ne_true),
        List.append_nil]

theorem BehindWord.toAsciiLowercase {text : Text} (h : BehindWord text) :
    BehindWord (toAsciiLowercase text) := by
  intro c hc
  cases text with
  | nil => cases hc
  | cons d text =>
      obtain rfl := Option.some.inj hc
      rw [isSecretValueTerminator_toLower]
      exact h d rfl

/-- **A text begins with `bearer` and a blank if its first word is `bearer`.** -/
theorem bearer_prefix_iff {word rest : Text} (hword : IsWord word) (hrest : BehindWord rest) :
    ("bearer " : Text) <+: toAsciiLowercase (word ++ rest) ↔
      toAsciiLowercase word = "bearer".toList ∧ rest.head? = some ' ' := by
  have hbearer : ("bearer " : Text) = "bearer".toList ++ [' '] := rfl
  rw [toAsciiLowercase_append, hbearer]
  constructor
  · rintro ⟨more, hmore⟩
    rw [List.append_assoc] at hmore
    have hwords := congrArg (List.takeWhile fun c => !isSecretValueTerminator c) hmore
    rw [takeWhile_append (by decide) (by rintro c ⟨⟩; decide),
      takeWhile_append (isWord_toAsciiLowercase.mpr hword) hrest.toAsciiLowercase] at hwords
    rw [hwords, List.append_cancel_left_eq] at hmore
    refine ⟨hwords.symm, ?_⟩
    cases rest with
    | nil => cases hmore
    | cons s rest =>
        have hs : s.toLower = ' ' := (List.cons.inj hmore).1.symm
        rw [LikePattern.toLower_eq_iff (by decide)] at hs
        rw [hs]
        rfl
  · rintro ⟨hlower, hblank⟩
    cases rest with
    | nil => cases hblank
    | cons s rest =>
        obtain rfl := Option.some.inj hblank
        rw [hlower]
        exact ⟨toAsciiLowercase rest, by simp [toAsciiLowercase]⟩

/-- The value is the first word of the text. -/
theorem valueLength_append {takesBearer : Bool} {word rest : Text} (hword : IsWord word)
    (hrest : BehindWord rest) (h : takesBearer = true → toAsciiLowercase word = "bearer".toList →
      rest.head? ≠ some ' ') : valueLength takesBearer (word ++ rest) = word.length := by
  rw [valueLength, if_neg, takeWhile_append hword hrest]
  rintro ⟨htakes, hprefix⟩
  obtain ⟨hlower, hblank⟩ := (bearer_prefix_iff hword hrest).mp hprefix
  exact h htakes hlower hblank

/-- The value is the word `bearer` with the token behind it. -/
theorem valueLength_bearer {word token rest : Text} (hword : IsWord word)
    (hlower : toAsciiLowercase word = "bearer".toList) (htoken : IsWord token)
    (hrest : BehindWord rest) :
    valueLength true (word ++ ' ' :: (token ++ rest)) = word.length + (token.length + 1) := by
  have hlength : word.length = 6 := by rw [← length_toAsciiLowercase, hlower]; rfl
  have hdrop : (word ++ ' ' :: (token ++ rest)).drop 7 = token ++ rest := by
    rw [List.drop_append, hlength, List.drop_eq_nil_of_le (by omega)]
    rfl
  have hblank : BehindWord (' ' :: (token ++ rest)) := by rintro c ⟨⟩; decide
  have hprefix := (bearer_prefix_iff hword hblank).mpr ⟨hlower, rfl⟩
  rw [valueLength, if_pos ⟨rfl, hprefix⟩, hdrop, takeWhile_append htoken hrest]
  omega

/-! ## Words -/

section Words

variable {α : Type*} (char : α → Char) (mark : List α)

def isEnd (a : α) : Bool := isSecretValueTerminator (char a)

/-- The characters of the word. -/
def textOf (p : Chunk α) : Text := p.word.map char

/-- The word is behind a blank. -/
def spaced (p : Chunk α) : Bool := decide (p.lead.map char = some ' ')

/-- The word is behind a terminator of one byte. -/
def isNarrow (p : Chunk α) : Bool := p.lead.all fun s => decide ((char s).utf8Size = 1)

def cutPiece (needles : List Text) (p : Chunk α) : Chunk α :=
  { p with word := cutWord char mark needles p.word }

/-- The scan for a key, `none` if it gets stuck. -/
def keyPass (pass : Pass) : Bool → List (Chunk α) → Option (List (Chunk α))
  | _, [] => some []
  | armed, p :: ps =>
      if armed && spaced char p then keyPass pass false ps
      else if Blocks [] pass.needle (textOf char p) ∧ ps.head?.all (isNarrow char) = false then none
      else (keyPass pass (joins [] pass (textOf char p)) ps).map
        (cutPiece char mark [pass.needle] p :: ·)

/-- The scan for bearer tokens, `none` if it gets stuck. -/
def bearerPass : Bool → List (Chunk α) → Option (List (Chunk α))
  | _, [] => some []
  | armed, p :: ps =>
      if armed && spaced char p then
        if p.word = [] then
          if ps.head?.all (isNarrow char) = true then (bearerPass false ps).map (p :: ·) else none
        else (bearerPass false ps).map ({ p with word := mark } :: ·)
      else (bearerPass (bears [] (textOf char p)) ps).map (p :: ·)

variable {char mark}

theorem textOf_cutPiece (needles : List Text) (p : Chunk α) :
    textOf char (cutPiece char mark needles p) = (cutWord char mark needles p.word).map char := rfl

/-- The text of words behind terminators is behind a word. -/
theorem behindWord_join {ps : List (Chunk α)} (hps : ∀ p ∈ ps, p.Follows (isEnd char)) :
    BehindWord ((Chunk.join ps).map char) := by
  intro c hc
  cases ps with
  | nil => cases hc
  | cons p ps =>
      obtain ⟨s, hlead, hs⟩ := (hps p List.mem_cons_self).lead
      rw [Chunk.join_cons, Chunk.chars, hlead] at hc
      obtain rfl := Option.some.inj hc
      exact hs

theorem isWord_textOf {p : Chunk α} (h : p.Follows (isEnd char)) : IsWord (textOf char p) := by
  intro c hc
  obtain ⟨a, ha, rfl⟩ := List.mem_map.mp hc
  exact h.word a ha

/-! ## Scans that begin further on -/

/-- **A scan passes over what no needle ends in.** -/
theorem Redacts.append {needle : Text} {takesBearer : Bool} {u text : List α}
    {result : Option (List α)}
    (hclear : ∀ n, needle <:+ (toAsciiLowercase ((u ++ text).map char)).take n →
      ∃ m, n = u.length + m ∧ needle <:+ (toAsciiLowercase (text.map char)).take m)
    (h : Redacts char mark needle takesBearer text result) :
    Redacts char mark needle takesBearer (u ++ text) (result.map (u ++ ·)) := by
  have hlower : toAsciiLowercase ((u ++ text).map char) =
      toAsciiLowercase (u.map char) ++ toAsciiLowercase (text.map char) := by
    rw [List.map_append, toAsciiLowercase_append]
  have hlength : (toAsciiLowercase (u.map char)).length = u.length := by
    rw [length_toAsciiLowercase, List.length_map]
  have hends {m : Nat} (hm : needle <:+ (toAsciiLowercase (text.map char)).take m) :
      needle <:+ (toAsciiLowercase ((u ++ text).map char)).take (u.length + m) := by
    rw [hlower, ← hlength, List.take_length_add_append]
    exact hm.trans (List.suffix_append _ _)
  have hfirst {n : Nat} (h : FirstEnd needle (toAsciiLowercase (text.map char)) n) :
      FirstEnd needle (toAsciiLowercase ((u ++ text).map char)) (u.length + n) := by
    refine ⟨?_, hends h.ends, fun m hm hmends => ?_⟩
    · have hle := h.le
      rw [hlower, List.length_append, hlength]
      omega
    · obtain ⟨k, rfl, hk⟩ := hclear m hmends
      exact h.first k (by omega) hk
  have hdrop (n : Nat) : (u ++ text).drop (u.length + n) = text.drop n :=
    List.drop_length_add_append n
  have htake (n : Nat) : (u ++ text).take (u.length + n) = u ++ text.take n :=
    List.take_length_add_append n
  cases h with
  | stop hnone =>
      refine .stop fun n hn hfirstEnd => ?_
      obtain ⟨m, rfl, hm⟩ := hclear n hfirstEnd.ends
      rw [List.length_append] at hn
      refine hnone m (by omega) ⟨by rw [length_toAsciiLowercase, List.length_map]; omega, hm, ?_⟩
      intro k hk hkends
      exact hfirstEnd.first (u.length + k) (by omega) (hends hkends)
  | @replace _ n result hn hfirstEnd hvalue h =>
      have hscan : Redacts char mark needle takesBearer (u ++ text)
          (result.map ((u ++ text).take (u.length + n) ++ mark ++ ·)) :=
        .replace (by rw [List.length_append]; omega) (hfirst hfirstEnd) (by rwa [hdrop])
          (by rw [hdrop, Nat.add_assoc, hdrop]; exact h)
      rw [htake] at hscan
      cases result with
      | none => exact hscan
      | some result => simpa using hscan
  | @skip _ rest s n result hs hfirstEnd hvalue hnarrow h =>
      have hscan : Redacts char mark needle takesBearer (u ++ text)
          (result.map ((u ++ text).take (u.length + n) ++ [s] ++ ·)) :=
        .skip (by rw [hdrop]; exact hs) (hfirst hfirstEnd) (by rwa [hdrop]) hnarrow h
      rw [htake] at hscan
      cases result with
      | none => exact hscan
      | some result => simpa using hscan
  | stuck hs hfirstEnd hvalue hwide =>
      exact .stuck (by rw [hdrop]; exact hs) (hfirst hfirstEnd) (by rwa [hdrop]) hwide

/-! ## The scan for a key -/

theorem toAsciiLowercase_map_append (u v : List α) : toAsciiLowercase ((u ++ v).map char) =
    toAsciiLowercase (u.map char) ++ toAsciiLowercase (v.map char) := by
  rw [List.map_append, toAsciiLowercase_append]

theorem length_toAsciiLowercase_map (char : α → Char) (u : List α) :
    (toAsciiLowercase (u.map char)).length = u.length := by
  rw [length_toAsciiLowercase, List.length_map]

/-- The first end of the needle in the word is its first end in the text. -/
theorem firstEnd_of_word {needle : Text} {w : List α} {n : Nat} (rest : List α) (hn : n ≤ w.length)
    (hends : EndsIn [needle] ((w.map char).take n))
    (hfirst : ∀ m < n, ¬ EndsIn [needle] ((w.map char).take m)) :
    FirstEnd needle (toAsciiLowercase ((w ++ rest).map char)) n := by
  have htake {m : Nat} (hm : m ≤ n) : (toAsciiLowercase ((w ++ rest).map char)).take m =
      toAsciiLowercase ((w.map char).take m) := by
    rw [toAsciiLowercase_map_append, List.take_append_of_le_length
      (by rw [length_toAsciiLowercase_map]; omega), toAsciiLowercase_take]
  refine ⟨?_, ?_, fun m hm hmends => ?_⟩
  · rw [length_toAsciiLowercase_map, List.length_append]
    omega
  · rw [htake (Nat.le_refl n)]
    exact endsIn_singleton.mp hends
  · rw [htake hm.le] at hmends
    exact hfirst m hm (endsIn_singleton.mpr hmends)

variable {pass : Pass}

/-- A needle does not end with the terminator. -/
theorem clear_of_lead (hneedle : IsNeedle pass.needle) {s : α} (hs : isEnd char s = true)
    (text : List α) (n : Nat) (h : pass.needle <:+
      (toAsciiLowercase (([s] ++ text).map char)).take n) :
    ∃ m, n = [s].length + m ∧ pass.needle <:+ (toAsciiLowercase (text.map char)).take m := by
  cases n with
  | zero => exact absurd (List.suffix_nil.mp h) hneedle.ne_nil
  | succ m =>
      refine ⟨m, Nat.add_comm m 1, suffix_of_suffix_append_cons (s := []) (c := (char s).toLower)
        (hneedle.word.notMem ?_) h⟩
      rw [isSecretValueTerminator_toLower]
      exact hs

/-- Where no needle ends in the word, none ends before the text behind it. -/
theorem clear_of_word (hneedle : IsNeedle pass.needle) {w rest : List α}
    (hnone : ∀ n ≤ w.length, ¬ EndsIn [pass.needle] ((w.map char).take n))
    (hrest : BehindWord (rest.map char)) (n : Nat)
    (h : pass.needle <:+ (toAsciiLowercase ((w ++ rest).map char)).take n) :
    ∃ m, n = w.length + m ∧ pass.needle <:+ (toAsciiLowercase (rest.map char)).take m := by
  have hshort {m : Nat} (hm : m ≤ w.length) :
      ¬ pass.needle <:+ (toAsciiLowercase ((w ++ rest).map char)).take m := by
    rw [toAsciiLowercase_map_append, List.take_append_of_le_length
      (by rw [length_toAsciiLowercase_map]; exact hm), ← toAsciiLowercase_take]
    exact fun hends => hnone m hm (endsIn_singleton.mpr hends)
  by_cases hn : n ≤ w.length
  · exact absurd h (hshort hn)
  obtain ⟨m, rfl⟩ := Nat.exists_eq_add_of_le (Nat.le_of_not_le hn)
  refine ⟨m, rfl, ?_⟩
  have hword := hshort (Nat.le_refl w.length)
  rw [toAsciiLowercase_map_append, ← length_toAsciiLowercase_map char w,
    List.take_left] at hword
  rw [toAsciiLowercase_map_append, ← length_toAsciiLowercase_map char w,
    List.take_length_add_append] at h
  cases rest with
  | nil =>
      rw [List.map_nil, show toAsciiLowercase [] = [] from rfl, List.take_nil, List.append_nil] at h
      exact absurd h hword
  | cons s rest =>
      cases m with
      | zero => omega
      | succ m =>
          refine List.IsSuffix.trans (suffix_of_suffix_append_cons (c := (char s).toLower)
            (hneedle.word.notMem ?_) h) (List.suffix_cons _ _)
          rw [isSecretValueTerminator_toLower]
          exact hrest _ rfl

theorem map_join_cons (p : Chunk α) (result : Option (List (Chunk α))) :
    (result.map (p :: ·)).map Chunk.join = (result.map Chunk.join).map (p.chars ++ ·) := by
  cases result <;> rfl

theorem join_cons_of_lead {q : Chunk α} {s : α} (hlead : q.lead = some s) (qs : List (Chunk α)) :
    Chunk.join (q :: qs) = s :: (q.word ++ Chunk.join qs) := by
  rw [Chunk.join_cons, Chunk.chars, hlead]
  rfl

/-- A word that a token may be is behind a blank. -/
theorem exists_blank_of_spaced {q : Chunk α} (h : spaced char q = true) :
    ∃ s, q.lead = some s ∧ char s = ' ' :=
  Option.map_eq_some_iff.mp (of_decide_eq_true h)

/-- Where the words begin with a blank, the first of them may be a token. -/
theorem exists_spaced_of_head? {ps : List (Chunk α)} (hps : ∀ p ∈ ps, p.Follows (isEnd char))
    (h : ((Chunk.join ps).map char).head? = some ' ') :
    ∃ q qs, ps = q :: qs ∧ spaced char q = true := by
  cases ps with
  | nil => cases h
  | cons q qs =>
      obtain ⟨s, hlead, -⟩ := (hps q List.mem_cons_self).lead
      rw [join_cons_of_lead hlead] at h
      refine ⟨q, qs, rfl, decide_eq_true ?_⟩
      rw [hlead]
      exact h

theorem head?_all_isNarrow {q : Chunk α} {s : α} (hlead : q.lead = some s) (qs : List (Chunk α)) :
    (q :: qs).head?.all (isNarrow char) = decide ((char s).utf8Size = 1) := by
  rw [List.head?_cons, Option.all_some, isNarrow, hlead]
  rfl

theorem keyPass_of_stuck {p : Chunk α} {ps : List (Chunk α)}
    (hblocks : Blocks [] pass.needle (textOf char p))
    (hwide : ps.head?.all (isNarrow char) = false) :
    keyPass char mark pass false (p :: ps) = none := by
  rw [keyPass, Bool.false_and, if_neg Bool.false_ne_true, if_pos ⟨hblocks, hwide⟩]

theorem keyPass_of_not_stuck {p : Chunk α} {ps : List (Chunk α)}
    (h : Blocks [] pass.needle (textOf char p) → ps.head?.all (isNarrow char) = true) :
    keyPass char mark pass false (p :: ps) =
      (keyPass char mark pass (joins [] pass (textOf char p)) ps).map
        (cutPiece char mark [pass.needle] p :: ·) := by
  rw [keyPass, Bool.false_and, if_neg Bool.false_ne_true, if_neg]
  rintro ⟨hblocks, hwide⟩
  rw [h hblocks] at hwide
  cases hwide

/-- What stands before the first word makes no difference to the scan. -/
theorem map_join_keyPass_cons (char : α → Char) (mark : List α) (pass : Pass) (lead : Option α)
    (w : List α) (ps : List (Chunk α)) :
    (keyPass char mark pass false (⟨lead, w⟩ :: ps)).map Chunk.join =
      ((keyPass char mark pass false (⟨none, w⟩ :: ps)).map Chunk.join).map
        (lead.toList ++ ·) := by
  by_cases h : Blocks [] pass.needle (w.map char) ∧ ps.head?.all (isNarrow char) = false
  · rw [keyPass_of_stuck h.1 h.2, keyPass_of_stuck h.1 h.2]
    rfl
  · have hnot : Blocks [] pass.needle (w.map char) → ps.head?.all (isNarrow char) = true :=
      fun hblocks => Bool.not_eq_false _ ▸ fun hwide => h ⟨hblocks, hwide⟩
    have hchars : (cutPiece char mark [pass.needle] ⟨lead, w⟩).chars =
        lead.toList ++ (cutPiece char mark [pass.needle] ⟨none, w⟩).chars := rfl
    rw [keyPass_of_not_stuck hnot, keyPass_of_not_stuck hnot, map_join_cons, map_join_cons, hchars]
    simp only [textOf]
    cases keyPass char mark pass (joins [] pass (w.map char)) ps with
    | none => rfl
    | some result => simp

/-- The words are walked on unless the next one is taken. -/
theorem keyPass_of_not_spaced {armed : Bool} {ps : List (Chunk α)}
    (h : armed = true → ∀ q qs, ps = q :: qs → spaced char q = false) :
    keyPass char mark pass armed ps = keyPass char mark pass false ps := by
  cases ps with
  | nil => rfl
  | cons p ps =>
      cases armed with
      | false => rfl
      | true => rw [keyPass, keyPass, h rfl p ps rfl, Bool.and_false, Bool.and_false]

theorem joins_eq_false_of_none {text : Text} (h : cutLength [pass.needle] text = none) :
    joins [] pass text = false := by
  rw [joins, h, Option.any_none, Bool.and_false]

/-- A word that is cut blocks nothing itself. -/
theorem not_blocks_of_some {text : Text} {n : Nat} (h : cutLength [pass.needle] text = some n) :
    ¬ Blocks [] pass.needle text := by
  intro hblocks
  have hnone := hblocks.2
  rw [List.nil_append, h] at hnone
  cases hnone

/-- The scan cuts the first word, and the token behind it if there is one. -/
theorem redacts_keyPass_of_some {w : List α} (hw : IsWord (w.map char)) {ps : List (Chunk α)}
    (hps : ∀ p ∈ ps, p.Follows (isEnd char)) {n : Nat}
    (hcut : cutLength [pass.needle] (w.map char) = some n)
    (hjoin : Redacts char mark pass.needle pass.takesBearer (Chunk.join ps)
      ((keyPass char mark pass false ps).map Chunk.join))
    (htail : ∀ q qs, ps = q :: qs → Redacts char mark pass.needle pass.takesBearer (Chunk.join qs)
      ((keyPass char mark pass false qs).map Chunk.join)) :
    Redacts char mark pass.needle pass.takesBearer (w ++ Chunk.join ps)
      ((keyPass char mark pass false (⟨none, w⟩ :: ps)).map Chunk.join) := by
  obtain ⟨hlt, hends, hfirst⟩ := cutLength_eq_some_iff.mp hcut
  rw [List.length_map] at hlt
  have hfirstEnd := firstEnd_of_word (Chunk.join ps) hlt.le hends hfirst
  have htake : (w ++ Chunk.join ps).take n = w.take n := List.take_append_of_le_length hlt.le
  have hdrop : (w ++ Chunk.join ps).drop n = w.drop n ++ Chunk.join ps :=
    List.drop_append_of_le_length hlt.le
  have hrestWord : IsWord ((w.drop n).map char) := by
    rw [List.map_drop]
    exact hw.drop n
  have hchars : (cutPiece char mark [pass.needle] ⟨none, w⟩).chars =
      (w ++ Chunk.join ps).take n ++ mark := by
    rw [htake, Chunk.chars, cutPiece, cutWord_of_some hcut]
    rfl
  have hnot := not_blocks_of_some hcut
  rw [keyPass_of_not_stuck fun h => absurd h hnot, map_join_cons, hchars,
    show textOf char ⟨none, w⟩ = w.map char from rfl]
  have hlength : (w ++ Chunk.join ps).length = w.length + (Chunk.join ps).length :=
    List.length_append
  by_cases htaken :
      joins [] pass (w.map char) = true ∧ ∃ q qs, ps = q :: qs ∧ spaced char q = true
  · obtain ⟨hjoins, q, qs, rfl, hspaced⟩ := htaken
    have hfollows := hps q List.mem_cons_self
    obtain ⟨s, hlead, hs⟩ := exists_blank_of_spaced hspaced
    obtain ⟨htakes, -, m, hm, hlower⟩ := joins_iff.mp hjoins
    obtain rfl := Option.some.inj (hcut.symm.trans hm)
    rw [← List.map_drop] at hlower
    have hrest := join_cons_of_lead hlead qs
    have hvalue : valueLength pass.takesBearer (((w ++ Chunk.join (q :: qs)).drop n).map char) =
        (w.drop n).length + (q.word.length + 1) := by
      rw [hdrop, hrest, List.map_append, List.map_cons, hs, List.map_append, htakes]
      have hbearer := valueLength_bearer hrestWord hlower (isWord_textOf hfollows)
        (behindWord_join fun p hp => hps p (List.mem_cons_of_mem q hp))
      rwa [List.length_map, textOf, List.length_map] at hbearer
    have hpass : keyPass char mark pass true (q :: qs) = keyPass char mark pass false qs := by
      rw [keyPass, hspaced, Bool.and_self, if_pos rfl]
    have hbehind : (w ++ Chunk.join (q :: qs)).drop
        (n + ((w.drop n).length + (q.word.length + 1))) = Chunk.join qs := by
      rw [← List.drop_drop, hdrop, hrest, List.drop_length_add_append, List.drop_succ_cons,
        List.drop_left]
    rw [hjoins, hpass]
    refine .replace (by omega) hfirstEnd (by rw [hvalue]; omega) ?_
    rw [hvalue, hbehind]
    exact htail q qs rfl
  · have hvalue : valueLength pass.takesBearer (((w ++ Chunk.join ps).drop n).map char) =
        (w.drop n).length := by
      rw [hdrop, List.map_append, valueLength_append hrestWord (behindWord_join hps),
        List.length_map]
      intro htakes hlower hblank
      refine htaken ⟨joins_iff.mpr ⟨htakes, cutLength_nil _, n, hcut, ?_⟩,
        exists_spaced_of_head? hps hblank⟩
      rwa [← List.map_drop]
    have hpass : keyPass char mark pass (joins [] pass (w.map char)) ps =
        keyPass char mark pass false ps := by
      refine keyPass_of_not_spaced fun hjoins q qs hq => Bool.eq_false_iff.mpr fun hspaced => ?_
      exact htaken ⟨hjoins, q, qs, hq, hspaced⟩
    rw [hpass]
    refine .replace (by omega) hfirstEnd (by rw [hvalue, List.length_drop]; omega) ?_
    rw [hvalue, ← List.drop_drop, hdrop, List.drop_left]
    exact hjoin

/-- The scan passes over the first word, unless the needle is the end of it. -/
theorem redacts_keyPass_of_none (hneedle : IsNeedle pass.needle) {w : List α} {ps : List (Chunk α)}
    (hps : ∀ p ∈ ps, p.Follows (isEnd char))
    (hcut : cutLength [pass.needle] (w.map char) = none)
    (hjoin : Redacts char mark pass.needle pass.takesBearer (Chunk.join ps)
      ((keyPass char mark pass false ps).map Chunk.join))
    (hnext : ∀ q qs, ps = q :: qs → Redacts char mark pass.needle pass.takesBearer
      (q.word ++ Chunk.join qs)
      ((keyPass char mark pass false (⟨none, q.word⟩ :: qs)).map Chunk.join)) :
    Redacts char mark pass.needle pass.takesBearer (w ++ Chunk.join ps)
      ((keyPass char mark pass false (⟨none, w⟩ :: ps)).map Chunk.join) := by
  have hnone := cutLength_eq_none_iff.mp hcut
  rw [List.length_map] at hnone
  have hchars : (cutPiece char mark [pass.needle] ⟨none, w⟩).chars = w := by
    rw [Chunk.chars, cutPiece, cutWord_of_none hcut]
    rfl
  have hjoins := joins_eq_false_of_none hcut
  by_cases hends : EndsIn [pass.needle] (w.map char)
  · have hfirstEnd : FirstEnd pass.needle
        (toAsciiLowercase ((w ++ Chunk.join ps).map char)) w.length := by
      refine firstEnd_of_word (Chunk.join ps) (Nat.le_refl _) ?_ hnone
      rw [← List.length_map (f := char), List.take_length]
      exact hends
    cases ps with
    | nil =>
        rw [keyPass_of_not_stuck fun _ => rfl, map_join_cons, hchars, keyPass, Option.map_some,
          Option.map_some]
        refine .stop fun n hn hfirst => hnone n (by simpa using hn) ?_
        rw [endsIn_singleton, toAsciiLowercase_take]
        simpa using hfirst.ends
    | cons q qs =>
        obtain ⟨s, hlead, hs⟩ := (hps q List.mem_cons_self).lead
        have hdrop :
            (w ++ Chunk.join (q :: qs)).drop w.length = s :: (q.word ++ Chunk.join qs) := by
          rw [List.drop_left, join_cons_of_lead hlead]
        have hvalue : valueLength pass.takesBearer
            (((w ++ Chunk.join (q :: qs)).drop w.length).map char) = 0 := by
          have hempty : IsWord [] := by simp [IsWord]
          rw [List.drop_left]
          exact valueLength_append hempty (behindWord_join hps) fun _ hnil => by cases hnil
        by_cases hnarrow : (char s).utf8Size = 1
        · have hq : (q :: qs).head?.all (isNarrow char) = true := by
            rw [head?_all_isNarrow hlead, decide_eq_true hnarrow]
          have hscan := Redacts.skip hdrop hfirstEnd hvalue hnarrow (hnext q qs rfl)
          have hboth : ((w ++ ·) ∘ ((some s).toList ++ ·) : List α → List α) = (w ++ [s] ++ ·) := by
            funext l
            simp
          have hpass := map_join_keyPass_cons char mark pass (some s) q.word qs
          rw [← hlead] at hpass
          rw [keyPass_of_not_stuck fun _ => hq, map_join_cons, hchars,
            show textOf char ⟨none, w⟩ = w.map char from rfl, hjoins, hpass, Option.map_map, hlead,
            hboth]
          rwa [List.take_left] at hscan
        · have hq : (q :: qs).head?.all (isNarrow char) = false := by
            rw [head?_all_isNarrow hlead, decide_eq_false hnarrow]
          have hblocks : Blocks [] pass.needle (textOf char ⟨none, w⟩) := ⟨hends, hcut⟩
          rw [keyPass_of_stuck hblocks hq]
          exact .stuck hdrop hfirstEnd hvalue hnarrow
  · have hnot : ¬ Blocks [] pass.needle (w.map char) := fun hblocks => hends hblocks.1
    have hshort : ∀ n ≤ w.length, ¬ EndsIn [pass.needle] ((w.map char).take n) := by
      intro n hn
      obtain hlt | rfl := Nat.lt_or_eq_of_le hn
      · exact hnone n hlt
      · rwa [← List.length_map (f := char), List.take_length]
    rw [keyPass_of_not_stuck fun h => absurd h hnot, map_join_cons, hchars,
      show textOf char ⟨none, w⟩ = w.map char from rfl, hjoins]
    exact hjoin.append (clear_of_word hneedle hshort (behindWord_join hps))

/-- **The scan for a key cuts the words of the text.** -/
theorem redacts_keyPass (hneedle : IsNeedle pass.needle) (ps : List (Chunk α))
    (hps : ∀ p ∈ ps, p.Follows (isEnd char)) :
    Redacts char mark pass.needle pass.takesBearer (Chunk.join ps)
        ((keyPass char mark pass false ps).map Chunk.join) ∧
      ∀ w, IsWord (w.map char) →
        Redacts char mark pass.needle pass.takesBearer (w ++ Chunk.join ps)
          ((keyPass char mark pass false (⟨none, w⟩ :: ps)).map Chunk.join) := by
  induction ps with
  | nil => 
      have hjoin : Redacts char mark pass.needle pass.takesBearer (Chunk.join [])
          ((keyPass char mark pass false []).map Chunk.join) :=
        .stop fun n hn => absurd hn (Nat.not_lt_zero n)
      refine ⟨hjoin, fun w hw => ?_⟩
      cases hcut : cutLength [pass.needle] (w.map char) with
      | some n => exact redacts_keyPass_of_some hw hps hcut hjoin fun _ _ h => by cases h
      | none => exact redacts_keyPass_of_none hneedle hps hcut hjoin fun _ _ h => by cases h
  | cons q qs ih =>
      obtain ⟨htail, hword⟩ := ih fun p hp => hps p (List.mem_cons_of_mem q hp)
      have hq := hps q List.mem_cons_self
      have hnext := hword q.word (isWord_textOf hq)
      have hjoin : Redacts char mark pass.needle pass.takesBearer (Chunk.join (q :: qs))
          ((keyPass char mark pass false (q :: qs)).map Chunk.join) := by
        obtain ⟨s, hlead, hs⟩ := hq.lead
        have hscan := hnext.append (clear_of_lead hneedle hs _)
        rw [show q = ⟨some s, q.word⟩ by rw [← hlead], map_join_keyPass_cons]
        exact hscan
      refine ⟨hjoin, fun w hw => ?_⟩
      cases hcut : cutLength [pass.needle] (w.map char) with
      | some n =>
          refine redacts_keyPass_of_some hw hps hcut hjoin fun q' qs' h => ?_
          obtain ⟨rfl, rfl⟩ := List.cons.inj h
          exact htail
      | none =>
          refine redacts_keyPass_of_none hneedle hps hcut hjoin fun q' qs' h => ?_
          obtain ⟨rfl, rfl⟩ := List.cons.inj h
          exact hnext

/-! ## The scan for bearer tokens -/

/-- A terminator is not in the needle, except at its end. -/
theorem bearer_clear_of_lead {s : α} (hs : isEnd char s = true) (text : List α) (n : Nat)
    (h : ("bearer " : Text) <:+ (toAsciiLowercase (([s] ++ text).map char)).take n) :
    ∃ m, n = [s].length + m ∧ ("bearer " : Text) <:+ (toAsciiLowercase (text.map char)).take m := by
  cases n with
  | zero => exact absurd (List.suffix_nil.mp h) (by decide)
  | succ m =>
      refine ⟨m, Nat.add_comm m 1, ?_⟩
      obtain heq | hsuffix := List.suffix_cons_iff.mp h
      · have hb : 'b' = (char s).toLower := (List.cons.inj heq).1
        have hterm := isSecretValueTerminator_toLower (char s)
        rw [← hb, show isSecretValueTerminator (char s) = true from hs] at hterm
        exact absurd hterm (by decide)
      · exact hsuffix

/-- The needle does not end in a word. -/
theorem not_bearer_suffix_take {w : List α} (hw : IsWord (w.map char)) (rest : List α) {n : Nat}
    (hn : n ≤ w.length) :
    ¬ ("bearer " : Text) <:+ (toAsciiLowercase ((w ++ rest).map char)).take n := by
  rw [toAsciiLowercase_map_append, List.take_append_of_le_length
    (by rw [length_toAsciiLowercase_map]; exact hn)]
  intro h
  have hblank : ' ' ∈ toAsciiLowercase (w.map char) :=
    List.mem_of_mem_take (h.mem (by decide))
  exact (isWord_toAsciiLowercase.mpr hw).notMem (by decide) hblank

/-- Behind a blank the needle ends where the word ends with `bearer`. -/
theorem bearer_firstEnd {w : List α} (hw : IsWord (w.map char))
    (hbears : bears [] (w.map char) = true) {s : α} (hs : char s = ' ') (rest : List α) :
    FirstEnd "bearer " (toAsciiLowercase ((w ++ s :: rest).map char)) (w.length + 1) := by
  refine ⟨?_, ?_, fun m hm => not_bearer_suffix_take hw _ (Nat.le_of_lt_succ hm)⟩
  · rw [length_toAsciiLowercase_map, List.length_append, List.length_cons]
    omega
  · obtain ⟨front, hfront⟩ := (bears_iff.mp hbears).2
    rw [toAsciiLowercase_map_append, ← length_toAsciiLowercase_map char w,
      List.take_length_add_append, ← hfront, List.append_assoc]
    refine ⟨front, ?_⟩
    rw [List.map_cons, hs]
    rfl

/-- Where the word does not end with `bearer`, or is not followed by a blank, the needle does not
end before the text behind it. -/
theorem bearer_clear_of_word {w rest : List α} (hw : IsWord (w.map char))
    (hrest : BehindWord (rest.map char))
    (h : bears [] (w.map char) = true → (rest.map char).head? ≠ some ' ') (n : Nat)
    (hends : ("bearer " : Text) <:+ (toAsciiLowercase ((w ++ rest).map char)).take n) :
    ∃ m, n = w.length + m ∧ ("bearer " : Text) <:+ (toAsciiLowercase (rest.map char)).take m := by
  by_cases hn : n ≤ w.length
  · exact absurd hends (not_bearer_suffix_take hw rest hn)
  obtain ⟨m, rfl⟩ := Nat.exists_eq_add_of_le (Nat.le_of_not_le hn)
  refine ⟨m, rfl, ?_⟩
  rw [toAsciiLowercase_map_append, ← length_toAsciiLowercase_map char w,
    List.take_length_add_append] at hends
  have hneedle : ("bearer " : Text) = "bearer".toList ++ [' '] := rfl
  obtain hnil | ⟨behind, last, hbehind⟩ :=
    List.eq_nil_or_concat' ((toAsciiLowercase (rest.map char)).take m)
  · rw [hnil, List.append_nil] at hends
    have hblank : ' ' ∈ toAsciiLowercase (w.map char) := hends.mem (by decide)
    exact absurd hblank ((isWord_toAsciiLowercase.mpr hw).notMem (by decide))
  · rw [hbehind, ← List.append_assoc, hneedle] at hends
    have hone : [' '].length = [last].length := rfl
    obtain ⟨hbearer, hlast⟩ := (List.suffix_append_inj_of_length_eq hone).mp hends
    rw [hbehind, hneedle]
    refine (List.suffix_append_inj_of_length_eq hone).mpr ⟨?_, hlast⟩
    cases behind with
    | nil =>
        rw [List.append_nil] at hbearer
        refine absurd ?_ (h (bears_iff.mpr ⟨cutLength_nil _, hbearer⟩))
        cases rest with
        | nil =>
            rw [List.map_nil, show toAsciiLowercase [] = [] from rfl, List.take_nil] at hbehind
            cases hbehind
        | cons s rest =>
            cases m with
            | zero => cases hbehind
            | succ m =>
                have hs : (char s).toLower = last := (List.cons.inj hbehind).1
                rw [← List.singleton_injective hlast, LikePattern.toLower_eq_iff (by decide)] at hs
                exact congrArg some hs
    | cons s behind =>
        have hs : isSecretValueTerminator s = true := by
          refine hrest.toAsciiLowercase s ?_
          rw [← List.take_append_drop m (toAsciiLowercase (rest.map char)), hbehind]
          rfl
        have hnot : s ∉ ("bearer" : Text) := IsWord.notMem (by decide) hs
        exact (suffix_of_suffix_append_cons hnot hbearer).trans (List.suffix_cons _ _)

/-- What stands before the first word makes no difference to the scan. -/
theorem map_join_bearerPass_cons (char : α → Char) (mark : List α) (lead : Option α) (w : List α)
    (ps : List (Chunk α)) :
    (bearerPass char mark false (⟨lead, w⟩ :: ps)).map Chunk.join =
      ((bearerPass char mark false (⟨none, w⟩ :: ps)).map Chunk.join).map (lead.toList ++ ·) := by
  rw [bearerPass, bearerPass, Bool.false_and, if_neg Bool.false_ne_true, Bool.false_and,
    if_neg Bool.false_ne_true, map_join_cons, map_join_cons]
  simp only [textOf]
  cases bearerPass char mark (bears [] (w.map char)) ps with
  | none => rfl
  | some result => simp [Chunk.chars]

theorem bearerPass_of_not_spaced {armed : Bool} {ps : List (Chunk α)}
    (h : armed = true → ∀ q qs, ps = q :: qs → spaced char q = false) :
    bearerPass char mark armed ps = bearerPass char mark false ps := by
  cases ps with
  | nil => rfl
  | cons p ps =>
      cases armed with
      | false => rfl
      | true => rw [bearerPass, bearerPass, h rfl p ps rfl, Bool.and_false, Bool.and_false]

section Token

variable {w : List α} {q : Chunk α} {qs : List (Chunk α)}

theorem drop_word_blank (w : List α) (s : α) (rest : List α) :
    (w ++ s :: rest).drop (w.length + 1) = rest := by
  rw [List.drop_length_add_append]
  rfl

theorem take_word_blank (w : List α) (s : α) (rest : List α) :
    (w ++ s :: rest).take (w.length + 1) = w ++ [s] := by
  rw [List.take_length_add_append]
  rfl

/-- The value behind `bearer ` is the word there. -/
theorem valueLength_token (w : List α) (s : α)
    (hps : ∀ p ∈ q :: qs, p.Follows (isEnd char)) :
    valueLength false (((w ++ s :: (q.word ++ Chunk.join qs)).drop (w.length + 1)).map char) =
      q.word.length := by
  have hbehind : BehindWord ((Chunk.join qs).map char) :=
    behindWord_join fun p hp => hps p (List.mem_cons_of_mem q hp)
  have hlength := valueLength_append (isWord_textOf (hps q List.mem_cons_self)) hbehind
    fun (htakes : false = true) => by cases htakes
  rw [textOf, List.length_map] at hlength
  rw [drop_word_blank, List.map_append]
  exact hlength

/-- A token that is not empty is replaced. -/
theorem redacts_bearerPass_token (hw : IsWord (w.map char)) (hbears : bears [] (w.map char) = true)
    (hps : ∀ p ∈ q :: qs, p.Follows (isEnd char)) (hspaced : spaced char q = true)
    (hword : q.word ≠ [])
    (htail : Redacts char mark "bearer " false (Chunk.join qs)
      ((bearerPass char mark false qs).map Chunk.join)) :
    Redacts char mark "bearer " false (w ++ Chunk.join (q :: qs))
      (((bearerPass char mark true (q :: qs)).map Chunk.join).map (w ++ ·)) := by
  obtain ⟨s, hlead, hs⟩ := exists_blank_of_spaced hspaced
  have hpos := List.length_pos_iff.mpr hword
  have hvalue := valueLength_token w s hps
  have hscan : Redacts char mark "bearer " false (w ++ s :: (q.word ++ Chunk.join qs))
      (((bearerPass char mark false qs).map Chunk.join).map
        ((w ++ s :: (q.word ++ Chunk.join qs)).take (w.length + 1) ++ mark ++ ·)) := by
    refine .replace ?_ (bearer_firstEnd hw hbears hs _) (by rw [hvalue]; omega) ?_
    · rw [List.length_append, List.length_cons, List.length_append]
      omega
    · rw [hvalue, ← List.drop_drop, drop_word_blank, List.drop_left]
      exact htail
  have hboth : ((w ++ ·) ∘ (({ q with word := mark } : Chunk α).chars ++ ·) :
      List α → List α) = (w ++ [s] ++ mark ++ ·) := by
    ext1 l
    simp [Chunk.chars, hlead]
  rw [take_word_blank] at hscan
  rw [bearerPass, hspaced, Bool.and_self, if_pos rfl, if_neg hword, map_join_cons, Option.map_map,
    hboth, join_cons_of_lead hlead]
  exact hscan

/-- An empty token is stepped over, with the terminator behind it. -/
theorem redacts_bearerPass_empty (hw : IsWord (w.map char)) (hbears : bears [] (w.map char) = true)
    (hps : ∀ p ∈ q :: qs, p.Follows (isEnd char)) (hspaced : spaced char q = true)
    (hword : q.word = [])
    (hnext : ∀ q' qs', qs = q' :: qs' → Redacts char mark "bearer " false
      (q'.word ++ Chunk.join qs')
      ((bearerPass char mark false (⟨none, q'.word⟩ :: qs')).map Chunk.join)) :
    Redacts char mark "bearer " false (w ++ Chunk.join (q :: qs))
      (((bearerPass char mark true (q :: qs)).map Chunk.join).map (w ++ ·)) := by
  obtain ⟨s, hlead, hs⟩ := exists_blank_of_spaced hspaced
  have hchars : q.chars = [s] := by rw [Chunk.chars, hlead, hword]; rfl
  have hzero := valueLength_token w s hps
  rw [hword, List.length_nil] at hzero
  rw [bearerPass, hspaced, Bool.and_self, if_pos rfl, if_pos hword, join_cons_of_lead hlead, hword]
  cases qs with
  | nil =>
      have hall : (bearerPass char mark false []).map Chunk.join = some [] := rfl
      rw [List.head?_nil, Option.all_none, if_pos rfl, map_join_cons, hchars, hall,
        Option.map_some, Option.map_some, Chunk.join_nil, List.append_nil]
      refine .stop fun n hn hfirst => ?_
      rw [List.length_append, List.length_singleton] at hn
      exact not_bearer_suffix_take hw _ (Nat.le_of_lt_succ hn) hfirst.ends
  | cons q' qs =>
      obtain ⟨s', hlead', -⟩ := (hps q' (by simp)).lead
      have hfirstEnd := bearer_firstEnd hw hbears hs ([] ++ Chunk.join (q' :: qs))
      have hdrop : (w ++ s :: ([] ++ Chunk.join (q' :: qs))).drop (w.length + 1) =
          s' :: (q'.word ++ Chunk.join qs) := by
        rw [drop_word_blank, List.nil_append, join_cons_of_lead hlead']
      by_cases hnarrow : (char s').utf8Size = 1
      · have hscan := Redacts.skip hdrop hfirstEnd hzero hnarrow (hnext q' qs rfl)
        have hnext' := map_join_bearerPass_cons char mark (some s') q'.word qs
        have hboth : ((w ++ ·) ∘ ([s] ++ ·)) ∘ ((some s').toList ++ ·) =
            ((w ++ [s] ++ [s'] ++ ·) : List α → List α) := by
          ext1 l
          simp
        rw [← hlead'] at hnext'
        rw [head?_all_isNarrow hlead', decide_eq_true hnarrow, if_pos rfl, map_join_cons, hchars,
          hnext', hlead', Option.map_map, Option.map_map, hboth]
        rwa [take_word_blank] at hscan
      · rw [head?_all_isNarrow hlead', decide_eq_false hnarrow, if_neg Bool.false_ne_true]
        exact .stuck hdrop hfirstEnd hzero hnarrow

end Token

/-- The first word of the text, and the token behind it if it ends with `bearer`. -/
theorem redacts_bearerPass_word {w : List α} (hw : IsWord (w.map char)) {ps : List (Chunk α)}
    (hps : ∀ p ∈ ps, p.Follows (isEnd char))
    (hjoin : Redacts char mark "bearer " false (Chunk.join ps)
      ((bearerPass char mark false ps).map Chunk.join))
    (htail : ∀ q qs, ps = q :: qs → Redacts char mark "bearer " false (Chunk.join qs)
      ((bearerPass char mark false qs).map Chunk.join))
    (hnext : ∀ q q' qs, ps = q :: q' :: qs → Redacts char mark "bearer " false
      (q'.word ++ Chunk.join qs)
      ((bearerPass char mark false (⟨none, q'.word⟩ :: qs)).map Chunk.join)) :
    Redacts char mark "bearer " false (w ++ Chunk.join ps)
      ((bearerPass char mark false (⟨none, w⟩ :: ps)).map Chunk.join) := by
  have hpass : (bearerPass char mark false (⟨none, w⟩ :: ps)).map Chunk.join =
      ((bearerPass char mark (bears [] (w.map char)) ps).map Chunk.join).map (w ++ ·) := by
    rw [bearerPass, Bool.false_and, if_neg Bool.false_ne_true, map_join_cons]
    rfl
  rw [hpass]
  by_cases htaken : bears [] (w.map char) = true ∧ ∃ q qs, ps = q :: qs ∧ spaced char q = true
  · obtain ⟨hbears, q, qs, rfl, hspaced⟩ := htaken
    rw [hbears]
    by_cases hword : q.word = []
    · exact redacts_bearerPass_empty hw hbears hps hspaced hword fun q' qs' h =>
        hnext q q' qs' (by rw [h])
    · exact redacts_bearerPass_token hw hbears hps hspaced hword (htail q qs rfl)
  · have hnot : bears [] (w.map char) = true → ((Chunk.join ps).map char).head? ≠ some ' ' :=
      fun hbears hblank => htaken ⟨hbears, exists_spaced_of_head? hps hblank⟩
    rw [bearerPass_of_not_spaced fun hbears q qs hq => Bool.eq_false_iff.mpr fun hspaced =>
      htaken ⟨hbears, q, qs, hq, hspaced⟩]
    exact hjoin.append (bearer_clear_of_word hw (behindWord_join hps) hnot)

/-- **The scan for bearer tokens replaces words of the text.** -/
theorem redacts_bearerPass (ps : List (Chunk α)) (hps : ∀ p ∈ ps, p.Follows (isEnd char)) :
    Redacts char mark "bearer " false (Chunk.join ps)
        ((bearerPass char mark false ps).map Chunk.join) ∧
      (∀ q qs, ps = q :: qs → Redacts char mark "bearer " false (q.word ++ Chunk.join qs)
        ((bearerPass char mark false (⟨none, q.word⟩ :: qs)).map Chunk.join)) ∧
      ∀ w, IsWord (w.map char) → Redacts char mark "bearer " false (w ++ Chunk.join ps)
        ((bearerPass char mark false (⟨none, w⟩ :: ps)).map Chunk.join) := by
  induction ps with
  | nil =>
      have hjoin : Redacts char mark "bearer " false (Chunk.join [])
          ((bearerPass char mark false []).map Chunk.join) :=
        .stop fun n hn => absurd hn (Nat.not_lt_zero n)
      refine ⟨hjoin, (fun q qs h => by cases h), fun w hw => ?_⟩
      exact redacts_bearerPass_word hw hps hjoin (fun _ _ h => by cases h) fun _ _ _ h => by cases h
  | cons q qs ih =>
      obtain ⟨htail, hnext, hword⟩ := ih fun p hp => hps p (List.mem_cons_of_mem q hp)
      have hq := hps q List.mem_cons_self
      have hfirst := hword q.word (isWord_textOf hq)
      have hjoin : Redacts char mark "bearer " false (Chunk.join (q :: qs))
          ((bearerPass char mark false (q :: qs)).map Chunk.join) := by
        obtain ⟨s, hlead, hs⟩ := hq.lead
        have hscan := hfirst.append (bearer_clear_of_lead hs _)
        rw [show q = ⟨some s, q.word⟩ by rw [← hlead], map_join_bearerPass_cons]
        exact hscan
      refine ⟨hjoin, fun q' qs' h => ?_, fun w hw => ?_⟩
      · obtain ⟨rfl, rfl⟩ := List.cons.inj h
        exact hfirst
      · refine redacts_bearerPass_word hw hps hjoin (fun q' qs' h => ?_) fun q' q'' qs' h => ?_
        · obtain ⟨rfl, rfl⟩ := List.cons.inj h
          exact htail
        · obtain ⟨rfl, rfl⟩ := List.cons.inj h
          exact hnext q'' qs' rfl

/-! ## The scans of the source -/

/-- The words of a text: the first has nothing in front of it. -/
structure IsWords (char : α → Char) (ps : List (Chunk α)) : Prop where
  first : ∃ w qs, ps = ⟨none, w⟩ :: qs ∧ IsWord (w.map char) ∧
    ∀ q ∈ qs, q.Follows (isEnd char)

theorem redactScan_join_keyPass (mark : List α) {ps : List (Chunk α)} (hps : IsWords char ps)
    (hneedle : IsNeedle pass.needle) :
    redactScan char mark pass.needle pass.takesBearer (Chunk.join ps) =
      .ofOption ((keyPass char mark pass false ps).map Chunk.join) := by
  obtain ⟨w, qs, rfl, hw, hqs⟩ := hps.first
  exact ((redacts_keyPass hneedle qs hqs).2 w hw).redactScan_eq hneedle.ne_nil

theorem redactScan_join_bearerPass (mark : List α) {ps : List (Chunk α)} (hps : IsWords char ps) :
    redactBearerToken char mark (Chunk.join ps) =
      .ofOption ((bearerPass char mark false ps).map Chunk.join) := by
  obtain ⟨w, qs, rfl, hw, hqs⟩ := hps.first
  exact ((redacts_bearerPass qs hqs).2.2 w hw).redactScan_eq (by decide)

end Words

end Telemetry
end SimpleClaw
