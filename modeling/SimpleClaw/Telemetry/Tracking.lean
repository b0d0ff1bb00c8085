import SimpleClaw.Telemetry.Totality

/-!
# Following a part of the text

Characters that carry a flag are read as characters, so the scans run on them as they are.  The
characters of one part of a text are flagged, and those that are flagged in the output are what is
left of it.

* `map_redactText`: the scans do with flagged characters what they do with characters.
* `track`, `Survives`: a text with a part that is flagged, and what it is for the part to be in the
  output.
* `TakenBy`: whether one of the scans takes the word behind a list of words.
* `survives_track_iff`: the part is in the output where no scan takes its word and no needle cuts
  the word within the part or before it.
-/

namespace SimpleClaw
namespace Telemetry

open Text

/-! ## The scans on other entries -/

section Naturality

variable {α : Type*} (char : α → Char) (mark : List α)

theorem map_replaceRange (output replacement : List α) (start stop : Nat) :
    (replaceRange char output start stop replacement).map (List.map char) =
      replaceRange id (output.map char) start stop (replacement.map char) := by
  rw [replaceRange, replaceRange, List.map_id]
  split
  · rfl
  · cases splitBytes start (output.map char) with
    | none => rfl
    | some before =>
        cases splitBytes stop (output.map char) with
        | none => rfl
        | some upTo => simp

theorem map_redactLoop (needle : Text) (takesBearer : Bool) (fuel : Nat) (output : List α)
    (searchFrom : Nat) :
    (redactLoop char mark needle takesBearer fuel output searchFrom).map (List.map char) =
      redactLoop id (mark.map char) needle takesBearer fuel (output.map char) searchFrom := by
  induction fuel generalizing output searchFrom with
  | zero => rfl
  | succ fuel ih =>
      rw [redactLoop_succ, redactLoop_succ, List.map_id, List.map_id]
      cases redactTurn needle takesBearer (output.map char) searchFrom with
      | none => rfl
      | some turn =>
          cases turn with
          | stop => rfl
          | skip next => exact ih output next
          | replace valueStart valueEnd =>
              simp only [← map_replaceRange]
              cases replaceRange char output valueStart valueEnd mark with
              | none => rfl
              | some output => exact ih output _

theorem map_redactScan (needle : Text) (takesBearer : Bool) (text : List α) :
    (redactScan char mark needle takesBearer text).map (List.map char) =
      redactScan id (mark.map char) needle takesBearer (text.map char) := by
  rw [redactScan, redactScan, map_redactLoop, List.length_map]

theorem map_redactPasses (rest : List Pass) (text : List α) :
    (redactPasses char mark rest text).map (List.map char) =
      redactPasses id (mark.map char) rest (text.map char) := by
  induction rest generalizing text with
  | nil => rfl
  | cons pass rest ih =>
      rw [redactPasses, redactPasses, ← map_redactScan, Outcome.map_bind]
      cases redactScan char mark pass.needle pass.takesBearer text with
      | returned redacted => exact ih redacted
      | panicked => rfl
      | outOfFuel => rfl

/-- **The scans do with entries what they do with their characters.** -/
theorem map_redactText (text : List α) :
    (redactText char mark text).map (List.map char) =
      redactText id (mark.map char) (text.map char) := by
  rw [redactText, redactText, redactAfterKeys_eq, redactAfterKeys_eq, ← map_redactPasses,
    Outcome.map_bind]
  cases redactPasses char mark (sensitiveKeys.flatMap passesFor) text with
  | returned redacted => exact map_redactScan char mark "bearer " false redacted
  | panicked => rfl
  | outOfFuel => rfl

end Naturality

/-! ## The word behind a list of words -/

section Taken

variable {α : Type*} (char : α → Char)

/-- One of the scans takes the word that is behind these words and a blank. -/
def TakenBy : List Text → List Pass → List (Chunk α) → Prop
  | done, [], ps => armedAfter (fun p => bears done (textOf char p)) (spaced char) false ps = true
  | done, pass :: rest, ps =>
      armedAfter (fun p => joins done pass (textOf char p)) (spaced char) false ps = true ∨
        TakenBy (done ++ [pass.needle]) rest (leftBy char done pass ps)

end Taken

/-! ## Flagged characters -/

/-- Characters without the flag. -/
def unflagged (text : Text) : List (Char × Bool) := text.map fun c => (c, false)

def flagged (text : Text) : List (Char × Bool) := text.map fun c => (c, true)

/-- The text with a part that is flagged. -/
def track (before secret after : Text) : List (Char × Bool) :=
  unflagged before ++ (flagged secret ++ unflagged after)

/-- The flagged part is in the output, from its first character to its last. -/
def Survives (secret : Text) (output : List (Char × Bool)) : Prop :=
  (output.filter Prod.snd).map Prod.fst = secret

instance (secret : Text) (output : List (Char × Bool)) : Decidable (Survives secret output) :=
  inferInstanceAs (Decidable (_ = _))

theorem map_fst_unflagged (text : Text) : (unflagged text).map Prod.fst = text := by
  rw [unflagged, List.map_map]
  exact List.map_id text

theorem map_fst_flagged (text : Text) : (flagged text).map Prod.fst = text := by
  rw [flagged, List.map_map]
  exact List.map_id text

theorem map_fst_track (before secret after : Text) :
    (track before secret after).map Prod.fst = before ++ (secret ++ after) := by
  rw [track, List.map_append, List.map_append, map_fst_unflagged, map_fst_flagged,
    map_fst_unflagged]

theorem filter_unflagged (text : Text) : (unflagged text).filter Prod.snd = [] := by
  rw [List.filter_eq_nil_iff]
  intro a ha
  obtain ⟨c, -, rfl⟩ := List.mem_map.mp ha
  exact Bool.false_ne_true

theorem filter_flagged (text : Text) : (flagged text).filter Prod.snd = flagged text := by
  rw [List.filter_eq_self]
  intro a ha
  obtain ⟨c, -, rfl⟩ := List.mem_map.mp ha
  rfl

/-- No character of the chunk is flagged. -/
def Unflagged (p : Chunk (Char × Bool)) : Prop := p.chars.filter Prod.snd = []

theorem filter_join {ps : List (Chunk (Char × Bool))} (h : ∀ p ∈ ps, Unflagged p) :
    (Chunk.join ps).filter Prod.snd = [] := by
  induction ps with
  | nil => rfl
  | cons p ps ih =>
      rw [Chunk.join_cons, List.filter_append, h p List.mem_cons_self,
        ih fun q hq => h q (List.mem_cons_of_mem p hq)]
      rfl

/-- A word that is not flagged is not flagged at the end. -/
theorem Unflagged.finish {p : Chunk (Char × Bool)} (h : Unflagged p) (done : List Text)
    (token : Bool) :
    Unflagged (Telemetry.finish Prod.fst (unflagged REDACTED) done (p, token)) := by
  rw [Unflagged, Chunk.chars, List.filter_append, List.append_eq_nil_iff] at h
  rw [Telemetry.finish]
  split
  · rw [Unflagged, Chunk.chars, List.filter_append, h.1, filter_unflagged, List.append_nil]
  · rw [Unflagged, Chunk.chars, List.filter_append, cutPiece, h.1, List.nil_append]
    cases hcut : cutLength done (p.word.map Prod.fst) with
    | none => rw [cutWord_of_none hcut, h.2]
    | some n =>
        rw [cutWord_of_some hcut, List.filter_append, filter_unflagged, List.append_nil]
        exact List.filter_eq_nil_iff.mpr fun a ha =>
          List.filter_eq_nil_iff.mp h.2 a (List.mem_of_mem_take ha)

/-- The words that are left, as they are at the end. -/
def finished (done : List Text) (rest : List Pass) (ps : List (Chunk (Char × Bool))) :
    List (Char × Bool) :=
  Chunk.join ((bearerMarks Prod.fst (done ++ rest.map Pass.needle)
    (leftByAll Prod.fst done rest ps)).map
      (finish Prod.fst (unflagged REDACTED) (done ++ rest.map Pass.needle)))

theorem fst_mem_of_mem_takeMarks {β : Type*} {takes takeable : β → Bool} {armed : Bool}
    {bs : List β} {b : β × Bool} (h : b ∈ takeMarks takes takeable armed bs) : b.1 ∈ bs := by
  induction bs generalizing armed with
  | nil => cases h
  | cons c bs ih =>
      rw [takeMarks] at h
      rcases List.mem_cons.mp h with rfl | h
      · exact List.mem_cons_self
      · exact List.mem_cons_of_mem c (ih h)

theorem filter_finished_of_unflagged (rest : List Pass) (done : List Text)
    {ps : List (Chunk (Char × Bool))} (h : ∀ p ∈ ps, Unflagged p) :
    (finished done rest ps).filter Prod.snd = [] := by
  induction rest generalizing done ps with
  | nil =>
      refine filter_join fun p hp => ?_
      obtain ⟨⟨q, token⟩, hq, rfl⟩ := List.mem_map.mp hp
      exact (h q (fst_mem_of_mem_takeMarks hq)).finish _ token
  | cons pass rest ih =>
      have hrest := @ih (done ++ [pass.needle]) (leftBy Prod.fst done pass ps)
        fun p hp => h p (mem_of_mem_notTaken hp)
      rwa [finished, ← List.append_cons] at hrest

/-- **What is left of a word: nothing if a scan takes it, and else what the keys leave.** -/
theorem filter_finished (rest : List Pass) (done : List Text)
    {before after : List (Chunk (Char × Bool))} {p : Chunk (Char × Bool)}
    (hbefore : ∀ q ∈ before, Unflagged q) (hafter : ∀ q ∈ after, Unflagged q)
    (hlead : p.lead.toList.filter Prod.snd = []) (hword : p.word ≠ []) :
    (spaced Prod.fst p = true ∧ TakenBy Prod.fst done rest before →
      (finished done rest (before ++ p :: after)).filter Prod.snd = []) ∧
    (¬ (spaced Prod.fst p = true ∧ TakenBy Prod.fst done rest before) →
      (finished done rest (before ++ p :: after)).filter Prod.snd =
        (cutWord Prod.fst (unflagged REDACTED) (done ++ rest.map Pass.needle) p.word).filter
          Prod.snd) := by
  induction rest generalizing done before after with
  | nil =>
      have hmarks {takes takeable : Chunk (Char × Bool) → Bool} {armed : Bool}
          {ps : List (Chunk (Char × Bool))} (hps : ∀ q ∈ ps, Unflagged q) (needles : List Text) :
          (Chunk.join ((takeMarks takes takeable armed ps).map
            (finish Prod.fst (unflagged REDACTED) needles))).filter Prod.snd = [] := by
        refine filter_join fun q hq => ?_
        obtain ⟨⟨r, token⟩, hr, rfl⟩ := List.mem_map.mp hq
        exact (hps r (fst_mem_of_mem_takeMarks hr)).finish _ token
      rw [finished, leftByAll, bearerMarks, takeMarks_append, takeMarks, List.map_append,
        List.map_cons, Chunk.join_append, Chunk.join_cons, List.filter_append, List.filter_append,
        hmarks hbefore, hmarks hafter, List.nil_append, List.append_nil, List.map_nil,
        List.append_nil, TakenBy]
      refine ⟨fun htaken => ?_, fun h => ?_⟩
      · obtain ⟨hspaced, harmed⟩ := htaken
        rw [finish, if_pos ⟨by rw [harmed, hspaced]; rfl, hword⟩, Chunk.chars, List.filter_append,
          hlead, filter_unflagged]
        rfl
      · rw [finish, if_neg fun hboth => h ((Bool.and_eq_true _ _).mp hboth.1).symm, Chunk.chars,
          List.filter_append, cutPiece, hlead, List.nil_append]
  | cons pass rest ih =>
      have hleft : ∀ q ∈ leftBy Prod.fst done pass before, Unflagged q :=
        fun q hq => hbefore q (mem_of_mem_notTaken hq)
      have hsplit : leftBy Prod.fst done pass (before ++ p :: after) =
          leftBy Prod.fst done pass before ++
            notTaken (fun p => joins done pass (textOf Prod.fst p)) (spaced Prod.fst)
              (armedAfter (fun p => joins done pass (textOf Prod.fst p)) (spaced Prod.fst) false
                before) (p :: after) := notTaken_append false before (p :: after)
      have hfinished (ps : List (Chunk (Char × Bool))) : finished done (pass :: rest) ps =
          finished (done ++ [pass.needle]) rest (leftBy Prod.fst done pass ps) := by
        rw [finished, finished, List.map_cons,
          List.append_cons done pass.needle (rest.map Pass.needle)]
        rfl
      rw [hfinished, hsplit, TakenBy, List.map_cons,
        List.append_cons done pass.needle (rest.map Pass.needle)]
      by_cases htaken : (armedAfter (fun p => joins done pass (textOf Prod.fst p))
          (spaced Prod.fst) false before && spaced Prod.fst p) = true
      · obtain ⟨harmed, hspaced⟩ := (Bool.and_eq_true _ _).mp htaken
        refine ⟨fun _ => ?_, fun h => absurd ⟨hspaced, .inl harmed⟩ h⟩
        rw [harmed, notTaken_cons_of_taken hspaced]
        refine filter_finished_of_unflagged rest _ fun q hq => ?_
        obtain hq | hq := List.mem_append.mp hq
        · exact hleft q hq
        · exact hafter q (mem_of_mem_notTaken hq)
      · rw [notTaken_cons_of_not (Bool.eq_false_iff.mpr htaken)]
        obtain ⟨hgone, hkept⟩ := ih (done ++ [pass.needle]) hleft
          fun q hq => hafter q (mem_of_mem_notTaken hq)
        refine ⟨fun h => hgone ⟨h.1, h.2.resolve_left fun harmed => ?_⟩,
          fun h => hkept fun hrest => h ⟨hrest.1, .inr hrest.2⟩⟩
        exact htaken ((Bool.and_eq_true _ _).mpr ⟨harmed, h.1⟩)

/-! ## The words of a text with a part that is flagged -/

def unflaggedPiece (p : Chunk Char) : Chunk (Char × Bool) := p.map fun c => (c, false)

theorem unflagged_unflaggedPiece (p : Chunk Char) : Unflagged (unflaggedPiece p) := by
  have hall : ∀ a ∈ (unflaggedPiece p).chars, a.2 = false := by
    intro a ha
    obtain ha | ha := List.mem_append.mp ha
    · rw [Option.mem_toList] at ha
      obtain ⟨c, -, rfl⟩ := Option.map_eq_some_iff.mp ha
      rfl
    · obtain ⟨c, -, rfl⟩ := List.mem_map.mp ha
      rfl
  exact List.filter_eq_nil_iff.mpr fun a ha hflag =>
    Bool.false_ne_true ((hall a ha).symm.trans hflag)

theorem textOf_unflaggedPiece (p : Chunk Char) :
    textOf Prod.fst (unflaggedPiece p) = textOf id p := by
  rw [textOf, textOf, List.map_id]
  exact map_fst_unflagged p.word

theorem spaced_unflaggedPiece (p : Chunk Char) :
    spaced Prod.fst (unflaggedPiece p) = spaced id p := by
  rw [spaced, spaced]
  cases hlead : p.lead with
  | none => simp [unflaggedPiece, Chunk.map, hlead]
  | some s => simp [unflaggedPiece, Chunk.map, hlead]

theorem split_unflagged (lead : Option Char) (text : Text) :
    Chunk.split (isEnd Prod.fst) (lead.map fun c => (c, false)) (unflagged text) =
      (Chunk.split (isEnd id) lead text).map unflaggedPiece :=
  Chunk.split_map (fun c => (c, false)) (isEnd Prod.fst) lead text

/-- The words that a scan leaves are left whether or not they carry flags. -/
theorem leftBy_map_unflaggedPiece (done : List Text) (pass : Pass) (ps : List (Chunk Char)) :
    leftBy Prod.fst done pass (ps.map unflaggedPiece) =
      (leftBy id done pass ps).map unflaggedPiece :=
  notTaken_map unflaggedPiece ps (fun p _ => by rw [textOf_unflaggedPiece])
    (fun p _ => spaced_unflaggedPiece p) false

theorem takenBy_map_unflaggedPiece (rest : List Pass) (done : List Text) (ps : List (Chunk Char)) :
    TakenBy Prod.fst done rest (ps.map unflaggedPiece) ↔ TakenBy id done rest ps := by
  induction rest generalizing done ps with
  | nil =>
      rw [TakenBy, TakenBy, armedAfter_map unflaggedPiece ps
        (fun p _ => by rw [textOf_unflaggedPiece]) fun p _ => spaced_unflaggedPiece p]
  | cons pass rest ih =>
      rw [TakenBy, TakenBy, leftBy_map_unflaggedPiece, ih, armedAfter_map unflaggedPiece ps
        (fun p _ => by rw [textOf_unflaggedPiece]) fun p _ => spaced_unflaggedPiece p]

/-- **The flagged part is in one word, and the words around it are not flagged.** -/
theorem exists_words_track {secret : Text} (hsecret : IsWord secret) (text rest : Text) :
    ∃ before last behind after, words id text = before ++ [last] ∧
      words Prod.fst (track text secret rest) = before.map unflaggedPiece ++
        ⟨last.lead.map fun c => (c, false), track last.word secret behind⟩ :: after ∧
      ∀ p ∈ after, Unflagged p := by
  obtain ⟨behind, more, hrest, hbehind, hmore⟩ : ∃ behind more, rest = behind ++ more ∧
      IsWord behind ∧ (more = [] ∨ ∃ s more', more = s :: more' ∧
        isSecretValueTerminator s = true) := by
    refine ⟨rest.takeWhile fun c => !isSecretValueTerminator c,
      rest.dropWhile fun c => !isSecretValueTerminator c, List.takeWhile_append_dropWhile.symm,
      fun c hc => by simpa using List.mem_takeWhile_imp hc, ?_⟩
    cases hdrop : rest.dropWhile fun c => !isSecretValueTerminator c with
    | nil => exact .inl rfl
    | cons s more =>
        refine .inr ⟨s, more, rfl, ?_⟩
        have hhead := List.head_dropWhile_not (fun c => !isSecretValueTerminator c) (l := rest)
          (by rw [hdrop]; exact List.cons_ne_nil _ _)
        simpa [hdrop] using hhead
  have hword : ∀ a ∈ flagged secret ++ unflagged behind, isEnd Prod.fst a = false := by
    intro a ha
    obtain ha | ha := List.mem_append.mp ha
    · obtain ⟨c, hc, rfl⟩ := List.mem_map.mp ha
      exact hsecret c hc
    · obtain ⟨c, hc, rfl⟩ := List.mem_map.mp ha
      exact hbehind c hc
  obtain ⟨before', last', hu, huv⟩ := Chunk.split_append hword none (unflagged text)
  have hnone := split_unflagged none text
  rw [Option.map_none] at hnone
  rw [hnone] at hu
  obtain ⟨before, lasts, hsplit, rfl, hlasts⟩ := List.map_eq_append_iff.mp hu
  obtain ⟨last, rfl, rfl⟩ := List.map_eq_singleton_iff.mp hlasts
  have htrack : track text secret rest =
      (unflagged text ++ (flagged secret ++ unflagged behind)) ++ unflagged more := by
    rw [track, hrest]
    simp [unflagged]
  have hlast : ({ unflaggedPiece last with
      word := (unflaggedPiece last).word ++ (flagged secret ++ unflagged behind) } :
        Chunk (Char × Bool)) =
      ⟨last.lead.map fun c => (c, false), track last.word secret behind⟩ := rfl
  rw [hlast] at huv
  obtain rfl | ⟨s, more, rfl, hs⟩ := hmore
  · refine ⟨before, last, behind, [], hsplit, ?_, fun p hp => by cases hp⟩
    rw [words, htrack, show unflagged [] = [] from rfl, List.append_nil]
    exact huv
  · refine ⟨before, last, behind, Chunk.split (isEnd Prod.fst) (some (s, false)) (unflagged more),
      hsplit, ?_, ?_⟩
    · rw [words, htrack]
      show Chunk.split _ none (_ ++ (s, false) :: unflagged more) = _
      rw [Chunk.split_append_cons (c := (s, false)) hs, huv, List.append_assoc,
        List.singleton_append]
    · intro p hp
      have hmore := split_unflagged (some s) more
      rw [Option.map_some] at hmore
      rw [hmore] at hp
      obtain ⟨q, -, rfl⟩ := List.mem_map.mp hp
      exact unflagged_unflaggedPiece q

/-- The flagged characters at the beginning of a word. -/
theorem filter_take_track (front secret behind : Text) (n : Nat) :
    ((track front secret behind).take n).filter Prod.snd =
      flagged (secret.take (n - front.length)) := by
  have hunflagged (text : Text) (m : Nat) : ((unflagged text).take m).filter Prod.snd = [] := by
    rw [unflagged, ← List.map_take]
    exact filter_unflagged _
  have hlength : (unflagged front).length = front.length := List.length_map _
  rw [track, List.take_append, List.take_append, List.filter_append, List.filter_append,
    hunflagged, hunflagged, List.nil_append, List.append_nil, hlength, flagged, flagged,
    ← List.map_take]
  exact filter_flagged _

theorem filter_track (front secret behind : Text) :
    (track front secret behind).filter Prod.snd = flagged secret := by
  rw [track, List.filter_append, List.filter_append, filter_unflagged, filter_unflagged,
    filter_flagged, List.nil_append, List.append_nil]

/-- **The part is left where the word is not cut before its end.** -/
theorem survives_cutWord_iff (keys : List Text) (front : Text) {secret : Text}
    (hne : secret ≠ []) (behind : Text) :
    Survives secret (cutWord Prod.fst (unflagged REDACTED) keys (track front secret behind)) ↔
      ∀ n < (front ++ secret).length, ¬ EndsIn keys ((front ++ secret).take n) := by
  have htake {n : Nat} (hn : n ≤ (front ++ secret).length) :
      ((track front secret behind).map Prod.fst).take n = (front ++ secret).take n := by
    rw [map_fst_track, ← List.append_assoc, List.take_append_of_le_length hn]
  have hlength : ((track front secret behind).map Prod.fst).length =
      (front ++ secret).length + behind.length := by
    rw [map_fst_track, ← List.append_assoc, List.length_append]
  cases hcut : cutLength keys ((track front secret behind).map Prod.fst) with
  | none =>
      rw [cutWord_of_none hcut, Survives, filter_track, map_fst_flagged]
      refine iff_of_true rfl fun n hn => ?_
      rw [← htake hn.le]
      exact cutLength_eq_none_iff.mp hcut n (by omega)
  | some n =>
      obtain ⟨hlt, hends, hfirst⟩ := cutLength_eq_some_iff.mp hcut
      rw [cutWord_of_some hcut, Survives, List.filter_append, filter_take_track, filter_unflagged,
        List.append_nil, map_fst_flagged]
      by_cases hn : n < (front ++ secret).length
      · refine iff_of_false (fun heq => ?_) fun h => h n hn (htake hn.le ▸ hends)
        have htakeLength := congrArg List.length heq
        have hpos := List.length_pos_iff.mpr hne
        rw [List.length_take] at htakeLength
        rw [List.length_append] at hn
        omega
      · refine iff_of_true ?_ fun m hm => ?_
        · rw [List.length_append] at hn
          exact List.take_of_length_le (by omega)
        · rw [← htake hm.le]
          exact hfirst m (by omega)

/-- **The part is in the output where no scan takes its word and no needle cuts the word before
the end of the part.** -/
theorem survives_track_iff {secret : Text} (hsecret : IsWord secret) (hne : secret ≠ [])
    (text rest : Text) {output : List (Char × Bool)}
    (houtput : redactText Prod.fst (unflagged REDACTED) (track text secret rest) =
      .returned output) : ∃ before last, words id text = before ++ [last] ∧
    (Survives secret output ↔ ¬ (spaced id last = true ∧ TakenBy id [] passes before) ∧
      ∀ n < (last.word ++ secret).length, ¬ EndsIn needles ((last.word ++ secret).take n)) := by
  obtain ⟨before, last, behind, after, hwords, htrack, hafter⟩ :=
    exists_words_track hsecret text rest
  refine ⟨before, last, hwords, ?_⟩
  obtain ⟨hclear, hstuck⟩ := redactText_eq Prod.fst (map_fst_unflagged REDACTED)
    (track text secret rest)
  have hreturned : output = finished [] passes (words Prod.fst (track text secret rest)) := by
    by_cases h : ClearOfBlanks Prod.fst [] passes (words Prod.fst (track text secret rest))
    · rw [hclear h, Outcome.returned.injEq] at houtput
      exact houtput.symm
    · rw [hstuck h] at houtput
      cases houtput
  have hbefore : ∀ q ∈ before.map unflaggedPiece, Unflagged q := by
    intro q hq
    obtain ⟨p, -, rfl⟩ := List.mem_map.mp hq
    exact unflagged_unflaggedPiece p
  let p : Chunk (Char × Bool) := ⟨last.lead.map fun c => (c, false), track last.word secret behind⟩
  have hlead : p.lead.toList.filter Prod.snd = [] := by
    show (last.lead.map fun c => (c, false)).toList.filter Prod.snd = []
    cases last.lead <;> rfl
  have hword : p.word ≠ [] := by
    intro hnil
    have hmap := congrArg (List.map Prod.fst) hnil
    rw [show p.word = track last.word secret behind from rfl, map_fst_track] at hmap
    exact hne (List.append_eq_nil_iff.mp (List.append_eq_nil_iff.mp hmap).2).1
  obtain ⟨hgone, hkept⟩ := filter_finished passes [] hbefore hafter hlead hword
  rw [← htrack, ← hreturned, takenBy_map_unflaggedPiece] at hgone hkept
  have hspaced : spaced Prod.fst p = spaced id last := spaced_unflaggedPiece last
  rw [hspaced] at hgone hkept
  by_cases htaken : spaced id last = true ∧ TakenBy id [] passes before
  · refine iff_of_false (fun h => ?_) fun h => h.1 htaken
    rw [Survives, hgone htaken] at h
    exact hne h.symm
  · rw [and_iff_right htaken, ← survives_cutWord_iff needles last.word hne behind, Survives,
      Survives, hkept htaken]
    rfl

end Telemetry
end SimpleClaw
