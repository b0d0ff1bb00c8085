import Mathlib.Data.List.Chain
import SimpleClaw.Telemetry.WordPasses

/-!
# Which texts are redacted

The scan for a key gets stuck at a terminator of several bytes right behind a needle: it goes on
one byte further, which is within that terminator.  Whether a scan comes to such a place is said in
terms of the words of the input: which words earlier scans took, and where words are cut.

* `passes`, `redactAfterKeys_eq`: the scans for the keys, in order.
* `leftBy`, `leftByAll`: the words that are not taken.
* `ClearOfBlanks`: no scan comes to a needle that a terminator of several bytes follows.
* `keyPass_eq`, `bearerPass_eq`: a scan on words, by the words that it leaves.
* `redactText_eq`: what becomes of a text.
* `sanitizePreview_returns_iff`: the preview is made for JSON and for texts that are clear, and
  the scans always end.
-/

namespace SimpleClaw
namespace Telemetry

open Text Providers

/-! ## The scans in order -/

def passesFor (key : Text) : List Pass :=
  ['=', ':'].map fun separator =>
    ⟨key ++ [separator], decide (toAsciiLowercase key = toAsciiLowercase "authorization")⟩

/-- The scans for the keys. -/
def passes : List Pass := sensitiveKeys.flatMap passesFor

/-- What the scans look for. -/
def needles : List Text := passes.map Pass.needle

theorem isNeedle_of_mem_passes : ∀ pass ∈ passes, IsNeedle pass.needle := by
  intro pass hpass
  obtain ⟨key, hkey, hpass⟩ := List.mem_flatMap.mp hpass
  obtain ⟨sep, hsep, rfl⟩ := List.mem_map.mp hpass
  have hword : ∀ key ∈ sensitiveKeys,
      ['=', ':'].all (fun sep => decide (IsWord (key ++ [sep]))) = true := by decide
  exact ⟨forall_mem_of_all (hword key hkey) sep hsep, key, sep, rfl, by simpa using hsep⟩

section Words

variable {α : Type*} (char : α → Char) (mark : List α)

def redactPasses : List Pass → List α → Outcome (List α)
  | [], text => .returned text
  | pass :: rest, text =>
      (redactScan char mark pass.needle pass.takesBearer text).bind (redactPasses rest)

/-- **The keys are scanned for one after the other.** -/
theorem redactAfterKeys_eq (keys : List Text) (text : List α) :
    redactAfterKeys char mark keys text = redactPasses char mark (keys.flatMap passesFor) text := by
  induction keys generalizing text with
  | nil => rfl
  | cons key keys ih =>
      have hkeys : redactAfterKeys char mark keys =
          redactPasses char mark (keys.flatMap passesFor) := funext ih
      rw [redactAfterKeys, hkeys]
      rfl

/-! ## The words that are left -/

def words (text : List α) : List (Chunk α) := Chunk.split (isEnd char) none text

/-- The words that the scan does not take. -/
def leftBy (done : List Text) (pass : Pass) (ps : List (Chunk α)) : List (Chunk α) :=
  notTaken (fun p => joins done pass (textOf char p)) (spaced char) false ps

/-- The words that none of the scans takes. -/
def leftByAll : List Text → List Pass → List (Chunk α) → List (Chunk α)
  | _, [], ps => ps
  | done, pass :: rest, ps => leftByAll (done ++ [pass.needle]) rest (leftBy char done pass ps)

/-- The words that are left, with which of them are tokens. -/
def bearerMarks (done : List Text) (ps : List (Chunk α)) : List (Chunk α × Bool) :=
  takeMarks (fun p => bears done (textOf char p)) (spaced char) false ps

/-- **No scan comes to a needle that a terminator of several bytes follows.** -/
def ClearOfBlanks : List Text → List Pass → List (Chunk α) → Prop
  | done, [], ps => (bearerMarks char done ps).IsChain fun p q =>
      p.2 = true → p.1.word = [] → isNarrow char q.1 = true
  | done, pass :: rest, ps =>
      ((leftBy char done pass ps).IsChain fun p q =>
        Blocks done pass.needle (textOf char p) → isNarrow char q = true) ∧
      ClearOfBlanks (done ++ [pass.needle]) rest (leftBy char done pass ps)

/-- A word at the end: the mark for a token, any other word as the keys cut it. -/
def finish (done : List Text) (p : Chunk α × Bool) : Chunk α :=
  if p.2 = true ∧ p.1.word ≠ [] then { p.1 with word := mark } else cutPiece char mark done p.1

variable {char mark}

/-! ## A scan by the words that it leaves -/

theorem head?_notTaken {β : Type*} (takes takeable : β → Bool) (bs : List β) :
    (notTaken takes takeable false bs).head? = bs.head? := by
  cases bs <;> rfl

/-- The next word, if there is one, is behind a terminator of one byte. -/
theorem all_isNarrow_iff (ps : List (Chunk α)) :
    ps.head?.all (isNarrow char) = true ↔ ∀ q ∈ ps.head?, isNarrow char q = true := by
  cases ps with
  | nil => simp
  | cons p ps => simp

theorem all_isNarrow_iff_takeMarks (takes : Chunk α → Bool) (armed : Bool) (ps : List (Chunk α)) :
    ps.head?.all (isNarrow char) = true ↔
      ∀ q ∈ (takeMarks takes (spaced char) armed ps).head?, isNarrow char q.1 = true := by
  cases ps with
  | nil => simp
  | cons p ps => simp [takeMarks]

/-- A word that the needle ends takes no token. -/
theorem joins_eq_false_of_blocks {pass : Pass} {text : Text}
    (h : Blocks [] pass.needle text) : joins [] pass text = false :=
  joins_eq_false_of_none h.2

/-- **The scan for a key cuts the words that it does not take, unless it gets stuck.** -/
theorem keyPass_eq (char : α → Char) (mark : List α) (pass : Pass) (armed : Bool)
    (ps : List (Chunk α)) :
    (((notTaken (fun p => joins [] pass (textOf char p)) (spaced char) armed ps).IsChain fun p q =>
        Blocks [] pass.needle (textOf char p) → isNarrow char q = true) →
      keyPass char mark pass armed ps =
        some ((notTaken (fun p => joins [] pass (textOf char p)) (spaced char) armed ps).map
          (cutPiece char mark [pass.needle]))) ∧
    (¬ ((notTaken (fun p => joins [] pass (textOf char p)) (spaced char) armed ps).IsChain
        fun p q => Blocks [] pass.needle (textOf char p) → isNarrow char q = true) →
      keyPass char mark pass armed ps = none) := by
  induction ps generalizing armed with
  | nil => exact ⟨fun _ => rfl, fun h => absurd List.IsChain.nil h⟩
  | cons p ps ih =>
      rw [notTaken, keyPass]
      by_cases htaken : (armed && spaced char p) = true
      · rw [if_pos htaken, if_pos htaken]
        exact ih false
      rw [if_neg htaken, if_neg htaken, List.isChain_cons]
      obtain ⟨hsome, hnone⟩ := ih (joins [] pass (textOf char p))
      by_cases hstuck : Blocks [] pass.needle (textOf char p) ∧
          ps.head?.all (isNarrow char) = false
      · refine ⟨fun h => ?_, fun _ => if_pos hstuck⟩
        have hnext := h.1
        rw [joins_eq_false_of_blocks hstuck.1, head?_notTaken] at hnext
        have hall := (all_isNarrow_iff ps).mpr fun q hq => hnext q hq hstuck.1
        rw [hstuck.2] at hall
        cases hall
      · have hfirst : ∀ q ∈ (notTaken (fun p => joins [] pass (textOf char p)) (spaced char)
            (joins [] pass (textOf char p)) ps).head?,
            Blocks [] pass.needle (textOf char p) → isNarrow char q = true := by
          intro q hq hblocks
          rw [joins_eq_false_of_blocks hblocks, head?_notTaken] at hq
          refine (all_isNarrow_iff ps).mp ?_ q hq
          by_contra hwide
          exact hstuck ⟨hblocks, Bool.eq_false_iff.mpr hwide⟩
        rw [if_neg hstuck]
        refine ⟨fun h => ?_, fun h => ?_⟩
        · rw [hsome h.2]
          rfl
        · rw [hnone fun hchain => h ⟨hfirst, hchain⟩]
          rfl

/-- **The scan for bearer tokens puts the mark for the tokens, unless it gets stuck.** -/
theorem bearerPass_eq (char : α → Char) (mark : List α) (armed : Bool) (ps : List (Chunk α)) :
    (((takeMarks (fun p => bears [] (textOf char p)) (spaced char) armed ps).IsChain fun p q =>
        p.2 = true → p.1.word = [] → isNarrow char q.1 = true) →
      bearerPass char mark armed ps =
        some ((takeMarks (fun p => bears [] (textOf char p)) (spaced char) armed ps).map
          (finish char mark []))) ∧
    (¬ ((takeMarks (fun p => bears [] (textOf char p)) (spaced char) armed ps).IsChain fun p q =>
        p.2 = true → p.1.word = [] → isNarrow char q.1 = true) →
      bearerPass char mark armed ps = none) := by
  induction ps generalizing armed with
  | nil => exact ⟨fun _ => rfl, fun h => absurd List.IsChain.nil h⟩
  | cons p ps ih =>
      rw [takeMarks, bearerPass, List.isChain_cons, List.map_cons]
      have hsame : cutPiece char mark [] p = p := by rw [cutPiece, cutWord_nil_needles]
      by_cases htaken : (armed && spaced char p) = true
      · rw [htaken, if_pos rfl, Bool.not_true, Bool.false_and]
        obtain ⟨hsome, hnone⟩ := ih false
        by_cases hempty : p.word = []
        · have hchunk : finish char mark [] (p, true) = p := by
            rw [finish, if_neg fun h => h.2 hempty, hsame]
          rw [if_pos hempty, hchunk]
          by_cases hnarrow : ps.head?.all (isNarrow char) = true
          · rw [if_pos hnarrow]
            refine ⟨fun h => by rw [hsome h.2]; rfl, fun h => ?_⟩
            rw [hnone fun hchain => h ⟨fun q hq _ _ =>
              (all_isNarrow_iff_takeMarks _ false ps).mp hnarrow q hq, hchain⟩]
            rfl
          · rw [if_neg hnarrow]
            refine ⟨fun h => absurd ?_ hnarrow, fun _ => rfl⟩
            exact (all_isNarrow_iff_takeMarks _ false ps).mpr fun q hq => h.1 q hq rfl hempty
        · have hchunk : finish char mark [] (p, true) = { p with word := mark } := by
            rw [finish, if_pos ⟨rfl, hempty⟩]
          rw [if_neg hempty, hchunk]
          refine ⟨fun h => by rw [hsome h.2]; rfl, fun h => ?_⟩
          rw [hnone fun hchain => h ⟨fun _ _ _ hnil => absurd hnil hempty, hchain⟩]
          rfl
      · obtain ⟨hsome, hnone⟩ := ih (bears [] (textOf char p))
        have hchunk : finish char mark [] (p, false) = p := by
          rw [finish, if_neg fun h => Bool.false_ne_true h.1, hsame]
        rw [Bool.eq_false_iff.mpr htaken, if_neg Bool.false_ne_true, hchunk, Bool.not_false,
          Bool.true_and]
        refine ⟨fun h => by rw [hsome h.2]; rfl, fun h => ?_⟩
        rw [hnone fun hchain => h ⟨fun _ _ hfalse => absurd hfalse Bool.false_ne_true, hchain⟩]
        rfl

/-! ## The whole text -/

theorem isWords_words (text : List α) : IsWords char (words char text) := by
  obtain ⟨w, qs, hsplit, hw, hqs⟩ := Chunk.exists_split_eq_cons (isEnd char) none text
  refine ⟨w, qs, hsplit, fun c hc => ?_, hqs⟩
  obtain ⟨a, ha, rfl⟩ := List.mem_map.mp hc
  exact hw a ha

theorem join_words (text : List α) : Chunk.join (words char text) = text :=
  Chunk.join_split (isEnd char) none text

theorem IsWords.leftBy {ps : List (Chunk α)} (h : IsWords char ps) (done : List Text)
    (pass : Pass) : IsWords char (leftBy char done pass ps) := by
  obtain ⟨w, qs, rfl, hw, hqs⟩ := h.first
  exact ⟨w, _, rfl, hw, fun q hq => hqs q (mem_of_mem_notTaken hq)⟩

theorem isWords_map_cutPiece (hmark : mark.map char = REDACTED) (done : List Text)
    {ps : List (Chunk α)} (h : IsWords char ps) :
    IsWords char (ps.map (cutPiece char mark done)) := by
  obtain ⟨w, qs, rfl, hw, hqs⟩ := h.first
  refine ⟨_, _, rfl, isWord_cutWord hmark hw, fun q hq => ?_⟩
  obtain ⟨p, hp, rfl⟩ := List.mem_map.mp hq
  refine ⟨(hqs p hp).lead, fun a ha => ?_⟩
  exact isWord_cutWord hmark (isWord_textOf (hqs p hp)) (char a) (List.mem_map_of_mem ha)

/-- The words that a scan leaves of words that are cut. -/
theorem notTaken_map_cutPiece (hmark : mark.map char = REDACTED) (done : List Text) (pass : Pass)
    (ps : List (Chunk α)) :
    notTaken (fun p => joins [] pass (textOf char p)) (spaced char) false
        (ps.map (cutPiece char mark done)) =
      (leftBy char done pass ps).map (cutPiece char mark done) :=
  notTaken_map (cutPiece char mark done) ps (fun _ _ => joins_cutWord hmark) (fun _ _ => rfl) false

theorem takeMarks_map_cutPiece (hmark : mark.map char = REDACTED) (done : List Text)
    (ps : List (Chunk α)) :
    takeMarks (fun p => bears [] (textOf char p)) (spaced char) false
        (ps.map (cutPiece char mark done)) =
      (bearerMarks char done ps).map (Prod.map (cutPiece char mark done) id) :=
  takeMarks_map (cutPiece char mark done) ps (fun _ _ => bears_cutWord hmark) (fun _ _ => rfl) false

theorem cutPiece_cutPiece (hmark : mark.map char = REDACTED) {needle : Text}
    (hneedle : IsNeedle needle) (done : List Text) (p : Chunk α) :
    cutPiece char mark [needle] (cutPiece char mark done p) =
      cutPiece char mark (done ++ [needle]) p := by
  have hall : ∀ k ∈ [needle], IsNeedle k := by simpa using hneedle
  rw [cutPiece, cutPiece, cutPiece, cutWord_cutWord hmark hall]

theorem finish_cutPiece (hmark : mark.map char = REDACTED) (done : List Text)
    (p : Chunk α × Bool) :
    finish char mark [] (Prod.map (cutPiece char mark done) id p) = finish char mark done p := by
  have hnil : (cutPiece char mark done p.1).word = [] ↔ p.1.word = [] := cutWord_eq_nil_iff hmark
  by_cases h : p.2 = true ∧ p.1.word ≠ []
  · rw [finish, finish, if_pos h, if_pos ⟨h.1, fun hcut => h.2 (hnil.mp hcut)⟩]
    rfl
  · rw [finish, finish, if_neg h, if_neg fun hcut => h ⟨hcut.1, fun hw => hcut.2 (hnil.mpr hw)⟩]
    show cutPiece char mark [] (cutPiece char mark done p.1) = cutPiece char mark done p.1
    rw [cutPiece, cutWord_nil_needles]

/-- **The scans that are left, from words that the scans before have cut.** -/
theorem redactPasses_join (hmark : mark.map char = REDACTED) (rest : List Pass)
    (hrest : ∀ pass ∈ rest, IsNeedle pass.needle) (done : List Text) {ps : List (Chunk α)}
    (hps : IsWords char ps) :
    (ClearOfBlanks char done rest ps →
      (redactPasses char mark rest (Chunk.join (ps.map (cutPiece char mark done)))).bind
          (redactBearerToken char mark) =
        .returned (Chunk.join ((bearerMarks char (done ++ rest.map Pass.needle)
          (leftByAll char done rest ps)).map
            (finish char mark (done ++ rest.map Pass.needle))))) ∧
    (¬ ClearOfBlanks char done rest ps →
      (redactPasses char mark rest (Chunk.join (ps.map (cutPiece char mark done)))).bind
        (redactBearerToken char mark) = .panicked) := by
  induction rest generalizing done ps with
  | nil =>
      have hscan := redactScan_join_bearerPass mark (isWords_map_cutPiece hmark done hps)
      obtain ⟨hsome, hnone⟩ := bearerPass_eq char mark false
        (ps.map (cutPiece char mark done))
      rw [takeMarks_map_cutPiece hmark, List.isChain_map] at hsome hnone
      have hchain : (bearerMarks char done ps).IsChain (fun p q =>
          (Prod.map (cutPiece char mark done) id p).2 = true →
            (Prod.map (cutPiece char mark done) id p).1.word = [] →
            isNarrow char (Prod.map (cutPiece char mark done) id q).1 = true) ↔
          ClearOfBlanks char done [] ps := by
        have hnil (p : Chunk α) : (cutPiece char mark done p).word = [] ↔ p.word = [] :=
          cutWord_eq_nil_iff hmark
        simp only [Prod.map_fst, Prod.map_snd, id_eq, hnil]
        rfl
      rw [hchain] at hsome hnone
      rw [redactPasses, Outcome.bind_returned, hscan, List.map_nil, List.append_nil, leftByAll]
      refine ⟨fun h => ?_, fun h => ?_⟩
      · rw [hsome h, List.map_map]
        simp only [Function.comp_def, finish_cutPiece hmark]
        rfl
      · rw [hnone h]
        rfl
  | cons pass rest ih =>
      have hneedle := hrest pass List.mem_cons_self
      have hscan := redactScan_join_keyPass mark (isWords_map_cutPiece hmark done hps) hneedle
      obtain ⟨hsome, hnone⟩ := keyPass_eq char mark pass false
        (ps.map (cutPiece char mark done))
      rw [notTaken_map_cutPiece hmark, List.isChain_map] at hsome hnone
      have hchain : ((leftBy char done pass ps).IsChain fun p q =>
          Blocks [] pass.needle (textOf char (cutPiece char mark done p)) →
            isNarrow char (cutPiece char mark done q) = true) ↔
          (leftBy char done pass ps).IsChain fun p q =>
            Blocks done pass.needle (textOf char p) → isNarrow char q = true := by
        simp only [textOf_cutPiece, blocks_cutWord_iff hmark hneedle]
        rfl
      rw [hchain] at hsome hnone
      obtain ⟨hclear, hstuck⟩ := ih (fun p hp => hrest p (List.mem_cons_of_mem pass hp))
        (done ++ [pass.needle]) (hps.leftBy done pass)
      rw [redactPasses, hscan, ClearOfBlanks, leftByAll, List.map_cons,
        List.append_cons done pass.needle (rest.map Pass.needle)]
      have hcut : ((leftBy char done pass ps).map (cutPiece char mark done)).map
          (cutPiece char mark [pass.needle]) =
          (leftBy char done pass ps).map (cutPiece char mark (done ++ [pass.needle])) := by
        rw [List.map_map]
        simp only [Function.comp_def, cutPiece_cutPiece hmark hneedle]
      by_cases hpass : (leftBy char done pass ps).IsChain fun p q =>
          Blocks done pass.needle (textOf char p) → isNarrow char q = true
      · rw [hsome hpass, hcut, Option.map_some, Outcome.ofOption_some, Outcome.bind_returned]
        exact ⟨fun h => hclear h.2, fun h => hstuck fun hrest => h ⟨hpass, hrest⟩⟩
      · rw [hnone hpass]
        exact ⟨fun h => absurd h.1 hpass, fun _ => rfl⟩

/-- **What becomes of a text that is not JSON.** -/
theorem redactText_eq (char : α → Char) {mark : List α} (hmark : mark.map char = REDACTED)
    (text : List α) :
    (ClearOfBlanks char [] passes (words char text) → redactText char mark text =
      .returned (Chunk.join ((bearerMarks char needles
        (leftByAll char [] passes (words char text))).map (finish char mark needles)))) ∧
    (¬ ClearOfBlanks char [] passes (words char text) →
      redactText char mark text = .panicked) := by
  have h := redactPasses_join hmark passes isNeedle_of_mem_passes [] (isWords_words text)
  have hcut : (words char text).map (cutPiece char mark []) = words char text := by
    have hid : cutPiece char mark [] = id := by
      funext p
      rw [cutPiece, cutWord_nil_needles]
      rfl
    rw [hid, List.map_id]
  rw [hcut, join_words] at h
  rw [redactText, redactAfterKeys_eq]
  exact h

end Words

/-! ## The preview -/

/-- No scan of the text comes to a needle that a terminator of several bytes follows. -/
def IsClear (text : Text) : Prop := ClearOfBlanks id [] passes (words id text)

/-- **The scans always end, and the preview is made for JSON and for texts that are clear.** -/
theorem sanitizePreview_returns_iff (json : SerdeJson) (text : Text) (maxChars : Nat) :
    sanitizePreview json text maxChars ≠ .outOfFuel ∧
      ((∃ preview, sanitizePreview json text maxChars = .returned preview) ↔
        (∃ value, json.fromStr text = .ok value) ∨ IsClear text) := by
  rw [sanitizePreview, redactSensitiveValues]
  cases hjson : json.fromStr text with
  | ok value => exact ⟨nofun, iff_of_true ⟨_, rfl⟩ (.inl ⟨value, rfl⟩)⟩
  | error e =>
      obtain ⟨hclear, hstuck⟩ := redactText_eq id (List.map_id REDACTED) text
      by_cases h : IsClear text
      · simp only [hclear h]
        exact ⟨nofun, iff_of_true ⟨_, rfl⟩ (.inr h)⟩
      · simp only [hstuck h]
        refine ⟨nofun, iff_of_false (fun ⟨preview, hpreview⟩ => by cases hpreview) ?_⟩
        rintro (⟨value, hvalue⟩ | hc)
        · cases hvalue
        · exact h hc

/-- No text is JSON. -/
def noJson : SerdeJson := ⟨fun _ => .error [], fun _ => []⟩

/-- A key in front of a blank of two bytes stops the preview. -/
theorem sanitizePreview_panics : ¬ ∀ (json : SerdeJson) (text : Text) (maxChars : Nat),
    ∃ preview, sanitizePreview json text maxChars = .returned preview := by
  intro h
  obtain ⟨preview, hpreview⟩ := h noJson "token=\u00a0x" 80
  have hpanic : redactText id REDACTED "token=\u00a0x" = .panicked := by decide +kernel
  rw [sanitizePreview, redactSensitiveValues, show noJson.fromStr "token=\u00a0x" = .error []
    from rfl] at hpreview
  simp only [hpanic] at hpreview
  cases hpreview

end Telemetry
end SimpleClaw
