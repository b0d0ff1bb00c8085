import SimpleClaw.Telemetry.Tracking

/-!
# Words behind `bearer`

Whether a scan takes the word behind some words depends on the last of them that is left.  If that
one does not end with `bearer` or is cut, nothing is taken, and it stays so whatever the scans take
away, because a scan that takes a word cuts the one before it.

* `Settled`: the last word does not end with `bearer` or is cut, with `Settled.leftBy`.
* `not_takenBy_of_settled`: nothing is taken behind such words.
* `takenBy_concat_bearer`: behind the word `bearer` alone a token is taken.
* `takenBy_iff_armedAfter`: behind `authorization`, a separator and `bearer` in one word a token is
  taken if the scan for that key and separator takes it.
-/

namespace SimpleClaw
namespace Telemetry

open Text

section Settled

variable {α : Type*} {char : α → Char}

/-- The last of the words does not end with `bearer`, or it is cut. -/
def Settled (char : α → Char) (done : List Text) (ps : List (Chunk α)) : Prop :=
  ∀ q, ps.getLast? = some q → ("bearer" : Text) <:+ toAsciiLowercase (textOf char q) →
    cutLength done (textOf char q) ≠ none

theorem settled_concat {done : List Text} {ps : List (Chunk α)} {q : Chunk α} :
    Settled char done (ps ++ [q]) ↔ (("bearer" : Text) <:+ toAsciiLowercase (textOf char q) →
      cutLength done (textOf char q) ≠ none) := by
  simp [Settled]

/-- Where the last word takes nothing, neither do the words. -/
theorem armedAfter_eq_false {β : Type*} {takes takeable : β → Bool} {bs : List β}
    (h : ∀ b, bs.getLast? = some b → takes b = false) :
    armedAfter takes takeable false bs = false := by
  obtain rfl | ⟨front, last, rfl⟩ := List.eq_nil_or_concat' bs
  · rfl
  · exact armedAfter_concat_of_not (h last (by simp)) false front

theorem Settled.joins {done : List Text} {ps : List (Chunk α)} (h : Settled char done ps)
    (pass : Pass) :
    armedAfter (fun p => joins done pass (textOf char p)) (spaced char) false ps = false := by
  refine armedAfter_eq_false fun q hq => Bool.eq_false_iff.mpr fun hjoins => ?_
  exact h q hq (bearer_suffix_of_joins hjoins) (joins_iff.mp hjoins).2.1

theorem Settled.bears {done : List Text} {ps : List (Chunk α)} (h : Settled char done ps) :
    armedAfter (fun p => bears done (textOf char p)) (spaced char) false ps = false := by
  refine armedAfter_eq_false fun q hq => Bool.eq_false_iff.mpr fun hbears => ?_
  obtain ⟨hnone, hsuffix⟩ := bears_iff.mp hbears
  exact h q hq hsuffix hnone

/-- The word that takes the next one is left, and it is cut. -/
theorem settled_leftBy_of_armedAfter {done : List Text} {pass : Pass} {ps : List (Chunk α)}
    (h : armedAfter (fun p => Telemetry.joins done pass (textOf char p)) (spaced char) false ps =
      true) : Settled char (done ++ [pass.needle]) (leftBy char done pass ps) := by
  obtain rfl | ⟨front, last, rfl⟩ := List.eq_nil_or_concat' ps
  · cases h
  · rw [armedAfter_append, armedAfter, armedAfter, Bool.and_eq_true, Bool.not_eq_true'] at h
    rw [Telemetry.leftBy, notTaken_append, notTaken_cons_of_not h.1, notTaken_nil, settled_concat]
    intro _ hnone
    obtain ⟨-, -, n, hsome, -⟩ := joins_iff.mp h.2
    rw [cutLength_append_eq_none_iff, hsome] at hnone
    cases hnone.2

/-- What a scan leaves of words with a word behind them. -/
theorem leftBy_concat (done : List Text) (pass : Pass) (ps : List (Chunk α)) (q : Chunk α) :
    leftBy char done pass (ps ++ [q]) = leftBy char done pass ps ++ [q] ∨
      leftBy char done pass (ps ++ [q]) = leftBy char done pass ps ∧
        Settled char (done ++ [pass.needle]) (leftBy char done pass ps) := by
  cases harmed : armedAfter (fun p => joins done pass (textOf char p)) (spaced char) false ps with
  | false =>
      left
      rw [leftBy, notTaken_append, harmed, notTaken_cons_of_not (Bool.false_and _), notTaken_nil]
      rfl
  | true =>
      by_cases hspaced : spaced char q = true
      · right
        refine ⟨?_, settled_leftBy_of_armedAfter harmed⟩
        rw [leftBy, notTaken_append, harmed, notTaken_cons_of_taken hspaced, notTaken_nil,
          List.append_nil]
        rfl
      · left
        rw [leftBy, notTaken_append, harmed,
          notTaken_cons_of_not
            (Bool.eq_false_iff.mpr fun h => hspaced ((Bool.and_eq_true _ _).mp h).2),
          notTaken_nil]
        rfl

theorem cutLength_append_ne_none {done : List Text} {text : Text} (h : cutLength done text ≠ none)
    (more : List Text) : cutLength (done ++ more) text ≠ none := by
  rw [ne_eq, cutLength_append_eq_none_iff]
  exact fun hboth => h hboth.1

/-- **Words that are settled stay so.** -/
theorem Settled.leftBy {done : List Text} {ps : List (Chunk α)} (h : Settled char done ps)
    (pass : Pass) : Settled char (done ++ [pass.needle]) (leftBy char done pass ps) := by
  obtain rfl | ⟨front, last, rfl⟩ := List.eq_nil_or_concat' ps
  · intro q hq
    cases hq
  · obtain hleft | ⟨hleft, hsettled⟩ := @leftBy_concat _ char done pass front last
    · rw [hleft, settled_concat]
      exact fun hsuffix => cutLength_append_ne_none (settled_concat.mp h hsuffix) _
    · rwa [hleft]

/-- **Behind words that are settled nothing is taken.** -/
theorem not_takenBy_of_settled (rest : List Pass) (done : List Text) {ps : List (Chunk α)}
    (h : Settled char done ps) : ¬ TakenBy char done rest ps := by
  induction rest generalizing done ps with
  | nil =>
      rw [TakenBy, h.bears]
      exact Bool.false_ne_true
  | cons pass rest ih =>
      rw [TakenBy, h.joins pass, not_or]
      exact ⟨Bool.false_ne_true, ih (done ++ [pass.needle]) (h.leftBy pass)⟩

/-! ## The word `bearer` -/

/-- No key cuts the word `bearer`. -/
theorem cutLength_bearer {keys : List Text} (hkeys : ∀ needle ∈ keys, IsNeedle needle) {text : Text}
    (h : toAsciiLowercase text = "bearer".toList) : cutLength keys text = none := by
  rw [cutLength_eq_none_iff]
  intro n _ hends
  obtain ⟨front, sep, htake, hsep⟩ := hends.exists_eq_concat hkeys
  have hmem : sep ∈ text := by
    refine List.mem_of_mem_take (i := n) ?_
    rw [htake]
    exact List.mem_append_right _ List.mem_cons_self
  have hlower : sep.toLower ∈ ("bearer" : Text) := h ▸ List.mem_map_of_mem hmem
  obtain rfl | rfl := hsep
  · exact absurd hlower (by decide)
  · exact absurd hlower (by decide)

/-- **Behind the word `bearer` a token is taken, if no scan takes that word.** -/
theorem takenBy_concat_bearer (rest : List Pass) (hrest : ∀ pass ∈ rest, IsNeedle pass.needle)
    (done : List Text) (hdone : ∀ needle ∈ done, IsNeedle needle) {ps : List (Chunk α)}
    (hps : Settled char done ps) {q : Chunk α}
    (hq : toAsciiLowercase (textOf char q) = "bearer".toList) :
    TakenBy char done rest (ps ++ [q]) := by
  induction rest generalizing done ps with
  | nil =>
      have hbears : bears done (textOf char q) = true :=
        bears_iff.mpr ⟨cutLength_bearer hdone hq, hq ▸ List.suffix_rfl⟩
      rw [TakenBy, armedAfter_append, hps.bears, armedAfter, armedAfter, hbears]
      rfl
  | cons pass rest ih =>
      have hleft : leftBy char done pass (ps ++ [q]) = leftBy char done pass ps ++ [q] := by
        rw [leftBy, notTaken_append, hps.joins pass, notTaken_cons_of_not (Bool.false_and _),
          notTaken_nil]
        rfl
      right
      rw [hleft]
      refine ih (fun p hp => hrest p (List.mem_cons_of_mem pass hp)) _ (fun needle hneedle => ?_)
        (hps.leftBy pass)
      obtain hneedle | hneedle := List.mem_append.mp hneedle
      · exact hdone needle hneedle
      · rw [List.mem_singleton.mp hneedle]
        exact hrest pass List.mem_cons_self

/-! ## `authorization` and `bearer` in one word -/

/-- The last word is this one, or the words are settled. -/
def EndsAt (char : α → Char) (q : Chunk α) (done : List Text) (ps : List (Chunk α)) : Prop :=
  (∃ front, ps = front ++ [q]) ∨ Settled char done ps

theorem EndsAt.leftBy {q : Chunk α} {done : List Text} {ps : List (Chunk α)}
    (h : EndsAt char q done ps) (pass : Pass) :
    EndsAt char q (done ++ [pass.needle]) (leftBy char done pass ps) := by
  obtain ⟨front, rfl⟩ | h := h
  · obtain hleft | ⟨hleft, hsettled⟩ := @leftBy_concat _ char done pass front q
    · exact .inl ⟨_, hleft⟩
    · exact .inr (hleft ▸ hsettled)
  · exact .inr (h.leftBy pass)

/-- A scan that takes nothing behind the word takes nothing behind the words. -/
theorem EndsAt.armedAfter {q : Chunk α} {done : List Text} {ps : List (Chunk α)}
    (h : EndsAt char q done ps) {pass : Pass}
    (hjoins : Telemetry.joins done pass (textOf char q) = false) :
    armedAfter (fun p => Telemetry.joins done pass (textOf char p)) (spaced char) false ps =
      false := by
  obtain ⟨front, rfl⟩ | h := h
  · refine armedAfter_eq_false fun p hp => ?_
    rw [List.getLast?_concat] at hp
    rw [← Option.some.inj hp]
    exact hjoins
  · exact h.joins pass

/-- **Only the scan for the key in front of `bearer` takes what is behind.** -/
theorem takenBy_iff_armedAfter {q : Chunk α} (earlier later : List Pass) (pass : Pass)
    (hearlier : ∀ k ∈ earlier, ∀ done, joins done k (textOf char q) = false)
    (hcut : cutLength [pass.needle] (textOf char q) ≠ none) (done : List Text) {ps : List (Chunk α)}
    (hps : EndsAt char q done ps) :
    TakenBy char done (earlier ++ pass :: later) ps ↔
      armedAfter (fun p => joins (done ++ earlier.map Pass.needle) pass (textOf char p))
        (spaced char) false (leftByAll char done earlier ps) = true := by
  induction earlier generalizing done ps with
  | nil =>
      have hsettled : Settled char (done ++ [pass.needle]) (leftBy char done pass ps) := by
        obtain ⟨front, rfl⟩ | h := hps
        · obtain hleft | ⟨hleft, hsettled⟩ := @leftBy_concat _ char done pass front q
          · rw [hleft, settled_concat]
            intro _ hnone
            exact hcut (cutLength_append_eq_none_iff.mp hnone).2
          · exact hleft ▸ hsettled
        · exact h.leftBy pass
      rw [List.nil_append, TakenBy, List.map_nil, List.append_nil, leftByAll]
      exact or_iff_left (not_takenBy_of_settled later _ hsettled)
  | cons k earlier ih =>
      have hfirst := hps.armedAfter (hearlier k List.mem_cons_self done)
      rw [List.cons_append, TakenBy, hfirst, leftByAll, List.map_cons,
        List.append_cons done k.needle (earlier.map Pass.needle)]
      rw [or_iff_right Bool.false_ne_true]
      exact ih (fun k' hk' => hearlier k' (List.mem_cons_of_mem k hk')) _ (hps.leftBy k)

end Settled

end Telemetry
end SimpleClaw
