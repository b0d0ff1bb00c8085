import SimpleClaw.Lib.ByteSlice

/-!
# The query for recall

Before memory is searched with a message, what it is addressed with is stripped off: mentions, and
the agent's name or id, again and again.  A name is compared with the first bytes of the text, as
many as the name has.

* `normalizeRecallQuery`: the stripping loop, with the slices that can panic.
* `Strips`: what one round strips off.
* `NoSplit`: no comparison of a round ends within a character.
* `normalizes_iff_noSplit`: the loop returns exactly if that is so of every text it comes to.
-/

namespace SimpleClaw
namespace Turn

/-! ## The functions -/

/-- A slice at a byte that is no character boundary. -/
structure SlicePanic where
  value : Text
  index : Nat
  deriving DecidableEq

/-- `&value[..index]` and `&value[index..]`. -/
def splitAtByte (value : Text) (index : Nat) : Except SlicePanic (Text × Text) :=
  match value.splitBytes index with
  | some split => .ok split
  | none => .error ⟨value, index⟩

def stripLeadingDiscordMention (value : Text) : Except SlicePanic (Option Text) :=
  match value.stripPrefix "<@" with
  | none => .ok none
  | some rest =>
      match rest.findByte '>' with
      | none => .ok none
      | some close => (splitAtByte rest (close + 1)).map fun split => some split.2

/-- What may follow a name. -/
def endsToken (c : Char) : Bool :=
  Text.isWhiteSpace c || c = ':' || c = ',' || c = '!' || c = '?' || c = '.'

def startsWithNameToken (value name : Text) : Except SlicePanic (Option Nat) :=
  if value.utf8Len < name.utf8Len then .ok none
  else
    match splitAtByte value name.utf8Len with
    | .error panic => .error panic
    | .ok (front, rest) =>
        if front.toAsciiLowercase ≠ name.toAsciiLowercase then .ok none
        else if value.utf8Len = name.utf8Len then .ok (some name.utf8Len)
        else
          match rest with
          | [] => .ok none
          | next :: _ => if endsToken next then .ok (some name.utf8Len) else .ok none

def stripLeadingNameToken (value name : Text) : Except SlicePanic (Option Text) :=
  let trimmedName := name.trim
  if trimmedName = [] then .ok none
  else
    match startsWithNameToken value trimmedName with
    | .error panic => .error panic
    | .ok none => .ok none
    | .ok (some prefixLen) => (splitAtByte value prefixLen).map fun split => some split.2

def stripLeadingAtName (value name : Text) : Except SlicePanic (Option Text) :=
  let trimmedName := name.trim
  if trimmedName = [] then .ok none
  else
    match value.stripPrefix "@" with
    | none => .ok none
    | some rest => stripLeadingNameToken rest trimmedName

/-- `or_else` of two attempts that may panic. -/
def orElse (first second : Except SlicePanic (Option Text)) : Except SlicePanic (Option Text) :=
  match first with
  | .error panic => .error panic
  | .ok (some stripped) => .ok (some stripped)
  | .ok none => second

/-- One round: the text after what it is addressed with. -/
def nextStripped (agentName agentId remaining : Text) : Except SlicePanic (Option Text) :=
  orElse (stripLeadingDiscordMention remaining)
    (orElse (stripLeadingAtName remaining agentName)
      (orElse (stripLeadingNameToken remaining agentName)
        (stripLeadingNameToken remaining agentId)))

/-- What is dropped after a name. -/
def isSeparator (c : Char) : Bool :=
  Text.isWhiteSpace c || c = ':' || c = ',' || c = '!' || c = '?' || c = '.' || c = ';' || c = '-'

/-- The loop, with the rounds it may still make; `none` when there are too few. -/
def stripLoop (agentName agentId : Text) : Nat → Text → Option (Except SlicePanic Text)
  | 0, _ => none
  | rounds + 1, remaining =>
      match nextStripped agentName agentId remaining with
      | .error panic => some (.error panic)
      | .ok none => some (.ok remaining.trim)
      | .ok (some stripped) =>
          if stripped = remaining then some (.ok remaining.trim)
          else
            let remaining := stripped.dropWhile isSeparator
            if remaining = [] then some (.ok (Text.trim remaining))
            else stripLoop agentName agentId rounds remaining

def normalizeRecallQuery (rounds : Nat) (query agentName agentId : Text) :
    Option (Except SlicePanic Text) :=
  let remaining := query.trim
  if remaining = [] then some (.ok [])
  else stripLoop agentName agentId rounds remaining

/-! ## What is stripped off -/

/-- The text is a mention and the rest. -/
def Mention (value rest : Text) : Prop :=
  ∃ inner : Text, '>' ∉ inner ∧ value = ("<@" : Text) ++ inner ++ '>' :: rest

/-- The text is a name, in letters of either case, and a rest that the name does not go on in. -/
structure NameToken (name value rest : Text) : Prop where
  ne_nil : name ≠ []
  front : ∃ front : Text, value = front ++ rest ∧
    front.toAsciiLowercase = name.toAsciiLowercase
  ends : ∀ c ∈ rest.head?, endsToken c = true

def AtName (name value rest : Text) : Prop :=
  ∃ after, value = '@' :: after ∧ NameToken name after rest

/-- The one, or if there is none of it the other. -/
def FirstOf (P Q : Text → Prop) (rest : Text) : Prop := P rest ∨ (∀ r, ¬ P r) ∧ Q rest

/-- What one round strips off. -/
def Strips (agentName agentId value : Text) : Text → Prop :=
  FirstOf (Mention value) (FirstOf (AtName agentName.trim value)
    (FirstOf (NameToken agentName.trim value) (NameToken agentId.trim value)))

/-- The texts the rounds come to. -/
inductive Reaches (agentName agentId : Text) : Text → Text → Prop where
  | refl (value : Text) : Reaches agentName agentId value value
  | step {value rest later : Text} (hstrips : Strips agentName agentId value rest)
      (hreaches : Reaches agentName agentId (rest.dropWhile isSeparator) later) :
      Reaches agentName agentId value later

/-- **No comparison of a round ends within a character**: not that of the name after an `@`, nor
that of the name, nor that of the id, as far as the round comes to them. -/
structure NoSplit (agentName agentId value : Text) : Prop where
  atName : (∀ r, ¬ Mention value r) → ∀ after : Text, value = '@' :: after →
    ¬ after.Straddles agentName.trim.utf8Len
  name : (∀ r, ¬ Mention value r) → (∀ r, ¬ AtName agentName.trim value r) →
    ¬ value.Straddles agentName.trim.utf8Len
  agentId : (∀ r, ¬ Mention value r) → (∀ r, ¬ AtName agentName.trim value r) →
    (∀ r, ¬ NameToken agentName.trim value r) → ¬ value.Straddles agentId.trim.utf8Len

/-! ## One attempt -/

def Returns (x : Except SlicePanic (Option Text)) : Prop := ∃ result, x = .ok result

section Attempts

variable {value name rest agentName agentId : Text}

theorem splitAtByte_eq_ok_iff {index : Nat} {front : Text} :
    splitAtByte value index = .ok (front, rest) ↔
      value = front ++ rest ∧ front.utf8Len = index := by
  rw [← Text.splitBytes_eq_some_iff, splitAtByte]
  split
  · next split hsplit =>
    rw [hsplit, Except.ok.injEq, Option.some.injEq]
  · next hsplit =>
    rw [hsplit]
    exact iff_of_false (fun h => by cases h) (fun h => by cases h)

/-- The character at a byte is cut off with what is before it. -/
theorem splitAtByte_close (p s : Text) :
    splitAtByte (p ++ '>' :: s) (p.utf8Len + 1) = .ok (p ++ ['>'], s) := by
  refine splitAtByte_eq_ok_iff.mpr ⟨by simp, ?_⟩
  rw [Text.utf8Len_append]
  rfl

theorem returns_stripLeadingDiscordMention (value : Text) :
    Returns (stripLeadingDiscordMention value) := by
  rw [stripLeadingDiscordMention]
  split
  · exact ⟨_, rfl⟩
  · split
    · exact ⟨_, rfl⟩
    · next close hclose =>
      obtain ⟨p, s, rfl, -, rfl⟩ := Text.exists_append_of_findByte hclose
      rw [splitAtByte_close]
      exact ⟨_, rfl⟩

theorem stripLeadingDiscordMention_eq_some_iff :
    stripLeadingDiscordMention value = .ok (some rest) ↔ Mention value rest := by
  rw [stripLeadingDiscordMention]
  constructor
  · intro h
    split at h
    · cases h
    · next inner hinner =>
      rw [Text.stripPrefix_eq_some_iff] at hinner
      split at h
      · cases h
      · next close hclose =>
        obtain ⟨p, s, rfl, hnot, rfl⟩ := Text.exists_append_of_findByte hclose
        rw [splitAtByte_close] at h
        obtain rfl := Option.some.inj (Except.ok.inj h)
        exact ⟨p, hnot, by rw [hinner, List.append_assoc]⟩
  · rintro ⟨inner, hnot, rfl⟩
    have hstrip : Text.stripPrefix (("<@" : Text) ++ inner ++ '>' :: rest) "<@" =
        some (inner ++ '>' :: rest) :=
      Text.stripPrefix_eq_some_iff.mpr (List.append_assoc _ _ _)
    rw [hstrip]
    simp only [Text.findByte_append_cons hnot, splitAtByte_close]
    rfl

/-- A name takes the bytes it is compared with. -/
theorem NameToken.splitAtByte (h : NameToken name value rest) :
    ∃ front, splitAtByte value name.utf8Len = .ok (front, rest) ∧
      front.toAsciiLowercase = name.toAsciiLowercase := by
  obtain ⟨front, rfl, hfront⟩ := h.front
  refine ⟨front, splitAtByte_eq_ok_iff.mpr ⟨rfl, ?_⟩, hfront⟩
  rw [← Text.utf8Len_toAsciiLowercase front, hfront, Text.utf8Len_toAsciiLowercase]

/-- What the comparison of a name comes to. -/
inductive NameOutcome (value name : Text) : Except SlicePanic (Option Nat) → Prop where
  | panic {panic} (h : value.Straddles name.utf8Len) : NameOutcome value name (.error panic)
  | none (hsplit : ¬ value.Straddles name.utf8Len) (h : ∀ rest, ¬ NameToken name value rest) :
      NameOutcome value name (.ok none)
  | some {front rest} (hsplit : splitAtByte value name.utf8Len = .ok (front, rest))
      (h : NameToken name value rest) : NameOutcome value name (.ok (some name.utf8Len))

theorem not_straddles_of_splitAtByte {index : Nat} {split : Text × Text}
    (h : splitAtByte value index = .ok split) : ¬ value.Straddles index := by
  obtain ⟨front, rest⟩ := split
  intro hstraddles
  have hnone := (Text.splitBytes_eq_none_iff (Nat.le_of_lt hstraddles.lt)).mpr hstraddles
  rw [Text.splitBytes_eq_some_iff.mpr (splitAtByte_eq_ok_iff.mp h)] at hnone
  cases hnone

theorem startsWithNameToken_spec (hname : name ≠ []) :
    NameOutcome value name (startsWithNameToken value name) := by
  rw [startsWithNameToken]
  split
  · next hlt =>
    refine .none (fun h => Nat.lt_asymm hlt h.lt) fun rest h => ?_
    obtain ⟨front, hsplit, -⟩ := h.splitAtByte
    obtain ⟨rfl, hlen⟩ := splitAtByte_eq_ok_iff.mp hsplit
    rw [Text.utf8Len_append, hlen] at hlt
    exact Nat.not_lt.mpr (Nat.le_add_right _ _) hlt
  · next hle =>
    split
    · next panic hsplit =>
      refine .panic ((Text.splitBytes_eq_none_iff (Nat.not_lt.mp hle)).mp ?_)
      rw [splitAtByte] at hsplit
      split at hsplit
      · cases hsplit
      · assumption
    · next front rest hsplit =>
      have hnot := not_straddles_of_splitAtByte hsplit
      have hunique : ∀ rest', NameToken name value rest' → rest' = rest ∧
          front.toAsciiLowercase = name.toAsciiLowercase := by
        intro rest' h
        obtain ⟨front', hsplit', hfront'⟩ := h.splitAtByte
        rw [hsplit] at hsplit'
        obtain ⟨rfl, rfl⟩ := Prod.mk.inj (Except.ok.inj hsplit')
        exact ⟨rfl, hfront'⟩
      obtain ⟨hvalue, hlen⟩ := splitAtByte_eq_ok_iff.mp hsplit
      split
      · next hdiffers => exact .none hnot fun rest' h => hdiffers (hunique rest' h).2
      · next hsame =>
        have hsame := not_not.mp hsame
        split
        · next hall =>
          -- the name is the whole text
          have hrest : rest = [] := by
            rw [hvalue, Text.utf8Len_append, hlen] at hall
            have hlength := Text.length_le_utf8Len rest
            exact List.eq_nil_of_length_eq_zero (by omega)
          subst hrest
          exact .some hsplit ⟨hname, ⟨front, hvalue, hsame⟩, fun c hc => by cases hc⟩
        · next hmore =>
          split
          · rw [hvalue, List.append_nil, hlen] at hmore
            exact absurd rfl hmore
          · next c rest =>
            split
            · next hends =>
              refine .some hsplit ⟨hname, ⟨front, hvalue, hsame⟩, fun c' hc' => ?_⟩
              obtain rfl := Option.some.inj hc'
              exact hends
            · next hends =>
              refine .none hnot fun rest' h => hends ?_
              obtain ⟨rfl, -⟩ := hunique rest' h
              exact h.ends c rfl

/-- A name that stands alone is stripped off, and only such. -/
theorem stripLeadingNameToken_eq_some_iff :
    stripLeadingNameToken value name = .ok (some rest) ↔ NameToken name.trim value rest := by
  rw [stripLeadingNameToken]
  split
  · next hempty => exact iff_of_false (fun h => by cases h) fun h => h.ne_nil hempty
  · next hne =>
    have hspec : NameOutcome value name.trim (startsWithNameToken value name.trim) :=
      startsWithNameToken_spec hne
    generalize startsWithNameToken value name.trim = outcome at hspec
    cases hspec with
    | panic hstraddles =>
        refine iff_of_false (fun h => by cases h) fun h => ?_
        obtain ⟨front, hsplit, -⟩ := h.splitAtByte
        exact not_straddles_of_splitAtByte hsplit hstraddles
    | none _ hnone => exact iff_of_false (fun h => by cases h) (hnone rest)
    | @some front rest' hsplit h =>
        simp only [hsplit]
        constructor
        · intro heq
          obtain rfl := Option.some.inj (Except.ok.inj heq)
          exact h
        · intro h'
          obtain ⟨front', hsplit', -⟩ := h'.splitAtByte
          rw [hsplit] at hsplit'
          obtain ⟨rfl, rfl⟩ := Prod.mk.inj (Except.ok.inj hsplit')
          rfl

/-- The comparison of a name panics exactly if it ends within a character. -/
theorem returns_stripLeadingNameToken_iff :
    Returns (stripLeadingNameToken value name) ↔ ¬ value.Straddles name.trim.utf8Len := by
  rw [stripLeadingNameToken]
  split
  · next hempty =>
    rw [hempty]
    exact iff_of_true ⟨_, rfl⟩ (Text.not_straddles_zero value)
  · next hne =>
    have hspec : NameOutcome value name.trim (startsWithNameToken value name.trim) :=
      startsWithNameToken_spec hne
    generalize startsWithNameToken value name.trim = outcome at hspec
    cases hspec with
    | panic hstraddles =>
        exact iff_of_false (fun ⟨_, h⟩ => by cases h) fun h => h hstraddles
    | none hsplit _ => exact iff_of_true ⟨_, rfl⟩ hsplit
    | some hsplit _ =>
        refine iff_of_true ?_ (not_straddles_of_splitAtByte hsplit)
        simp only [hsplit]
        exact ⟨_, rfl⟩

/-- What is after an `@` is looked at as a text that may begin with the name. -/
theorem stripLeadingAtName_eq (value name : Text) : stripLeadingAtName value name =
    match value with
    | '@' :: after => stripLeadingNameToken after name
    | _ => .ok none := by
  have htrim (after : Text) : stripLeadingNameToken after name.trim =
      stripLeadingNameToken after name := by
    rw [stripLeadingNameToken, Text.trim_trim, stripLeadingNameToken]
  rw [stripLeadingAtName]
  split
  · next hempty =>
    split
    · rw [stripLeadingNameToken, if_pos hempty]
    · rfl
  · split
    · next hstrip =>
      split
      · next after =>
        have hsome : Text.stripPrefix ('@' :: after) "@" = some after :=
          Text.stripPrefix_eq_some_iff.mpr rfl
        rw [hsome] at hstrip
        cases hstrip
      · rfl
    · next after hstrip =>
      obtain rfl := Text.stripPrefix_eq_some_iff.mp hstrip
      exact htrim after

theorem stripLeadingAtName_eq_some_iff :
    stripLeadingAtName value name = .ok (some rest) ↔ AtName name.trim value rest := by
  rw [stripLeadingAtName_eq]
  split
  · next after =>
    rw [stripLeadingNameToken_eq_some_iff]
    constructor
    · exact fun h => ⟨after, rfl, h⟩
    · rintro ⟨after', heq, h⟩
      obtain ⟨-, rfl⟩ := List.cons.inj heq
      exact h
  · next hnot =>
    refine iff_of_false (fun h => by cases h) ?_
    rintro ⟨after, rfl, -⟩
    exact hnot after rfl

theorem returns_stripLeadingAtName_iff :
    Returns (stripLeadingAtName value name) ↔
      ∀ after : Text, value = '@' :: after → ¬ after.Straddles name.trim.utf8Len := by
  rw [stripLeadingAtName_eq]
  split
  · next after =>
    rw [returns_stripLeadingNameToken_iff]
    constructor
    · rintro h after' heq
      obtain ⟨-, rfl⟩ := List.cons.inj heq
      exact h
    · exact fun h => h after rfl
  · next hnot => exact iff_of_true ⟨_, rfl⟩ fun after heq => absurd heq (hnot after)

/-! ## One round -/

section OrElse

variable {first second : Except SlicePanic (Option Text)} {P Q : Text → Prop}

theorem returns_orElse_iff (hfirst : ∀ rest, first = .ok (some rest) ↔ P rest) :
    Returns (orElse first second) ↔
      Returns first ∧ ((∀ rest, ¬ P rest) → Returns second) := by
  match first with
  | .error panic =>
      exact iff_of_false (fun ⟨_, h⟩ => by cases h) fun ⟨⟨_, h⟩, _⟩ => by cases h
  | .ok (some stripped) =>
      refine iff_of_true ⟨_, rfl⟩ ⟨⟨_, rfl⟩, fun hnone => ?_⟩
      exact absurd ((hfirst stripped).mp rfl) (hnone stripped)
  | .ok none =>
      have hnone : ∀ rest, ¬ P rest := fun rest h => by cases (hfirst rest).mpr h
      exact ⟨fun h => ⟨⟨_, rfl⟩, fun _ => h⟩, fun h => h.2 hnone⟩

theorem orElse_eq_some_iff (hfirst : ∀ rest, first = .ok (some rest) ↔ P rest)
    (hsecond : (∀ rest, ¬ P rest) → ∀ rest, second = .ok (some rest) ↔ Q rest)
    (hreturns : Returns first) :
    orElse first second = .ok (some rest) ↔ FirstOf P Q rest := by
  match first with
  | .error panic =>
      obtain ⟨result, hresult⟩ := hreturns
      cases hresult
  | .ok (some stripped) =>
      have hstripped := (hfirst stripped).mp rfl
      rw [FirstOf, ← hfirst rest]
      exact ⟨fun h => .inl h, fun h => h.elim id fun hnot => absurd hstripped (hnot.1 stripped)⟩
  | .ok none =>
      have hnone : ∀ rest, ¬ P rest := fun rest h => by cases (hfirst rest).mpr h
      have hsome := hsecond hnone rest
      rw [FirstOf, ← hsome]
      exact ⟨fun h => .inr ⟨hnone, h⟩, fun h => h.elim (fun h => absurd h (hnone rest)) (·.2)⟩

end OrElse

/-- **A round returns exactly if none of its comparisons ends within a character.** -/
theorem returns_nextStripped_iff :
    Returns (nextStripped agentName agentId value) ↔ NoSplit agentName agentId value := by
  rw [nextStripped, returns_orElse_iff fun _ => stripLeadingDiscordMention_eq_some_iff,
    returns_orElse_iff fun _ => stripLeadingAtName_eq_some_iff,
    returns_orElse_iff fun _ => stripLeadingNameToken_eq_some_iff,
    returns_stripLeadingAtName_iff, returns_stripLeadingNameToken_iff,
    returns_stripLeadingNameToken_iff]
  constructor
  · rintro ⟨-, h⟩
    exact ⟨fun hmention => (h hmention).1, fun hmention hat => ((h hmention).2 hat).1,
      fun hmention hat hname => ((h hmention).2 hat).2 hname⟩
  · intro h
    refine ⟨returns_stripLeadingDiscordMention value, fun hmention => ⟨h.atName hmention, ?_⟩⟩
    exact fun hat => ⟨h.name hmention hat, h.agentId hmention hat⟩

/-- A round that returns strips off what it should. -/
theorem nextStripped_eq_some_iff (h : NoSplit agentName agentId value) :
    nextStripped agentName agentId value = .ok (some rest) ↔
      Strips agentName agentId value rest := by
  refine orElse_eq_some_iff (fun _ => stripLeadingDiscordMention_eq_some_iff)
    (fun hmention _ => ?_) (returns_stripLeadingDiscordMention value)
  refine orElse_eq_some_iff (fun _ => stripLeadingAtName_eq_some_iff) (fun hat _ => ?_)
    (returns_stripLeadingAtName_iff.mpr (h.atName hmention))
  exact orElse_eq_some_iff (fun _ => stripLeadingNameToken_eq_some_iff)
    (fun _ _ => stripLeadingNameToken_eq_some_iff)
    (returns_stripLeadingNameToken_iff.mpr (h.name hmention hat))

theorem NameToken.length_lt (h : NameToken name value rest) : rest.length < value.length := by
  obtain ⟨front, rfl, hfront⟩ := h.front
  rw [List.length_append]
  have hpos : 0 < front.length := by
    rw [← List.length_map (f := Char.toLower), show front.map Char.toLower = _ from hfront,
      Text.toAsciiLowercase, List.length_map]
    exact List.length_pos_of_ne_nil h.ne_nil
  omega

/-- **Every round shrinks the text.** -/
theorem Strips.length_lt (h : Strips agentName agentId value rest) :
    rest.length < value.length := by
  rcases h with ⟨inner, -, rfl⟩ | ⟨-, ⟨after, rfl, h⟩ | ⟨-, h | ⟨-, h⟩⟩⟩
  · simp only [List.length_append, List.length_cons]
    omega
  · exact Nat.lt_succ_of_lt h.length_lt
  · exact h.length_lt
  · exact h.length_lt

end Attempts

/-! ## The loop -/

section Loop

variable {query agentName agentId value rest : Text}

theorem length_dropWhile_lt (h : Strips agentName agentId value rest) :
    (rest.dropWhile isSeparator).length < value.length :=
  Nat.lt_of_le_of_lt (List.length_dropWhile_le _ _) h.length_lt

theorem noSplit_nil (agentName agentId : Text) : NoSplit agentName agentId [] where
  atName := fun _ _ h => by cases h
  name := fun _ _ => Text.not_straddles_nil _
  agentId := fun _ _ _ => Text.not_straddles_nil _

/-- Nothing is stripped off no text. -/
theorem reaches_nil (h : Reaches agentName agentId [] value) : value = [] := by
  cases h with
  | refl => rfl
  | step hstrips => exact absurd hstrips.length_lt (Nat.not_lt_zero _)

/-- What a round strips off, when it returns. -/
theorem strips_of_nextStripped (h : nextStripped agentName agentId value = .ok (some rest)) :
    Strips agentName agentId value rest :=
  (nextStripped_eq_some_iff (returns_nextStripped_iff.mp ⟨_, h⟩)).mp h

/-- The loop ends, in the same way however many rounds it may make beyond those it needs. -/
theorem stripLoop_eq (agentName agentId : Text) {rounds rounds' : Nat} (h : value.length < rounds)
    (h' : value.length < rounds') : ∃ result,
      stripLoop agentName agentId rounds value = some result ∧
        stripLoop agentName agentId rounds' value = some result := by
  induction rounds generalizing value rounds' with
  | zero => exact absurd h (Nat.not_lt_zero _)
  | succ rounds ih =>
      cases rounds' with
      | zero => exact absurd h' (Nat.not_lt_zero _)
      | succ rounds' =>
          rw [stripLoop, stripLoop]
          cases hnext : nextStripped agentName agentId value with
          | error panic => exact ⟨_, rfl, rfl⟩
          | ok stripped =>
              cases stripped with
              | none => exact ⟨_, rfl, rfl⟩
              | some stripped =>
                  have hlt := length_dropWhile_lt (strips_of_nextStripped hnext)
                  simp only
                  split
                  · exact ⟨_, rfl, rfl⟩
                  · split
                    · exact ⟨_, rfl, rfl⟩
                    · exact ih (by omega) (by omega)

/-- **The loop returns exactly if no comparison it comes to ends within a character.** -/
theorem stripLoop_returns_iff {rounds : Nat} (h : value.length < rounds) :
    (∃ result, stripLoop agentName agentId rounds value = some (.ok result)) ↔
      ∀ later, Reaches agentName agentId value later → NoSplit agentName agentId later := by
  induction rounds generalizing value with
  | zero => exact absurd h (Nat.not_lt_zero _)
  | succ rounds ih =>
      rw [stripLoop]
      by_cases hsplit : NoSplit agentName agentId value
      · obtain ⟨result, hresult⟩ := returns_nextStripped_iff.mpr hsplit
        cases result with
        | none =>
            simp only [hresult]
            refine iff_of_true ⟨_, rfl⟩ fun later hreaches => ?_
            cases hreaches with
            | refl => exact hsplit
            | step hstrips =>
                rw [(nextStripped_eq_some_iff hsplit).mpr hstrips] at hresult
                cases hresult
        | some stripped =>
            have hstrips := (nextStripped_eq_some_iff hsplit).mp hresult
            have hne : stripped ≠ value := by
              rintro rfl
              exact Nat.lt_irrefl _ hstrips.length_lt
            have hall : (∀ later, Reaches agentName agentId value later →
                NoSplit agentName agentId later) ↔
                ∀ later, Reaches agentName agentId (stripped.dropWhile isSeparator) later →
                  NoSplit agentName agentId later := by
              constructor
              · exact fun hall later hreaches => hall later (.step hstrips hreaches)
              · intro hall later hreaches
                cases hreaches with
                | refl => exact hsplit
                | step hstrips' hreaches' =>
                    rw [(nextStripped_eq_some_iff hsplit).mpr hstrips'] at hresult
                    obtain rfl := Option.some.inj (Except.ok.inj hresult)
                    exact hall later hreaches'
            simp only [hresult, if_neg hne]
            rw [hall]
            split
            · next hempty =>
              rw [hempty]
              refine iff_of_true ⟨_, rfl⟩ fun later hreaches => ?_
              rw [reaches_nil hreaches]
              exact noSplit_nil agentName agentId
            · refine ih ?_
              have hlt := length_dropWhile_lt hstrips
              omega
      · refine iff_of_false ?_ fun hall => hsplit (hall value (.refl value))
        rintro ⟨result, hresult⟩
        cases hnext : nextStripped agentName agentId value with
        | error panic =>
            simp only [hnext] at hresult
            cases hresult
        | ok stripped => exact hsplit (returns_nextStripped_iff.mp ⟨_, hnext⟩)

/-! ## Normalizing -/

/-- **The query is normalized**: with enough rounds there is a result, and every round that strips
something off shrinks the text. -/
structure Normalizes (query agentName agentId : Text) : Prop where
  returns : ∃ result, ∀ rounds, query.length < rounds →
    normalizeRecallQuery rounds query agentName agentId = some (.ok result)
  shrinks : ∀ value stripped, nextStripped agentName agentId value = .ok (some stripped) →
    stripped.length < value.length

theorem length_trim_le (t : Text) : t.trim.length ≤ t.length :=
  Nat.le_trans (Text.trimEnd_prefix _).length_le (List.length_dropWhile_le _ _)

/-- **The query is normalized exactly if no name is compared with bytes that end within a
character**, in the message or in any text that stripping comes to. -/
theorem normalizes_iff_noSplit (query agentName agentId : Text) :
    Normalizes query agentName agentId ↔
      ∀ value, Reaches agentName agentId query.trim value → NoSplit agentName agentId value := by
  have hlength := length_trim_le query
  have hreturns : (∃ result, ∀ rounds, query.length < rounds →
      normalizeRecallQuery rounds query agentName agentId = some (.ok result)) ↔
      ∀ value, Reaches agentName agentId query.trim value → NoSplit agentName agentId value := by
    simp only [normalizeRecallQuery]
    split
    · next hempty =>
      rw [hempty]
      refine iff_of_true ⟨_, fun _ _ => rfl⟩ fun value hreaches => ?_
      rw [reaches_nil hreaches]
      exact noSplit_nil agentName agentId
    · rw [← stripLoop_returns_iff (Nat.lt_succ_of_le hlength)]
      constructor
      · rintro ⟨result, hall⟩
        exact ⟨result, hall _ (Nat.lt_succ_self _)⟩
      · rintro ⟨result, hresult⟩
        refine ⟨result, fun rounds hlt => ?_⟩
        obtain ⟨result', hleft, hright⟩ := stripLoop_eq agentName agentId
          (Nat.lt_succ_of_le hlength) (Nat.lt_of_le_of_lt hlength hlt)
        rw [hright, ← hleft, hresult]
  rw [← hreturns]
  exact ⟨fun h => h.returns, fun h =>
    ⟨h, fun value stripped hnext => (strips_of_nextStripped hnext).length_lt⟩⟩

/-- Stripping leaves an end of the text. -/
theorem Reaches.suffix {later : Text} (h : Reaches agentName agentId value later) :
    later <:+ value := by
  induction h with
  | refl value => exact List.suffix_refl value
  | @step value rest later hstrips _ ih =>
      have hrest : rest <:+ value := by
        rcases hstrips with ⟨inner, -, rfl⟩ | ⟨-, ⟨after, rfl, h⟩ | ⟨-, h | ⟨-, h⟩⟩⟩
        · exact ⟨("<@" : Text) ++ inner ++ ['>'], by simp⟩
        · obtain ⟨front, rfl, -⟩ := h.front
          exact ⟨'@' :: front, rfl⟩
        · obtain ⟨front, rfl, -⟩ := h.front
          exact List.suffix_append front rest
        · obtain ⟨front, rfl, -⟩ := h.front
          exact List.suffix_append front rest
      exact ih.trans ((List.dropWhile_suffix isSeparator).trans hrest)

/-- A message of one-byte characters is normalized, whatever the agent is called. -/
theorem normalizes_of_ascii (h : ∀ c ∈ query, c.utf8Size = 1) :
    Normalizes query agentName agentId := by
  refine (normalizes_iff_noSplit query agentName agentId).mpr fun value hreaches => ?_
  have hquery : query.trim <:+: query :=
    (Text.trimEnd_prefix _).isInfix.trans (List.dropWhile_suffix _).isInfix
  have hascii : ∀ c ∈ value, c.utf8Size = 1 := fun c hc =>
    h c (hquery.subset (hreaches.suffix.subset hc))
  refine ⟨?_, fun _ _ => Text.not_straddles_of_ascii hascii,
    fun _ _ _ => Text.not_straddles_of_ascii hascii⟩
  rintro - after rfl
  exact Text.not_straddles_of_ascii fun c hc => hascii c (List.mem_cons_of_mem _ hc)

/-- The fourth byte of the message is within its last character. -/
theorem normalizing_panics : ¬ ∀ query agentName agentId, Normalizes query agentName agentId := by
  intro hall
  obtain ⟨result, hresult⟩ := (hall "hi é" "Claw" "claw").returns
  have hpanic : normalizeRecallQuery 5 "hi é" "Claw" "claw" = some (.error ⟨"hi é", 4⟩) := by
    decide
  rw [hresult 5 (by decide)] at hpanic
  cases hpanic

example : normalizeRecallQuery 30 "<@42> @Claw, claw: what is new?" "Claw" "claw" =
    some (.ok "what is new?") := by decide

end Loop

end Turn
end SimpleClaw
