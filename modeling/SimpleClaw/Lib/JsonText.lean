import SimpleClaw.Lib.Text

/-!
# String literals of JSON

What is quoted, and how a text is cut into literals by its quotation marks.

* `JsonText.escape`, `JsonText.literal`: a string as it is written, with `escapeChar_cases` for
  everything that an escape can be.
* `JsonText.infix_of_infix_escape`: what is found in an escaped string and has no backslash is in
  the string, and none of it is escaped.
* `JsonText.scan`: whether the end of a text is within a literal.
* `JsonText.Quoted`: the literals of a text are closed, and every `<` is in one of them.
* `JsonText.EndsInLiteral.trim`: a text that ends within a literal does so when it is trimmed.
-/

namespace JsonText

/-! ## Escaping -/

/-- The characters that are written as they are. -/
def isPlain (c : Char) : Bool := c != '"' && c != '\\' && decide (0x20 ≤ c.toNat)

/-- A character within a literal. -/
def escapeChar (c : Char) : Text :=
  if c = '"' then ['\\', '"']
  else if c = '\\' then ['\\', '\\']
  else if c.toNat = 0x08 then ['\\', 'b']
  else if c = '\t' then ['\\', 't']
  else if c = '\n' then ['\\', 'n']
  else if c.toNat = 0x0C then ['\\', 'f']
  else if c = '\r' then ['\\', 'r']
  else if c.toNat < 0x20 then
    ['\\', 'u', '0', '0', Nat.digitChar (c.toNat / 16), Nat.digitChar (c.toNat % 16)]
  else [c]

def escape (s : Text) : Text := s.flatMap escapeChar

/-- A string with its quotation marks. -/
def literal (s : Text) : Text := '"' :: (escape s ++ ['"'])

@[simp] theorem escape_nil : escape [] = [] := rfl

@[simp] theorem escape_cons (c : Char) (s : Text) : escape (c :: s) = escapeChar c ++ escape s :=
  rfl

theorem escape_append (s t : Text) : escape (s ++ t) = escape s ++ escape t :=
  List.flatMap_append

theorem digitChar_isPlain :
    ∀ n < 16, isPlain (Nat.digitChar n) = true ∧ Nat.digitChar n ≠ '<' := by decide

/-- **A character is written as it is, or as a backslash with what it escapes.** -/
theorem escapeChar_cases (c : Char) :
    (isPlain c = true ∧ escapeChar c = [c]) ∨
      isPlain c = false ∧ ∃ d digits, escapeChar c = '\\' :: d :: digits ∧ d ≠ '<' ∧
        ∀ x ∈ digits, isPlain x = true ∧ x ≠ '<' := by
  unfold escapeChar
  split_ifs with hquote hbackslash hb ht hn hf hr hcontrol
  · exact .inr ⟨by rw [hquote]; rfl, '"', [], rfl, by decide, by simp⟩
  · exact .inr ⟨by rw [hbackslash]; rfl, '\\', [], rfl, by decide, by simp⟩
  · exact .inr ⟨by simp [isPlain, hb], 'b', [], rfl, by decide, by simp⟩
  · exact .inr ⟨by rw [ht]; rfl, 't', [], rfl, by decide, by simp⟩
  · exact .inr ⟨by rw [hn]; rfl, 'n', [], rfl, by decide, by simp⟩
  · exact .inr ⟨by simp [isPlain, hf], 'f', [], rfl, by decide, by simp⟩
  · exact .inr ⟨by rw [hr]; rfl, 'r', [], rfl, by decide, by simp⟩
  · have hhigh : c.toNat / 16 < 16 := by omega
    have hlow : c.toNat % 16 < 16 := Nat.mod_lt _ (by decide)
    refine .inr ⟨by simp [isPlain]; omega, 'u', _, rfl, by decide, ?_⟩
    exact List.forall_mem_cons.mpr ⟨by decide, List.forall_mem_cons.mpr ⟨by decide,
      List.forall_mem_cons.mpr ⟨digitChar_isPlain _ hhigh,
        List.forall_mem_singleton.mpr (digitChar_isPlain _ hlow)⟩⟩⟩
  · exact .inl ⟨by simp [isPlain, hquote, hbackslash]; omega, rfl⟩

theorem escapeChar_of_isPlain {c : Char} (h : isPlain c = true) : escapeChar c = [c] := by
  obtain ⟨-, heq⟩ | ⟨hnot, -⟩ := escapeChar_cases c
  · exact heq
  · rw [h] at hnot
    cases hnot

/-- What is not escaped is written as it is. -/
theorem escape_of_isPlain {s : Text} (h : ∀ c ∈ s, isPlain c = true) : escape s = s := by
  induction s with
  | nil => rfl
  | cons c s ih =>
      rw [escape_cons, escapeChar_of_isPlain (h c List.mem_cons_self),
        ih fun d hd => h d (List.mem_cons_of_mem c hd), List.singleton_append]

theorem prefix_of_prefix_escape {x s : Text} (hx : '\\' ∉ x) (h : x <+: escape s) :
    x <+: s ∧ ∀ c ∈ x, isPlain c = true := by
  induction s generalizing x with
  | nil =>
      obtain rfl := List.prefix_nil.mp h
      exact ⟨List.nil_prefix, by simp⟩
  | cons c s ih =>
      rw [escape_cons] at h
      obtain ⟨hplain, heq⟩ | ⟨-, d, digits, heq, -⟩ := escapeChar_cases c
      · rw [heq, List.singleton_append, List.prefix_cons_iff] at h
        obtain rfl | ⟨y, rfl, hy⟩ := h
        · exact ⟨List.nil_prefix, by simp⟩
        · obtain ⟨hbegins, hall⟩ := ih (fun hmem => hx (List.mem_cons_of_mem c hmem)) hy
          exact ⟨List.cons_prefix_cons.mpr ⟨rfl, hbegins⟩,
            List.forall_mem_cons.mpr ⟨hplain, hall⟩⟩
      · rw [heq, List.cons_append, List.prefix_cons_iff] at h
        obtain rfl | ⟨y, rfl, -⟩ := h
        · exact ⟨List.nil_prefix, by simp⟩
        · exact absurd List.mem_cons_self hx

/-- What begins with a character is not in front of the first one. -/
theorem infix_of_infix_append {o : Char} {x e t : Text} (ho : o ∉ e) (h : o :: x <:+: e ++ t) :
    o :: x <:+: t := by
  induction e with
  | nil => exact h
  | cons c e ih =>
      rw [List.mem_cons, not_or] at ho
      rw [List.cons_append, List.infix_cons_iff] at h
      obtain h | h := h
      · exact absurd (List.cons_prefix_cons.mp h).1 ho.1
      · exact ih ho.2 h

/-- **What begins with `<` and has no backslash is found in an escaped string only if it is in the
string and none of it is escaped.** -/
theorem infix_of_infix_escape {x s : Text} (hx : '\\' ∉ x) (h : '<' :: x <:+: escape s) :
    '<' :: x <:+: s ∧ ∀ c ∈ x, isPlain c = true := by
  have hx' : '\\' ∉ '<' :: x := by simp [hx]
  induction s with
  | nil => exact absurd (List.infix_nil.mp h) (List.cons_ne_nil _ _)
  | cons c s ih =>
      rw [escape_cons] at h
      obtain ⟨hplain, heq⟩ | ⟨-, d, digits, heq, hd, hdigits⟩ := escapeChar_cases c
      · rw [heq, List.singleton_append, List.infix_cons_iff] at h
        obtain h | h := h
        · obtain ⟨rfl, hrest⟩ := List.cons_prefix_cons.mp h
          obtain ⟨hbegins, hall⟩ := prefix_of_prefix_escape hx hrest
          exact ⟨(List.cons_prefix_cons.mpr ⟨rfl, hbegins⟩).isInfix, hall⟩
        · obtain ⟨hfound, hall⟩ := ih h
          exact ⟨List.infix_cons hfound, hall⟩
      · rw [heq] at h
        have hopen : '<' ∉ '\\' :: d :: digits := by
          simp only [List.mem_cons, not_or]
          exact ⟨by decide, fun heq => hd heq.symm, fun hmem => (hdigits _ hmem).2 rfl⟩
        obtain ⟨hfound, hall⟩ := ih (infix_of_infix_append hopen h)
        exact ⟨List.infix_cons hfound, hall⟩

theorem infix_escape_of_infix {x s : Text} (hx : ∀ c ∈ x, isPlain c = true) (h : x <:+: s) :
    x <:+: escape s := by
  obtain ⟨before, behind, rfl⟩ := h
  refine ⟨escape before, escape behind, ?_⟩
  rw [escape_append, escape_append, escape_of_isPlain hx]

/-! ## Where literals begin and end -/

/-- Where a reader is that goes by quotation marks and backslashes. -/
inductive Scan where
  | outside
  | inLiteral
  | escaped
  deriving DecidableEq

def scanStep : Scan → Char → Scan
  | .outside, c => if c = '"' then .inLiteral else .outside
  | .inLiteral, c => if c = '"' then .outside else if c = '\\' then .escaped else .inLiteral
  | .escaped, _ => .inLiteral

def scan (state : Scan) (t : Text) : Scan := t.foldl scanStep state

@[simp] theorem scan_nil (state : Scan) : scan state [] = state := rfl

@[simp] theorem scan_cons (state : Scan) (c : Char) (t : Text) :
    scan state (c :: t) = scan (scanStep state c) t := rfl

theorem scan_append (state : Scan) (s t : Text) : scan state (s ++ t) = scan (scan state s) t :=
  List.foldl_append

/-- The text ends within a literal. -/
def EndsInLiteral (t : Text) : Prop := scan .outside t ≠ .outside

instance : DecidablePred EndsInLiteral := fun _ => inferInstanceAs (Decidable (_ ≠ _))

theorem scan_outside_of_notMem {t : Text} (h : '"' ∉ t) : scan .outside t = .outside := by
  induction t with
  | nil => rfl
  | cons c t ih =>
      rw [List.mem_cons, not_or] at h
      rw [scan_cons, scanStep, if_neg fun heq => h.1 heq.symm]
      exact ih h.2

/-- **White space at the ends does not decide it.** -/
theorem EndsInLiteral.trim {t : Text} (h : EndsInLiteral t) : EndsInLiteral (Text.trim t) := by
  have hquote : ∀ ws : Text, (∀ c ∈ ws, Text.isWhiteSpace c = true) → '"' ∉ ws :=
    fun ws hws hmem => absurd (hws _ hmem) (by decide)
  obtain ⟨before, behind, ht, hbefore, hbehind⟩ := Text.exists_trimMatches Text.isWhiteSpace t
  rw [Text.trimMatches_isWhiteSpace] at ht
  intro hclosed
  refine h ?_
  rw [ht, scan_append, scan_outside_of_notMem (hquote before hbefore), scan_append, hclosed,
    scan_outside_of_notMem (hquote behind hbehind)]

/-- The literals are closed, and every `<` is in one of them. -/
structure Quoted (t : Text) : Prop where
  closed : scan .outside t = .outside
  inLiteral : ∀ p q, t = p ++ '<' :: q → EndsInLiteral p

theorem Quoted.of_notMem {t : Text} (hquote : '"' ∉ t) (hopen : '<' ∉ t) : Quoted t where
  closed := scan_outside_of_notMem hquote
  inLiteral p q h := absurd (by rw [h]; simp) hopen

theorem Quoted.append {s t : Text} (hs : Quoted s) (ht : Quoted t) : Quoted (s ++ t) where
  closed := by rw [scan_append, hs.closed, ht.closed]
  inLiteral p q h := by
    rcases List.append_eq_append_iff.mp h with ⟨m, rfl, hm⟩ | ⟨m, rfl, hm⟩
    · have := ht.inLiteral m q hm
      rwa [EndsInLiteral, scan_append, hs.closed]
    · cases m with
      | nil => exact absurd rfl (ht.inLiteral [] q hm.symm)
      | cons c m =>
          obtain rfl : '<' = c := (List.cons.inj hm).1
          exact hs.inLiteral p m rfl

theorem Quoted.joinWith {sep : Char} (hsep : sep ≠ '"' ∧ sep ≠ '<') {pieces : List Text}
    (h : ∀ t ∈ pieces, Quoted t) : Quoted (Text.joinWith sep pieces) := by
  have hseparator : Quoted [sep] := .of_notMem (by simp [hsep.1.symm]) (by simp [hsep.2.symm])
  induction pieces with
  | nil => exact .of_notMem (by simp) (by simp)
  | cons t pieces ih =>
      have ht := h t List.mem_cons_self
      have hrest := ih fun t ht => h t (List.mem_cons_of_mem _ ht)
      cases pieces with
      | nil => rwa [Text.joinWith_singleton]
      | cons t' pieces =>
          rw [Text.joinWith_cons_cons, List.append_cons]
          exact (ht.append hseparator).append hrest

theorem scanStep_of_isPlain {c : Char} (h : isPlain c = true) :
    scanStep .inLiteral c = .inLiteral := by
  simp only [isPlain, Bool.and_eq_true, bne_iff_ne] at h
  rw [scanStep, if_neg h.1.1, if_neg h.1.2]

theorem scan_of_isPlain {t : Text} (h : ∀ c ∈ t, isPlain c = true) :
    scan .inLiteral t = .inLiteral := by
  induction t with
  | nil => rfl
  | cons c t ih =>
      rw [scan_cons, scanStep_of_isPlain (h c List.mem_cons_self)]
      exact ih fun d hd => h d (List.mem_cons_of_mem c hd)

theorem scan_escapeChar (c : Char) : scan .inLiteral (escapeChar c) = .inLiteral := by
  obtain ⟨hplain, heq⟩ | ⟨-, d, digits, heq, -, hdigits⟩ := escapeChar_cases c
  · rw [heq]
    exact scan_of_isPlain (List.forall_mem_singleton.mpr hplain)
  · have hescape : scan .inLiteral ('\\' :: d :: digits) = scan .inLiteral digits := rfl
    rw [heq, hescape]
    exact scan_of_isPlain fun x hx => (hdigits x hx).1

theorem scan_escape (s : Text) : scan .inLiteral (escape s) = .inLiteral := by
  induction s with
  | nil => rfl
  | cons c s ih => rw [escape_cons, scan_append, scan_escapeChar, ih]

/-- Reading within a literal does not come to its end. -/
def StaysInLiteral (t : Text) : Prop := ∀ p, p <+: t → scan .inLiteral p ≠ .outside

theorem StaysInLiteral.append {s t : Text} (hs : ∀ c ∈ s, isPlain c = true)
    (ht : StaysInLiteral t) : StaysInLiteral (s ++ t) := by
  intro p hp
  obtain hps | ⟨p, rfl⟩ := List.prefix_or_prefix_of_prefix hp (List.prefix_append s t)
  · rw [scan_of_isPlain fun c hc => hs c (hps.subset hc)]
    decide
  · rw [scan_append, scan_of_isPlain hs]
    exact ht p ((List.prefix_append_right_inj s).mp hp)

theorem StaysInLiteral.cons_backslash {t : Text} (d : Char) (ht : StaysInLiteral t) :
    StaysInLiteral ('\\' :: d :: t) := by
  intro p hp
  rw [List.prefix_cons_iff] at hp
  obtain rfl | ⟨p, rfl, hp⟩ := hp
  · exact Scan.noConfusion
  · rw [List.prefix_cons_iff] at hp
    obtain rfl | ⟨p, rfl, hp⟩ := hp
    · exact Scan.noConfusion
    · exact ht p hp

theorem staysInLiteral_escape (s : Text) : StaysInLiteral (escape s) := by
  induction s with
  | nil =>
      intro p hp
      rw [List.prefix_nil.mp hp]
      exact Scan.noConfusion
  | cons c s ih =>
      rw [escape_cons]
      obtain ⟨hplain, heq⟩ | ⟨-, d, digits, heq, -, hdigits⟩ := escapeChar_cases c
      · rw [heq]
        exact ih.append (List.forall_mem_singleton.mpr hplain)
      · rw [heq]
        exact (ih.append fun x hx => (hdigits x hx).1).cons_backslash d

/-- **A literal is closed, and what it quotes is within it.** -/
theorem Quoted.literal (s : Text) : Quoted (literal s) where
  closed := by
    have hquote : scanStep .outside '"' = .inLiteral := rfl
    rw [JsonText.literal, scan_cons, hquote, scan_append, scan_escape]
    rfl
  inLiteral p q h := by
    cases p with
    | nil => exact absurd (List.cons.inj h).1 (by decide)
    | cons c p =>
        obtain ⟨rfl, hrest⟩ := List.cons.inj h
        have hp : p <+: escape s := by
          rcases List.append_eq_append_iff.mp hrest with ⟨m, -, hm⟩ | ⟨m, hm, -⟩
          · have hmem : '<' ∈ ['"'] := by rw [hm]; simp
            exact absurd hmem (by decide)
          · exact ⟨m, hm.symm⟩
        exact staysInLiteral_escape s p hp

end JsonText
