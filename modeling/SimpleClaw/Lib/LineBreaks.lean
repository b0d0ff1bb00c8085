import Mathlib.Data.List.Chain
import SimpleClaw.Lib.Occurrences

/-!
# Line feeds and carriage returns

A line ends with a line feed, or with a carriage return and a line feed.  A text may hold both
kinds of line breaks, and carriage returns that end no line.

* `Text.CrBeforeLf`, `Text.LfAfterCr`: every line feed has its carriage return, and every carriage
  return its line feed; `Text.AllCrlf` is both.
* `Text.withLf`, `Text.withCrlf`: all line breaks of one kind.
* `Text.withCrlf_withLf_eq_self_iff`: a text is what it is made into exactly when every line feed
  has its carriage return, and otherwise it gets longer.
* `Text.AllCrlf.replaceFrom`: replacing whole lines and pieces of lines keeps the line breaks.
-/

namespace Text

/-- Every line feed comes right after a carriage return. -/
structure CrBeforeLf (t : Text) : Prop where
  head : t.head? ≠ some '\n'
  chain : t.IsChain fun a b => b = '\n' → a = '\r'

/-- Every carriage return comes right before a line feed: none is alone. -/
structure LfAfterCr (t : Text) : Prop where
  last : t.getLast? ≠ some '\r'
  chain : t.IsChain fun a b => a = '\r' → b = '\n'

/-- The line breaks are all a carriage return and a line feed, and no carriage return is alone. -/
structure AllCrlf (t : Text) : Prop where
  crBeforeLf : CrBeforeLf t
  lfAfterCr : LfAfterCr t

theorem CrBeforeLf.nil : CrBeforeLf [] := ⟨by simp, .nil⟩

theorem LfAfterCr.nil : LfAfterCr [] := ⟨by simp, .nil⟩

theorem AllCrlf.nil : AllCrlf [] := ⟨.nil, .nil⟩

/-! ## Cutting and joining -/

theorem CrBeforeLf.append {s t : Text} (hs : CrBeforeLf s) (ht : CrBeforeLf t) :
    CrBeforeLf (s ++ t) where
  head := by
    cases s with
    | nil => exact ht.head
    | cons c s => exact hs.head
  chain := by
    refine hs.chain.append ht.chain ?_
    rintro x - y hy rfl
    exact absurd hy ht.head

theorem LfAfterCr.append {s t : Text} (hs : LfAfterCr s) (ht : LfAfterCr t) :
    LfAfterCr (s ++ t) where
  last := by
    rw [List.getLast?_append]
    cases hlast : t.getLast? with
    | none => exact hs.last
    | some c =>
        rw [← hlast]
        simpa [hlast] using ht.last
  chain := by
    refine hs.chain.append ht.chain ?_
    rintro x hx y - rfl
    exact absurd hx hs.last

theorem AllCrlf.append {s t : Text} (hs : AllCrlf s) (ht : AllCrlf t) : AllCrlf (s ++ t) :=
  ⟨hs.crBeforeLf.append ht.crBeforeLf, hs.lfAfterCr.append ht.lfAfterCr⟩

/-- **A piece with whole line breaks is cut out between line breaks**, never inside one. -/
theorem AllCrlf.of_append {s m t : Text} (hm : AllCrlf m) (hne : m ≠ [])
    (h : AllCrlf (s ++ (m ++ t))) : AllCrlf s ∧ AllCrlf t := by
  obtain ⟨first, m', hfirst⟩ := List.exists_cons_of_ne_nil hne
  have hhead : (m ++ t).head? = m.head? := by rw [hfirst]; rfl
  have hlast : (s ++ m).getLast? = m.getLast? := by
    rw [List.getLast?_append_of_ne_nil _ hne]
  have hassoc : s ++ (m ++ t) = (s ++ m) ++ t := (List.append_assoc s m t).symm
  constructor
  · refine ⟨⟨?_, h.crBeforeLf.chain.left_of_append⟩, ⟨?_, h.lfAfterCr.chain.left_of_append⟩⟩
    · cases s with
      | nil => simp
      | cons c s => exact h.crBeforeLf.head
    · -- the piece does not begin with the line feed
      intro hcr
      have hlf := (List.isChain_append.mp h.lfAfterCr.chain).2.2 '\r' hcr first
        (by rw [hhead, hfirst]; rfl) rfl
      exact hm.crBeforeLf.head (by rw [hfirst, hlf]; rfl)
  · rw [hassoc] at h
    refine ⟨⟨?_, h.crBeforeLf.chain.right_of_append⟩, ⟨?_, h.lfAfterCr.chain.right_of_append⟩⟩
    · -- the piece does not end with the carriage return
      intro hlf
      have hcr := (List.isChain_append.mp h.crBeforeLf.chain).2.2 (m.getLast hne)
        (by rw [hlast, List.getLast?_eq_some_getLast hne]; rfl) '\n' hlf rfl
      exact hm.lfAfterCr.last (by rw [List.getLast?_eq_some_getLast hne, hcr])
    · intro hcr
      refine h.lfAfterCr.last ?_
      have htne : t ≠ [] := by
        rintro rfl
        simp at hcr
      rw [List.getLast?_append_of_ne_nil _ htne, hcr]

/-- Replacing pieces with whole line breaks by others keeps the line breaks whole. -/
theorem AllCrlf.replaceFrom {pat replacement t : Text} (hpat : AllCrlf pat) (hne : pat ≠ [])
    (hreplacement : AllCrlf replacement) (limit : Option Nat) (ht : AllCrlf t) :
    AllCrlf (replaceFrom pat replacement limit 0 t) :=
  replaceFrom_induction hne (fun _ _ => .append) (fun _ _ => hpat.of_append hne) hreplacement
    limit ht

/-- What is in a text after a replacement was in it before or in the replacement. -/
theorem notMem_replaceFrom {pat replacement t : Text} {c : Char} (hne : pat ≠ [])
    (hreplacement : c ∉ replacement) (limit : Option Nat) (ht : c ∉ t) :
    c ∉ Text.replaceFrom pat replacement limit 0 t := by
  refine replaceFrom_induction (P := (c ∉ ·)) hne ?_ ?_ hreplacement limit ht
  · intro s t hs ht
    simp [hs, ht]
  · intro before after h
    simp only [List.mem_append, not_or] at h
    exact ⟨h.1, h.2.2⟩

/-! ## Line breaks of one kind -/

/-- A text is empty, or it begins with a line break of either kind, or with another character. -/
theorem lineBreak_induction {motive : Text → Prop} (nil : motive [])
    (crlf : ∀ t, motive t → motive ('\r' :: '\n' :: t)) (lf : ∀ t, motive t → motive ('\n' :: t))
    (other : ∀ c t, c ≠ '\n' → ¬ (c = '\r' ∧ t.head? = some '\n') → motive t → motive (c :: t)) :
    ∀ t, motive t
  | [] => nil
  | [c] => by
      by_cases hlf : c = '\n'
      · rw [hlf]
        exact lf [] nil
      · exact other c [] hlf (by simp) nil
  | c :: d :: t => by
      have ih := lineBreak_induction nil crlf lf other t
      have ih' := lineBreak_induction nil crlf lf other (d :: t)
      by_cases hlf : c = '\n'
      · rw [hlf]
        exact lf _ ih'
      · by_cases hcrlf : c = '\r' ∧ d = '\n'
        · rw [hcrlf.1, hcrlf.2]
          exact crlf t ih
        · exact other c (d :: t) hlf (by simpa using hcrlf) ih'

/-- All line breaks a line feed. -/
def withLf (t : Text) : Text := replace t "\r\n" "\n"

/-- A carriage return before every line feed. -/
def withCrlf (t : Text) : Text := replace t "\n" "\r\n"

@[simp] theorem withLf_nil : withLf [] = [] := rfl

@[simp] theorem withCrlf_nil : withCrlf [] = [] := rfl

@[simp] theorem withLf_crlf (t : Text) : withLf ('\r' :: '\n' :: t) = '\n' :: withLf t :=
  replace_append_self (List.cons_ne_nil '\r' ['\n']) "\n".toList t

theorem withLf_cons {c : Char} {t : Text} (h : ¬ (c = '\r' ∧ t.head? = some '\n')) :
    withLf (c :: t) = c :: withLf t := by
  refine replace_cons_of_not ?_ "\n".toList
  rintro ⟨after, hafter⟩
  obtain ⟨rfl, rfl⟩ := List.cons.inj hafter
  exact h ⟨rfl, rfl⟩

@[simp] theorem withLf_lf (t : Text) : withLf ('\n' :: t) = '\n' :: withLf t :=
  withLf_cons (by simp)

@[simp] theorem withCrlf_lf (t : Text) : withCrlf ('\n' :: t) = '\r' :: '\n' :: withCrlf t :=
  replace_append_self (List.cons_ne_nil '\n' []) "\r\n".toList t

theorem withCrlf_cons {c : Char} {t : Text} (h : c ≠ '\n') :
    withCrlf (c :: t) = c :: withCrlf t := by
  refine replace_cons_of_not ?_ "\r\n".toList
  rintro ⟨after, hafter⟩
  exact h (List.cons.inj hafter).1.symm

/-- No text is emptied by its line breaks. -/
theorem withLf_ne_nil {t : Text} (h : t ≠ []) : withLf t ≠ [] := by
  induction t using lineBreak_induction with
  | nil => exact absurd rfl h
  | crlf t => simp
  | lf t => simp
  | other c t hlf hcrlf =>
      rw [withLf_cons hcrlf]
      exact List.cons_ne_nil _ _

theorem withCrlf_ne_nil {t : Text} (h : t ≠ []) : withCrlf t ≠ [] := by
  obtain ⟨c, t, rfl⟩ := List.exists_cons_of_ne_nil h
  by_cases hlf : c = '\n'
  · rw [hlf, withCrlf_lf]
    exact List.cons_ne_nil _ _
  · rw [withCrlf_cons hlf]
    exact List.cons_ne_nil _ _

/-- Without lone carriage returns, none is left. -/
theorem notMem_withLf {t : Text} (h : LfAfterCr t) : '\r' ∉ withLf t := by
  induction t using lineBreak_induction with
  | nil => simp
  | crlf t ih =>
      have ht : LfAfterCr t := ⟨fun hlast => h.last (by simp [List.getLast?_cons, hlast]),
        h.chain.tail.tail⟩
      simpa using ih ht
  | lf t ih =>
      have ht : LfAfterCr t := ⟨fun hlast => h.last (by simp [List.getLast?_cons, hlast]),
        h.chain.tail⟩
      simpa using ih ht
  | other c t hlf hcrlf ih =>
      have ht : LfAfterCr t := ⟨fun hlast => h.last (by simp [List.getLast?_cons, hlast]),
        h.chain.tail⟩
      have hc : c ≠ '\r' := by
        rintro rfl
        cases t with
        | nil => exact h.last rfl
        | cons d t => exact hcrlf ⟨rfl, congrArg some (h.chain.rel_head? rfl rfl)⟩
      rw [withLf_cons hcrlf, List.mem_cons, not_or]
      exact ⟨hc.symm, ih ht⟩

/-- A text without carriage returns gets them where they belong. -/
theorem allCrlf_withCrlf {t : Text} (h : '\r' ∉ t) : AllCrlf (withCrlf t) := by
  induction t with
  | nil => exact .nil
  | cons c t ih =>
      rw [List.mem_cons, not_or] at h
      have htail := ih h.2
      by_cases hlf : c = '\n'
      · rw [hlf, withCrlf_lf]
        exact AllCrlf.append (s := ['\r', '\n']) ⟨⟨by simp, by simp⟩, ⟨by simp, by simp⟩⟩ htail
      · rw [withCrlf_cons hlf]
        refine AllCrlf.append (s := [c]) ⟨⟨?_, .singleton c⟩, ⟨?_, .singleton c⟩⟩ htail
        · simpa using hlf
        · simpa using Ne.symm h.1

/-- A text in which a line feed has no carriage return gets longer, any other stays as it is. -/
theorem withCrlf_withLf_eq_self_or_longer (t : Text) :
    CrBeforeLf t ∧ withCrlf (withLf t) = t ∨
      ¬ CrBeforeLf t ∧ t.length < (withCrlf (withLf t)).length := by
  induction t using lineBreak_induction with
  | nil => exact .inl ⟨.nil, rfl⟩
  | crlf t ih =>
      have hiff : CrBeforeLf ('\r' :: '\n' :: t) ↔ CrBeforeLf t := by
        constructor
        · intro h
          refine ⟨fun hlf => ?_, h.chain.tail.tail⟩
          exact absurd (h.chain.tail.rel_head? hlf rfl) (by decide)
        · intro h
          exact CrBeforeLf.append (s := ['\r', '\n']) ⟨by simp, by simp⟩ h
      simpa [hiff] using ih
  | lf t ih =>
      refine .inr ⟨fun h => h.head rfl, ?_⟩
      have hle : t.length ≤ (withCrlf (withLf t)).length := by
        rcases ih with ⟨-, heq⟩ | ⟨-, hlt⟩
        · rw [heq]
        · exact hlt.le
      simp only [withLf_lf, withCrlf_lf, List.length_cons]
      omega
  | other c t hlf hcrlf ih =>
      have hiff : CrBeforeLf (c :: t) ↔ CrBeforeLf t := by
        constructor
        · intro h
          exact ⟨fun ht => hcrlf ⟨h.chain.rel_head? ht rfl, ht⟩, h.chain.tail⟩
        · intro h
          exact CrBeforeLf.append (s := [c]) ⟨by simpa using hlf, .singleton c⟩ h
      rw [withLf_cons hcrlf, withCrlf_cons hlf, hiff]
      simpa using ih

/-- **A text keeps its line breaks exactly when every line feed has its carriage return.** -/
theorem withCrlf_withLf_eq_self_iff {t : Text} : withCrlf (withLf t) = t ↔ CrBeforeLf t := by
  rcases withCrlf_withLf_eq_self_or_longer t with ⟨h, heq⟩ | ⟨h, hlt⟩
  · exact ⟨fun _ => h, fun _ => heq⟩
  · refine ⟨fun heq => ?_, fun h' => absurd h' h⟩
    rw [heq] at hlt
    exact absurd hlt (lt_irrefl _)

theorem length_lt_withCrlf_withLf {t : Text} (h : ¬ CrBeforeLf t) :
    t.length < (withCrlf (withLf t)).length := by
  rcases withCrlf_withLf_eq_self_or_longer t with ⟨h', -⟩ | ⟨-, hlt⟩
  · exact absurd h' h
  · exact hlt

/-! ## Which kind a text has -/

/-- Where no line feed comes with a carriage return, there is nothing to make into one. -/
theorem withLf_of_not_contains {t : Text} (h : contains t "\r\n" = false) : withLf t = t := by
  refine replaceFrom_of_not_occursAt ?_ "\n".toList none
  rintro ⟨i, hi⟩
  have hinside := hi.isInfix.trans (List.drop_suffix i t).isInfix
  rw [← Bool.not_eq_true, contains_iff] at h
  exact h hinside

theorem contains_crlf_of_allCrlf {t : Text} (h : AllCrlf t) (hmem : '\n' ∈ t) :
    contains t "\r\n" = true := by
  rw [contains_iff]
  obtain ⟨before, after, rfl⟩ := List.append_of_mem hmem
  rcases List.eq_nil_or_concat before with rfl | ⟨before, c, rfl⟩
  · exact absurd rfl h.crBeforeLf.head
  · have hc : c = '\r' :=
      (List.isChain_append.mp h.crBeforeLf.chain).2.2 c (by simp) '\n' rfl rfl
    exact ⟨before, after, by simp [hc]⟩

theorem not_contains_crlf_of_notMem {t : Text} (h : '\r' ∉ t) : contains t "\r\n" = false := by
  rw [← Bool.not_eq_true, contains_iff]
  intro hinside
  exact h (hinside.subset (by simp))

end Text
