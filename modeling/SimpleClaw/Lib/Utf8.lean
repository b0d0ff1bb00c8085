import Mathlib.Algebra.Group.Nat.Defs
import SimpleClaw.Lib.Text

/-!
# Reading UTF-8

Bytes are read as text character by character.  What is wrong with bytes that are not text is
said the way a strict reader says it: up to where they are text, and how many bytes after that
cannot be part of any, if the bytes do not just end within a character.

* `Utf8.read`: the text, or what is wrong.
* `Utf8.read_append_eq_ok_iff`: bytes after text are text exactly if all of them together are.
-/

namespace Utf8

/-- The bytes are text up to `validUpTo`; the `errorLen` bytes that follow are in no text, or the
bytes end within a character. -/
structure Error where
  validUpTo : Nat
  errorLen : Option Nat
  deriving DecidableEq

def Error.display : Error → Text
  | ⟨validUpTo, some errorLen⟩ =>
      ("invalid utf-8 sequence of " : Text) ++ Text.decimal errorLen ++
        (" bytes from index " : Text) ++ Text.decimal validUpTo
  | ⟨validUpTo, none⟩ =>
      ("incomplete utf-8 byte sequence from index " : Text) ++ Text.decimal validUpTo

/-- A result that is changed when there is one, is there. -/
theorem map_eq_ok_iff {ε α β : Type*} {f : α → β} {x : Except ε α} {b : β} :
    x.map f = .ok b ↔ ∃ a, x = .ok a ∧ f a = b := by
  cases x with
  | error e => simp [Except.map]
  | ok a => simp [Except.map]

/-! ## One character -/

/-- The bytes after the first one of a character. -/
def isTail (b : UInt8) : Bool := 0x80 ≤ b && b ≤ 0xBF

/-- The second bytes of the characters of three and four bytes: no character is written longer
than needed, is a surrogate, or lies beyond the last one. -/
def isSecond (a b : UInt8) : Bool :=
  if a = 0xE0 then 0xA0 ≤ b && b ≤ 0xBF
  else if a = 0xED then 0x80 ≤ b && b ≤ 0x9F
  else if a = 0xF0 then 0x90 ≤ b && b ≤ 0xBF
  else if a = 0xF4 then 0x80 ≤ b && b ≤ 0x8F
  else isTail b

/-- How many bytes come after the first one of a character; `none` if no character starts with
it. -/
def tailCount (a : UInt8) : Option Nat :=
  if a ≤ 0x7F then some 0
  else if 0xC2 ≤ a ∧ a ≤ 0xDF then some 1
  else if 0xE0 ≤ a ∧ a ≤ 0xEF then some 2
  else if 0xF0 ≤ a ∧ a ≤ 0xF4 then some 3
  else none

/-- The bits of a first byte that count. -/
def leadBits (a : UInt8) : Nat → Nat
  | 0 => a.toNat
  | n + 1 => a.toNat % 2 ^ (5 - n)

/-- The six bits a later byte adds. -/
def shiftIn (code : Nat) (b : UInt8) : Nat := code * 64 + b.toNat % 64

/-- The bytes of a character from the third on, `seen` bytes having been read. -/
def readTails (seen : Nat) : Nat → Nat → List UInt8 → Except (Option Nat) Nat
  | 0, code, _ => .ok code
  | _ + 1, _, [] => .error none
  | n + 1, code, b :: rest =>
      if isTail b then readTails (seen + 1) n (shiftIn code b) rest else .error (some seen)

/-- The bytes of a character after the first one. -/
def readRest (a : UInt8) : Nat → List UInt8 → Except (Option Nat) Nat
  | 0, _ => .ok (leadBits a 0)
  | _ + 1, [] => .error none
  | n + 1, b :: rest =>
      if isSecond a b then readTails 2 n (shiftIn (leadBits a (n + 1)) b) rest
      else .error (some 1)

/-- The character that starts with this byte, and how many of the bytes that follow belong to
it. -/
def readChar (a : UInt8) (rest : List UInt8) : Except (Option Nat) (Char × Nat) :=
  match tailCount a with
  | none => .error (some 1)
  | some n => (readRest a n rest).map fun code => (Char.ofNat code, n)

theorem readTails_append {seen n code result : Nat} {rest : List UInt8}
    (h : readTails seen n code rest = .ok result) (more : List UInt8) :
    readTails seen n code (rest ++ more) = .ok result ∧ n ≤ rest.length := by
  induction n generalizing seen code rest with
  | zero => exact ⟨h, Nat.zero_le _⟩
  | succ n ih =>
      cases rest with
      | nil => cases h
      | cons b rest =>
          rw [readTails] at h
          split at h
          · next htail =>
            obtain ⟨hrest, hlength⟩ := ih h
            rw [List.cons_append, readTails, if_pos htail, hrest, List.length_cons]
            exact ⟨rfl, by omega⟩
          · cases h

theorem readRest_append {a : UInt8} {n result : Nat} {rest : List UInt8}
    (h : readRest a n rest = .ok result) (more : List UInt8) :
    readRest a n (rest ++ more) = .ok result ∧ n ≤ rest.length := by
  cases n with
  | zero => exact ⟨h, Nat.zero_le _⟩
  | succ n =>
      cases rest with
      | nil => cases h
      | cons b rest =>
          rw [readRest] at h
          split at h
          · next hsecond =>
            obtain ⟨hrest, hlength⟩ := readTails_append h more
            rw [List.cons_append, readRest, if_pos hsecond, hrest, List.length_cons]
            exact ⟨rfl, by omega⟩
          · cases h

/-- **A character is read the same whatever comes after its bytes.** -/
theorem readChar_append {a : UInt8} {rest : List UInt8} {c : Char} {n : Nat}
    (h : readChar a rest = .ok (c, n)) (more : List UInt8) :
    readChar a (rest ++ more) = .ok (c, n) ∧ n ≤ rest.length := by
  rw [readChar] at h ⊢
  split at h
  · cases h
  · next m hm =>
    obtain ⟨code, hcode, hchar⟩ := map_eq_ok_iff.mp h
    obtain ⟨rfl, rfl⟩ := Prod.mk.inj hchar
    obtain ⟨hmore, hlength⟩ := readRest_append hcode more
    exact ⟨by rw [hmore]; rfl, hlength⟩

/-! ## Text -/

/-- Reads on at an index, after as many bytes as belong to the character read last. -/
def readFrom (index : Nat) : Nat → List UInt8 → Except Error Text
  | _, [] => .ok []
  | skip + 1, _ :: rest => readFrom (index + 1) skip rest
  | 0, a :: rest =>
      match readChar a rest with
      | .error errorLen => .error ⟨index, errorLen⟩
      | .ok (c, n) => (readFrom (index + 1) n rest).map (c :: ·)

/-- The text the bytes are. -/
def read (bytes : List UInt8) : Except Error Text := readFrom 0 0 bytes

example : read [0x68, 0xC3, 0xA9, 0xE2, 0x82, 0xAC, 0xF0, 0x9F, 0x98, 0x80] = .ok "hé€😀".toList ∧
    read [0x68, 0xC3] = .error ⟨1, none⟩ ∧ read [0xE2, 0x82, 0x41] = .error ⟨0, some 2⟩ ∧
      read [0xED, 0xA0, 0x80] = .error ⟨0, some 1⟩ := by
  decide

/-- The index is only for what is wrong. -/
theorem readFrom_eq_ok_of_index {i j skip : Nat} {bytes : List UInt8} {t : Text}
    (h : readFrom i skip bytes = .ok t) : readFrom j skip bytes = .ok t := by
  induction bytes generalizing i j skip t with
  | nil =>
      rw [readFrom] at h ⊢
      exact h
  | cons a rest ih =>
      cases skip with
      | succ skip =>
          rw [readFrom] at h ⊢
          exact ih h
      | zero =>
          rw [readFrom] at h ⊢
          split at h
          · cases h
          · obtain ⟨t', ht', rfl⟩ := map_eq_ok_iff.mp h
            rw [ih ht']
            rfl

/-- Bytes that follow text are read as if they came first. -/
theorem readFrom_append {i skip : Nat} {bytes more : List UInt8} {t : Text}
    (h : readFrom i skip bytes = .ok t) (hskip : skip ≤ bytes.length) :
    readFrom i skip (bytes ++ more) = (readFrom (i + bytes.length) 0 more).map (t ++ ·) := by
  induction bytes generalizing i skip t with
  | nil =>
      obtain rfl : skip = 0 := Nat.le_zero.mp hskip
      obtain rfl : [] = t := Except.ok.inj h
      cases hmore : readFrom i 0 more with
      | error e => exact hmore
      | ok t => exact hmore
  | cons a rest ih =>
      have hindex : i + (a :: rest).length = i + 1 + rest.length := by
        rw [List.length_cons]
        omega
      rw [hindex]
      cases skip with
      | succ skip =>
          rw [readFrom] at h
          rw [List.cons_append, readFrom]
          exact ih h (Nat.le_of_succ_le_succ hskip)
      | zero =>
          rw [readFrom] at h
          rw [List.cons_append, readFrom]
          cases hchar : readChar a rest with
          | error e =>
              rw [hchar] at h
              cases h
          | ok result =>
              obtain ⟨c, n⟩ := result
              rw [hchar] at h
              obtain ⟨t', ht', rfl⟩ := map_eq_ok_iff.mp h
              obtain ⟨hmore, hn⟩ := readChar_append hchar more
              simp only [hmore, ih ht' hn]
              cases readFrom (i + 1 + rest.length) 0 more <;> rfl

theorem read_nil : read [] = .ok [] := rfl

/-- **Bytes after text are text exactly if all of them together are.** -/
theorem read_append_eq_ok_iff {bytes more : List UInt8} {t whole : Text}
    (h : read bytes = .ok t) :
    read (bytes ++ more) = .ok whole ↔ ∃ t', read more = .ok t' ∧ whole = t ++ t' := by
  rw [read, readFrom_append h (Nat.zero_le _), map_eq_ok_iff]
  constructor
  · rintro ⟨t', ht', rfl⟩
    exact ⟨t', readFrom_eq_ok_of_index ht', rfl⟩
  · rintro ⟨t', ht', rfl⟩
    exact ⟨t', readFrom_eq_ok_of_index ht', rfl⟩

end Utf8
