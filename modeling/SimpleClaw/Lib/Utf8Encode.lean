import SimpleClaw.Lib.ByteSlice
import SimpleClaw.Lib.Utf8

/-!
# Writing UTF-8

A text is written as bytes, character by character, and what is written is what can be read.  A
place among the bytes of a text is between two of its characters or within one; from a place within
a character on, the bytes are no text.

* `Encodes`: the bytes of a code, as they are read.
* `encode`, `read_eq_ok_iff`: the bytes of a text, which are the bytes that are read as it.
* `not_read_drop_encode`: no text begins within a character.
* `exists_drop_encode`: from a place between two characters on, the bytes are those of the rest.
* `infix_of_encode`: text within the bytes of a text is within the text.
-/

namespace Utf8

/-! ## Bytes as numbers -/

theorem isTail_iff {b : UInt8} : isTail b = true ↔ 0x80 ≤ b.toNat ∧ b.toNat ≤ 0xBF := by
  simp [isTail, UInt8.le_iff_toNat_le]

/-- The second byte goes with the first one. -/
structure IsSecond (a b : Nat) : Prop where
  tail : 0x80 ≤ b ∧ b ≤ 0xBF
  shortest : (a = 0xE0 → 0xA0 ≤ b) ∧ (a = 0xF0 → 0x90 ≤ b)
  valid : (a = 0xED → b ≤ 0x9F) ∧ (a = 0xF4 → b ≤ 0x8F)

theorem isSecond_iff {a b : UInt8} : isSecond a b = true ↔ IsSecond a.toNat b.toNat := by
  have hsecond : IsSecond a.toNat b.toNat ↔ (0x80 ≤ b.toNat ∧ b.toNat ≤ 0xBF) ∧
      ((a.toNat = 0xE0 → 0xA0 ≤ b.toNat) ∧ (a.toNat = 0xF0 → 0x90 ≤ b.toNat)) ∧
        (a.toNat = 0xED → b.toNat ≤ 0x9F) ∧ (a.toNat = 0xF4 → b.toNat ≤ 0x8F) :=
    ⟨fun h => ⟨h.tail, h.shortest, h.valid⟩, fun h => ⟨h.1, h.2.1, h.2.2⟩⟩
  have hrange : ∀ lo hi : UInt8, (decide (lo ≤ b) && decide (b ≤ hi)) = true ↔
      lo.toNat ≤ b.toNat ∧ b.toNat ≤ hi.toNat := fun lo hi => by
    rw [Bool.and_eq_true, decide_eq_true_eq, decide_eq_true_eq, UInt8.le_iff_toNat_le,
      UInt8.le_iff_toNat_le]
  rw [hsecond]
  simp only [isSecond, isTail, ← UInt8.toNat_inj]
  split
  · next h => rw [hrange]; simp at h ⊢; omega
  · next h =>
    split
    · next h' => rw [hrange]; simp at h h' ⊢; omega
    · next h' =>
      split
      · next h'' => rw [hrange]; simp at h h' h'' ⊢; omega
      · next h'' =>
        split
        · next h''' => rw [hrange]; simp at h h' h'' h''' ⊢; omega
        · next h''' => rw [hrange]; simp at h h' h'' h''' ⊢; omega

theorem tailCount_eq (a : UInt8) : tailCount a =
    if a.toNat ≤ 0x7F then some 0
    else if 0xC2 ≤ a.toNat ∧ a.toNat ≤ 0xDF then some 1
    else if 0xE0 ≤ a.toNat ∧ a.toNat ≤ 0xEF then some 2
    else if 0xF0 ≤ a.toNat ∧ a.toNat ≤ 0xF4 then some 3
    else none := by
  simp only [tailCount, UInt8.le_iff_toNat_le]
  rfl

/-! ## The bytes of a code -/

/-- The bytes of a code: as many as it needs. -/
inductive Encodes : Nat → List UInt8 → Prop where
  | one {a : UInt8} (ha : a.toNat ≤ 0x7F) : Encodes a.toNat [a]
  | two {a b : UInt8} (ha : 0xC2 ≤ a.toNat ∧ a.toNat ≤ 0xDF) (hb : isSecond a b = true) :
      Encodes (a.toNat % 32 * 64 + b.toNat % 64) [a, b]
  | three {a b c : UInt8} (ha : 0xE0 ≤ a.toNat ∧ a.toNat ≤ 0xEF) (hb : isSecond a b = true)
      (hc : isTail c = true) :
      Encodes ((a.toNat % 16 * 64 + b.toNat % 64) * 64 + c.toNat % 64) [a, b, c]
  | four {a b c d : UInt8} (ha : 0xF0 ≤ a.toNat ∧ a.toNat ≤ 0xF4) (hb : isSecond a b = true)
      (hc : isTail c = true) (hd : isTail d = true) :
      Encodes (((a.toNat % 8 * 64 + b.toNat % 64) * 64 + c.toNat % 64) * 64 + d.toNat % 64)
        [a, b, c, d]

/-- They are read as the character of the code, whatever comes after them. -/
theorem Encodes.readChar {code : Nat} {a : UInt8} {tails : List UInt8}
    (h : Encodes code (a :: tails)) (more : List UInt8) :
    readChar a (tails ++ more) = .ok (Char.ofNat code, tails.length) := by
  rw [Utf8.readChar, tailCount_eq]
  cases h with
  | one ha =>
      rw [if_pos ha]
      rfl
  | two ha hb =>
      rw [if_neg (by omega), if_pos ha]
      simp only [List.cons_append, List.nil_append, readRest, hb, if_true, readTails]
      rfl
  | three ha hb hc =>
      rw [if_neg (by omega), if_neg (by omega), if_pos ha]
      simp only [List.cons_append, List.nil_append, readRest, hb, if_true, readTails, hc]
      rfl
  | four ha hb hc hd =>
      rw [if_neg (by omega), if_neg (by omega), if_neg (by omega), if_pos ha]
      simp only [List.cons_append, List.nil_append, readRest, hb, if_true, readTails, hc, hd]
      rfl

/-- As many later bytes are read as are asked for. -/
theorem readTails_eq_ok {seen n code result : Nat} {rest : List UInt8}
    (h : readTails seen n code rest = .ok result) : ∃ tails more, rest = tails ++ more ∧
      tails.length = n ∧ (∀ b ∈ tails, isTail b = true) ∧ result = tails.foldl shiftIn code := by
  induction n generalizing seen code rest with
  | zero => exact ⟨[], rest, rfl, rfl, by simp, (Except.ok.inj h).symm⟩
  | succ n ih =>
      cases rest with
      | nil => cases h
      | cons b rest =>
          rw [readTails] at h
          split at h
          · next hb =>
              obtain ⟨tails, more, rfl, rfl, htails, rfl⟩ := ih h
              exact ⟨b :: tails, more, rfl, rfl, List.forall_mem_cons.mpr ⟨hb, htails⟩, rfl⟩
          · cases h

theorem readRest_eq_ok {a : UInt8} {n result : Nat} {rest : List UInt8}
    (h : readRest a (n + 1) rest = .ok result) : ∃ b tails more, rest = b :: tails ++ more ∧
      tails.length = n ∧ isSecond a b = true ∧ (∀ b ∈ tails, isTail b = true) ∧
        result = tails.foldl shiftIn (shiftIn (leadBits a (n + 1)) b) := by
  cases rest with
  | nil => cases h
  | cons b rest =>
      rw [readRest] at h
      split at h
      · next hb =>
          obtain ⟨tails, more, rfl, hlength, htails, hresult⟩ := readTails_eq_ok h
          exact ⟨b, tails, more, rfl, hlength, hb, htails, hresult⟩
      · cases h

/-- **Nothing else is read as a character.** -/
theorem encodes_of_readChar {a : UInt8} {rest : List UInt8} {c : Char} {n : Nat}
    (h : readChar a rest = .ok (c, n)) : ∃ code tails more, rest = tails ++ more ∧
      tails.length = n ∧ c = Char.ofNat code ∧ Encodes code (a :: tails) := by
  rw [readChar, tailCount_eq] at h
  split at h
  · cases h
  · next m hm =>
    obtain ⟨code, hcode, hchar⟩ := map_eq_ok_iff.mp h
    obtain ⟨rfl, rfl⟩ := Prod.mk.inj hchar
    split at hm
    · next ha =>
      obtain rfl := Option.some.inj hm
      obtain rfl : a.toNat = code := Except.ok.inj hcode
      exact ⟨_, [], rest, rfl, rfl, rfl, .one ha⟩
    · split at hm
      · next ha =>
        obtain rfl := Option.some.inj hm
        obtain ⟨b, tails, more, rfl, hlength, hb, -, rfl⟩ := readRest_eq_ok hcode
        obtain rfl := List.length_eq_zero_iff.mp hlength
        exact ⟨_, [b], more, rfl, rfl, rfl, .two ha hb⟩
      · split at hm
        · next ha =>
          obtain rfl := Option.some.inj hm
          obtain ⟨b, tails, more, rfl, hlength, hb, htails, rfl⟩ := readRest_eq_ok hcode
          obtain ⟨c, rfl⟩ := List.length_eq_one_iff.mp hlength
          exact ⟨_, [b, c], more, rfl, rfl, rfl, .three ha hb (htails c (by simp))⟩
        · split at hm
          · next ha =>
            obtain rfl := Option.some.inj hm
            obtain ⟨b, tails, more, rfl, hlength, hb, htails, rfl⟩ := readRest_eq_ok hcode
            obtain ⟨c, d, rfl⟩ := List.length_eq_two.mp hlength
            exact ⟨_, [b, c, d], more, rfl, rfl, rfl,
              .four ha hb (htails c (by simp)) (htails d (by simp))⟩
          · cases hm

/-- The bytes of a code as numbers. -/
def codeBytes (v : Nat) : List Nat :=
  if v ≤ 0x7F then [v]
  else if v ≤ 0x7FF then [v / 64 + 0xC0, v % 64 + 0x80]
  else if v ≤ 0xFFFF then [v / 4096 + 0xE0, v / 64 % 64 + 0x80, v % 64 + 0x80]
  else [v / 262144 + 0xF0, v / 4096 % 64 + 0x80, v / 64 % 64 + 0x80, v % 64 + 0x80]

theorem map_toNat_utf8EncodeChar (c : Char) :
    (String.utf8EncodeChar c).map UInt8.toNat = codeBytes c.toNat := by
  have hvalid : c.toNat.isValidChar := c.valid
  unfold Nat.isValidChar at hvalid
  have hval : c.val.toNat = c.toNat := rfl
  simp only [String.utf8EncodeChar, hval, codeBytes]
  split
  · simp; omega
  · split
    · simp; omega
    · split
      · simp; omega
      · simp; omega

theorem eq_utf8EncodeChar_iff {bytes : List UInt8} {c : Char} :
    bytes = String.utf8EncodeChar c ↔ bytes.map UInt8.toNat = codeBytes c.toNat := by
  rw [← map_toNat_utf8EncodeChar]
  exact ((List.map_injective_iff.mpr fun _ _ => UInt8.toNat_inj.mp).eq_iff).symm

theorem toNat_ofNat {n : Nat} (h : n.isValidChar) : (Char.ofNat n).toNat = n := by
  rw [Char.ofNat, dif_pos h]
  rfl

/-- The code is that of a character, and the bytes are its bytes. -/
theorem Encodes.eq_utf8EncodeChar {code : Nat} {bytes : List UInt8} (h : Encodes code bytes) :
    bytes = String.utf8EncodeChar (Char.ofNat code) := by
  rw [eq_utf8EncodeChar_iff]
  cases h with
  | @one a ha =>
      rw [toNat_ofNat (.inl (by omega)), codeBytes, if_pos ha]
      rfl
  | @two a b ha hb =>
      obtain ⟨htail, -, -⟩ := isSecond_iff.mp hb
      generalize hv : a.toNat % 32 * 64 + b.toNat % 64 = v
      have hrange : 0x80 ≤ v ∧ v ≤ 0x7FF := by omega
      rw [toNat_ofNat (.inl (by omega)), codeBytes, if_neg (by omega), if_pos hrange.2]
      have h1 : v / 64 + 0xC0 = a.toNat := by omega
      have h2 : v % 64 + 0x80 = b.toNat := by omega
      rw [h1, h2]
      rfl
  | @three a b c ha hb hc =>
      obtain ⟨htail, hshortest, hvalid⟩ := isSecond_iff.mp hb
      rw [isTail_iff] at hc
      generalize hv : (a.toNat % 16 * 64 + b.toNat % 64) * 64 + c.toNat % 64 = v
      have hchar : v.isValidChar := by
        unfold Nat.isValidChar
        omega
      have hrange : 0x800 ≤ v ∧ v ≤ 0xFFFF := by omega
      rw [toNat_ofNat hchar, codeBytes, if_neg (by omega), if_neg (by omega), if_pos hrange.2]
      have h1 : v / 4096 + 0xE0 = a.toNat := by omega
      have h2 : v / 64 % 64 + 0x80 = b.toNat := by omega
      have h3 : v % 64 + 0x80 = c.toNat := by omega
      rw [h1, h2, h3]
      rfl
  | @four a b c d ha hb hc hd =>
      obtain ⟨htail, hshortest, hvalid⟩ := isSecond_iff.mp hb
      rw [isTail_iff] at hc hd
      generalize hv :
        ((a.toNat % 8 * 64 + b.toNat % 64) * 64 + c.toNat % 64) * 64 + d.toNat % 64 = v
      have hrange : 0x10000 ≤ v ∧ v < 0x110000 := by omega
      rw [toNat_ofNat (.inr ⟨by omega, hrange.2⟩), codeBytes, if_neg (by omega),
        if_neg (by omega), if_neg (by omega)]
      have h1 : v / 262144 + 0xF0 = a.toNat := by omega
      have h2 : v / 4096 % 64 + 0x80 = b.toNat := by omega
      have h3 : v / 64 % 64 + 0x80 = c.toNat := by omega
      have h4 : v % 64 + 0x80 = d.toNat := by omega
      rw [h1, h2, h3, h4]
      rfl

theorem encodes_of_eq {code : Nat} {bytes bytes' : List UInt8} (h : Encodes code bytes)
    {code' : Nat} (hcode : code = code') (hbytes : bytes = bytes') : Encodes code' bytes' :=
  hcode ▸ hbytes ▸ h

/-- The bytes of a character are those of its code. -/
theorem encodes_utf8EncodeChar (c : Char) : Encodes c.toNat (String.utf8EncodeChar c) := by
  have hvalid : c.toNat.isValidChar := c.valid
  unfold Nat.isValidChar at hvalid
  have hbytes := map_toNat_utf8EncodeChar c
  generalize c.toNat = v at hvalid hbytes
  generalize String.utf8EncodeChar c = bytes at hbytes
  rw [codeBytes] at hbytes
  split at hbytes
  · obtain ⟨a, rest, rfl, ha, hrest⟩ := List.map_eq_cons_iff.mp hbytes
    obtain rfl := List.map_eq_nil_iff.mp hrest
    exact ha ▸ .one (by omega)
  · split at hbytes
    · obtain ⟨a, rest, rfl, ha, hrest⟩ := List.map_eq_cons_iff.mp hbytes
      obtain ⟨b, rest, rfl, hb, hrest⟩ := List.map_eq_cons_iff.mp hrest
      obtain rfl := List.map_eq_nil_iff.mp hrest
      have hsecond : isSecond a b = true := isSecond_iff.mpr ⟨by omega, by omega, by omega⟩
      exact encodes_of_eq (.two (by omega) hsecond) (by omega) rfl
    · split at hbytes
      · obtain ⟨a, rest, rfl, ha, hrest⟩ := List.map_eq_cons_iff.mp hbytes
        obtain ⟨b, rest, rfl, hb, hrest⟩ := List.map_eq_cons_iff.mp hrest
        obtain ⟨c, rest, rfl, hc, hrest⟩ := List.map_eq_cons_iff.mp hrest
        obtain rfl := List.map_eq_nil_iff.mp hrest
        have hsecond : isSecond a b = true := isSecond_iff.mpr ⟨by omega, by omega, by omega⟩
        have htail : isTail c = true := isTail_iff.mpr (by omega)
        exact encodes_of_eq (.three (by omega) hsecond htail) (by omega) rfl
      · obtain ⟨a, rest, rfl, ha, hrest⟩ := List.map_eq_cons_iff.mp hbytes
        obtain ⟨b, rest, rfl, hb, hrest⟩ := List.map_eq_cons_iff.mp hrest
        obtain ⟨c, rest, rfl, hc, hrest⟩ := List.map_eq_cons_iff.mp hrest
        obtain ⟨d, rest, rfl, hd, hrest⟩ := List.map_eq_cons_iff.mp hrest
        obtain rfl := List.map_eq_nil_iff.mp hrest
        have hsecond : isSecond a b = true := isSecond_iff.mpr ⟨by omega, by omega, by omega⟩
        have htail : isTail c = true := isTail_iff.mpr (by omega)
        have htail' : isTail d = true := isTail_iff.mpr (by omega)
        exact encodes_of_eq (.four (by omega) hsecond htail htail') (by omega) rfl

/-! ## First bytes and later ones -/

theorem Encodes.ne_nil {code : Nat} {bytes : List UInt8} (h : Encodes code bytes) : bytes ≠ [] := by
  cases h <;> exact List.cons_ne_nil _ _

/-- No character begins with a later byte. -/
theorem readChar_of_isTail {a : UInt8} (h : isTail a = true) (rest : List UInt8) :
    readChar a rest = .error (some 1) := by
  rw [isTail_iff] at h
  have hcount : tailCount a = none := by
    rw [tailCount_eq, if_neg (by omega), if_neg (by omega), if_neg (by omega), if_neg (by omega)]
  rw [readChar, hcount]

theorem isTail_of_isSecond {a b : UInt8} (h : isSecond a b = true) : isTail b = true :=
  isTail_iff.mpr (isSecond_iff.mp h).tail

theorem Encodes.isTail_of_mem {code : Nat} {a b : UInt8} {tails : List UInt8}
    (h : Encodes code (a :: tails)) (hb : b ∈ tails) : isTail b = true := by
  cases h with
  | one ha => exact absurd hb List.not_mem_nil
  | two ha hsecond =>
      obtain rfl := List.mem_singleton.mp hb
      exact isTail_of_isSecond hsecond
  | three ha hsecond hc =>
      obtain rfl | hb := List.mem_cons.mp hb
      · exact isTail_of_isSecond hsecond
      · obtain rfl := List.mem_singleton.mp hb
        exact hc
  | four ha hsecond hc hd =>
      obtain rfl | hb := List.mem_cons.mp hb
      · exact isTail_of_isSecond hsecond
      · obtain rfl | hb := List.mem_cons.mp hb
        · exact hc
        · obtain rfl := List.mem_singleton.mp hb
          exact hd

/-! ## The bytes of a text -/

/-- The bytes of a text. -/
def encode (t : Text) : List UInt8 := t.flatMap String.utf8EncodeChar

@[simp] theorem encode_nil : encode [] = [] := rfl

theorem encode_cons (c : Char) (t : Text) :
    encode (c :: t) = String.utf8EncodeChar c ++ encode t :=
  rfl

theorem encode_append (s t : Text) : encode (s ++ t) = encode s ++ encode t :=
  List.flatMap_append

theorem length_encode (t : Text) : (encode t).length = t.utf8Len := by
  induction t with
  | nil => rfl
  | cons c t ih =>
      rw [encode_cons, List.length_append, String.length_utf8EncodeChar, ih, Text.utf8Len_cons]

/-- The bytes of a character: its first byte and later ones. -/
theorem exists_utf8EncodeChar (c : Char) :
    ∃ a tails, String.utf8EncodeChar c = a :: tails ∧ Encodes c.toNat (a :: tails) := by
  have h := encodes_utf8EncodeChar c
  obtain ⟨a, tails, hcons⟩ := List.exists_cons_of_ne_nil h.ne_nil
  exact ⟨a, tails, hcons, hcons ▸ h⟩

/-- Bytes that were read with the character before them are passed over. -/
theorem readFrom_skip {i : Nat} {tails more : List UInt8} :
    readFrom i tails.length (tails ++ more) = readFrom (i + tails.length) 0 more := by
  induction tails generalizing i with
  | nil => rfl
  | cons b tails ih =>
      rw [List.length_cons, List.cons_append, readFrom, ih]
      congr 1
      omega

/-- The character that is read first, and the text of what follows its bytes. -/
theorem read_cons_eq_ok_iff {a : UInt8} {rest : List UInt8} {t : Text} :
    read (a :: rest) = .ok t ↔ ∃ c tails more t', a :: rest = a :: tails ++ more ∧
      readChar a rest = .ok (c, tails.length) ∧ read more = .ok t' ∧ t = c :: t' := by
  rw [read, readFrom]
  constructor
  · intro h
    split at h
    · cases h
    · next c n hchar =>
      obtain ⟨t', ht', rfl⟩ := map_eq_ok_iff.mp h
      obtain ⟨code, tails, more, rfl, rfl, -, -⟩ := encodes_of_readChar hchar
      rw [readFrom_skip] at ht'
      exact ⟨c, tails, more, t', rfl, hchar, readFrom_eq_ok_of_index ht', rfl⟩
  · rintro ⟨c, tails, more, t', hrest, hchar, ht', rfl⟩
    obtain rfl : rest = tails ++ more := (List.cons.inj hrest).2
    rw [hchar]
    show (readFrom 1 tails.length (tails ++ more)).map (c :: ·) = _
    rw [readFrom_skip, readFrom_eq_ok_of_index ht']
    rfl

/-- A text is read from its bytes. -/
theorem read_encode (t : Text) : read (encode t) = .ok t := by
  induction t with
  | nil => rfl
  | cons c t ih =>
      obtain ⟨a, tails, hcons, hencodes⟩ := exists_utf8EncodeChar c
      rw [encode_cons, hcons, List.cons_append, read_cons_eq_ok_iff]
      have hchar := hencodes.readChar (encode t)
      rw [Char.ofNat_toNat] at hchar
      exact ⟨c, tails, encode t, t, rfl, hchar, ih, rfl⟩

/-- **The bytes of a text are exactly those that are read as it.** -/
theorem read_eq_ok_iff {bytes : List UInt8} {t : Text} : read bytes = .ok t ↔ bytes = encode t := by
  constructor
  · intro h
    induction t generalizing bytes with
    | nil =>
        cases bytes with
        | nil => rfl
        | cons a rest =>
            obtain ⟨c, tails, more, t', -, -, -, hnil⟩ := read_cons_eq_ok_iff.mp h
            cases hnil
    | cons c t ih =>
        cases bytes with
        | nil => cases h
        | cons a rest =>
            obtain ⟨d, tails, more, t', hrest, hchar, ht', heq⟩ := read_cons_eq_ok_iff.mp h
            obtain ⟨rfl, rfl⟩ := List.cons.inj heq
            obtain ⟨code, tails', more', rfl, hlength, rfl, hencodes⟩ := encodes_of_readChar hchar
            obtain ⟨rfl, rfl⟩ := List.append_inj (List.cons.inj hrest).2 hlength
            rw [encode_cons, ← ih ht', ← hencodes.eq_utf8EncodeChar]
            rfl
  · rintro rfl
    exact read_encode t

theorem encode_injective {s t : Text} (h : encode s = encode t) : s = t :=
  Except.ok.inj ((read_encode s).symm.trans (read_eq_ok_iff.mpr h))

/-! ## Places among the bytes -/

/-- From a place within a character on, the bytes begin with a later one. -/
theorem drop_encode_of_straddles {n : Nat} {t : Text} (h : t.Straddles n) :
    ∃ b rest, (encode t).drop n = b :: rest ∧ isTail b = true := by
  obtain ⟨p, c, s, rfl, hlt, hgt⟩ := h
  obtain ⟨a, tails, hcons, hencodes⟩ := exists_utf8EncodeChar c
  have hsize : tails.length + 1 = c.utf8Size := by
    rw [← String.length_utf8EncodeChar, hcons, List.length_cons]
  obtain ⟨k, rfl⟩ : ∃ k, n = (encode p).length + (k + 1) :=
    ⟨n - p.utf8Len - 1, by rw [length_encode]; omega⟩
  rw [length_encode] at hlt hgt
  have hk : k < tails.length := by omega
  rw [encode_append, List.drop_length_add_append, encode_cons, hcons, List.cons_append,
    List.drop_succ_cons, List.drop_append_of_le_length hk.le, List.drop_eq_getElem_cons hk,
    List.cons_append]
  exact ⟨_, _, rfl, hencodes.isTail_of_mem (List.getElem_mem hk)⟩

/-- No text begins with a later byte. -/
theorem encode_ne_of_isTail {b : UInt8} {rest : List UInt8} (h : isTail b = true) (t : Text) :
    encode t ≠ b :: rest := by
  intro heq
  have hread := read_eq_ok_iff.mpr heq.symm
  obtain ⟨c, tails, more, t', -, hchar, -, -⟩ := read_cons_eq_ok_iff.mp hread
  rw [readChar_of_isTail h] at hchar
  cases hchar

/-- **No text begins within a character.** -/
theorem not_read_drop_encode {n : Nat} {t : Text} (h : t.Straddles n) (text : Text) :
    read ((encode t).drop n) ≠ .ok text := by
  obtain ⟨b, rest, hdrop, hb⟩ := drop_encode_of_straddles h
  rw [Ne, read_eq_ok_iff, hdrop]
  exact fun heq => encode_ne_of_isTail hb text heq.symm

/-- Anywhere else the rest of the text begins. -/
theorem exists_drop_encode {n : Nat} {t : Text} (hle : n ≤ t.utf8Len) (h : ¬ t.Straddles n) :
    ∃ p s, t = p ++ s ∧ p.utf8Len = n ∧ (encode t).drop n = encode s := by
  obtain ⟨⟨p, s⟩, hsplit⟩ := Option.ne_none_iff_exists'.mp
    (mt (Text.splitBytes_eq_none_iff hle).mp h)
  obtain ⟨rfl, rfl⟩ := Text.splitBytes_eq_some_iff.mp hsplit
  refine ⟨p, s, rfl, rfl, ?_⟩
  rw [encode_append, ← length_encode, List.drop_left]

/-- **Text within the bytes of a text is within the text.** -/
theorem infix_of_encode {t text : Text} (h : encode text <:+: encode t) : text <:+: t := by
  cases text with
  | nil => exact List.nil_infix
  | cons c text =>
      obtain ⟨before, after, heq⟩ := h
      rw [List.append_assoc] at heq
      have hlength : before.length ≤ t.utf8Len := by
        rw [← length_encode, ← heq, List.length_append]
        omega
      have hdrop : (encode t).drop before.length = encode (c :: text) ++ after := by
        rw [← heq, List.drop_left]
      by_cases hstraddles : t.Straddles before.length
      · obtain ⟨b, rest, hb, htail⟩ := drop_encode_of_straddles hstraddles
        obtain ⟨a, tails, hcons, hencodes⟩ := exists_utf8EncodeChar c
        rw [hdrop, encode_cons, hcons] at hb
        obtain rfl : a = b := (List.cons.inj hb).1
        have hread := hencodes.readChar []
        rw [readChar_of_isTail htail] at hread
        cases hread
      · obtain ⟨p, s, rfl, -, hs⟩ := exists_drop_encode hlength hstraddles
        rw [hdrop, ← read_eq_ok_iff, read_append_eq_ok_iff (read_encode _)] at hs
        obtain ⟨t', -, rfl⟩ := hs
        exact ⟨p, t', List.append_assoc _ _ _⟩

end Utf8
