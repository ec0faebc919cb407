/-
Well-formed encodings.

The bytes of a character are marked: a lead byte tells how many bytes there are, each tail byte
carries six bits, and the bits together are a number.  Not every marked sequence is the encoding of
a character.  A number that fits into fewer bytes must not be spelled with more of them, numbers
from 0xd800 to 0xdfff are reserved for other purposes, and there is nothing above 0x10ffff.  What is
left are the **well-formed encodings**, one for each character, and they are the sequences that
`Utf8.leading?` looks for.

* `Utf8.Spells` — marked bytes and the number that they spell;
* `Utf8.Spells.length_cases`, `Utf8.Spells.unique` — how large a number of so many bytes is, and
  that its bytes are known;
* `Utf8.WellFormed`, `Utf8.wellFormed_iff` — **the well-formed encodings are those of characters**;
* `Utf8.leading?_eq_some_iff_wellFormed`, `Utf8.leading?_eq_none_iff_wellFormed` — what stands at the
  front of a sequence;
* `Utf8.decode_encode_append`, `Utf8.decode_encode` — decoding undoes encoding.
-/

import TokenStream.Proofs.Decoding

set_option relaxedAutoImplicit false
set_option autoImplicit false

namespace TokenStream

namespace Utf8

/-! ### Marked bytes -/

/-- Tail bytes carry six bits. -/
def IsTail (b : UInt8) : Prop := 0x80 ≤ b.toNat ∧ b.toNat < 0xc0

/-- Marked bytes spell a number: the lead byte carries the highest bits, each tail byte six more. -/
inductive Spells : List UInt8 → Nat → Prop
  | one (a : UInt8) {n : Nat} (ha : a.toNat < 0x80) (hn : n = a.toNat) : Spells [a] n
  | two (a b : UInt8) {n : Nat} (ha : 0xc0 ≤ a.toNat ∧ a.toNat < 0xe0) (hb : IsTail b)
      (hn : n = (a.toNat - 0xc0) * 0x40 + (b.toNat - 0x80)) : Spells [a, b] n
  | three (a b c : UInt8) {n : Nat} (ha : 0xe0 ≤ a.toNat ∧ a.toNat < 0xf0) (hb : IsTail b)
      (hc : IsTail c)
      (hn : n = (a.toNat - 0xe0) * 0x1000 + (b.toNat - 0x80) * 0x40 + (c.toNat - 0x80)) :
      Spells [a, b, c] n
  | four (a b c d : UInt8) {n : Nat} (ha : 0xf0 ≤ a.toNat ∧ a.toNat < 0xf8) (hb : IsTail b)
      (hc : IsTail c) (hd : IsTail d)
      (hn : n = (a.toNat - 0xf0) * 0x40000 + (b.toNat - 0x80) * 0x1000 + (c.toNat - 0x80) * 0x40 +
        (d.toNat - 0x80)) : Spells [a, b, c, d] n

variable {bytes bytes' : List UInt8} {n : Nat}

/-- How many bytes there are, and how large a number they can spell. -/
theorem Spells.length_cases (h : Spells bytes n) :
    bytes.length = 1 ∧ n < 0x80 ∨ bytes.length = 2 ∧ n < 0x800 ∨
      bytes.length = 3 ∧ n < 0x10000 ∨ bytes.length = 4 := by
  cases h with
  | one a ha hn => exact Or.inl ⟨rfl, hn ▸ ha⟩
  | two a b ha hb hn =>
      obtain ⟨-, hb'⟩ := hb
      exact Or.inr (Or.inl ⟨rfl, by omega⟩)
  | three a b c ha hb hc hn =>
      obtain ⟨-, hb'⟩ := hb
      obtain ⟨-, hc'⟩ := hc
      exact Or.inr (Or.inr (Or.inl ⟨rfl, by omega⟩))
  | four a b c d ha hb hc hd hn => exact Or.inr (Or.inr (Or.inr rfl))

/-- A number is spelled in one way with a given number of bytes. -/
theorem Spells.unique (h : Spells bytes n) (h' : Spells bytes' n)
    (hlength : bytes.length = bytes'.length) : bytes = bytes' := by
  -- the tail bytes are known from six bits of the number each, the lead byte from the others
  cases h with
  | one a ha hn =>
      cases h' with
      | one a' ha' hn' =>
          have haa : a = a' := UInt8.toNat_inj.1 (hn.symm.trans hn')
          rw [haa]
      | two | three | four => exact absurd hlength (by simp)
  | two a b ha hb hn =>
      cases h' with
      | two a' b' ha' hb' hn' =>
          obtain ⟨hb₁, hb₂⟩ := hb
          obtain ⟨hb₁', hb₂'⟩ := hb'
          have haa : a = a' := UInt8.toNat_inj.1 (by omega)
          have hbb : b = b' := UInt8.toNat_inj.1 (by omega)
          rw [haa, hbb]
      | one | three | four => exact absurd hlength (by simp)
  | three a b c ha hb hc hn =>
      cases h' with
      | three a' b' c' ha' hb' hc' hn' =>
          obtain ⟨hb₁, hb₂⟩ := hb
          obtain ⟨hb₁', hb₂'⟩ := hb'
          obtain ⟨hc₁, hc₂⟩ := hc
          obtain ⟨hc₁', hc₂'⟩ := hc'
          have haa : a = a' := UInt8.toNat_inj.1 (by omega)
          have hbb : b = b' := UInt8.toNat_inj.1 (by omega)
          have hcc : c = c' := UInt8.toNat_inj.1 (by omega)
          rw [haa, hbb, hcc]
      | one | two | four => exact absurd hlength (by simp)
  | four a b c d ha hb hc hd hn =>
      cases h' with
      | four a' b' c' d' ha' hb' hc' hd' hn' =>
          obtain ⟨hb₁, hb₂⟩ := hb
          obtain ⟨hb₁', hb₂'⟩ := hb'
          obtain ⟨hc₁, hc₂⟩ := hc
          obtain ⟨hc₁', hc₂'⟩ := hc'
          obtain ⟨hd₁, hd₂⟩ := hd
          obtain ⟨hd₁', hd₂'⟩ := hd'
          have haa : a = a' := UInt8.toNat_inj.1 (by omega)
          have hbb : b = b' := UInt8.toNat_inj.1 (by omega)
          have hcc : c = c' := UInt8.toNat_inj.1 (by omega)
          have hdd : d = d' := UInt8.toNat_inj.1 (by omega)
          rw [haa, hbb, hcc, hdd]
      | one | two | three => exact absurd hlength (by simp)

/-! ### The encodings of characters -/

/-- A character's number is not reserved, and not too large. -/
theorem toNat_cases (c : Char) :
    c.toNat < 0xd800 ∨ 0xdfff < c.toNat ∧ c.toNat < 0x110000 := c.valid

theorem toNat_ofNat_of_lt {k : Nat} (h : k < 256) : (UInt8.ofNat k).toNat = k := by
  rw [UInt8.toNat_ofNat', Nat.mod_eq_of_lt h]

theorem toNat_tail (k : Nat) : (UInt8.ofNat (k % 0x40 + 0x80)).toNat = k % 0x40 + 0x80 :=
  toNat_ofNat_of_lt (by omega)

theorem isTail_tail (k : Nat) : IsTail (.ofNat (k % 0x40 + 0x80)) := by
  rw [IsTail, toNat_tail]
  omega

/-- The encoding of a character spells its number. -/
theorem spells_utf8EncodeChar (c : Char) : Spells (String.utf8EncodeChar c) c.toNat := by
  have hmax : c.toNat < 0x110000 := by
    rcases toNat_cases c with hlow | ⟨-, hhigh⟩
    · omega
    · exact hhigh
  have hval : c.val.toNat = c.toNat := rfl
  fun_cases String.utf8EncodeChar c with
  | case1 v hv =>
      have ha : (UInt8.ofNat v).toNat = v := toNat_ofNat_of_lt (by omega)
      exact .one _ (by omega) (by omega)
  | case2 v hv hv' =>
      have ha : (UInt8.ofNat (v / 64 % 0x20 + 0xc0)).toNat = v / 64 % 0x20 + 0xc0 :=
        toNat_ofNat_of_lt (by omega)
      have hb := toNat_tail v
      exact .two _ _ (by omega) (isTail_tail _) (by omega)
  | case3 v hv hv' hv'' =>
      have ha : (UInt8.ofNat (v / 4096 % 0x10 + 0xe0)).toNat = v / 4096 % 0x10 + 0xe0 :=
        toNat_ofNat_of_lt (by omega)
      have hb := toNat_tail (v / 64)
      have hc := toNat_tail v
      exact .three _ _ _ (by omega) (isTail_tail _) (isTail_tail _) (by omega)
  | case4 v hv hv' hv'' =>
      have ha : (UInt8.ofNat (v / 262144 % 0x8 + 0xf0)).toNat = v / 262144 % 0x8 + 0xf0 :=
        toNat_ofNat_of_lt (by omega)
      have hb := toNat_tail (v / 4096)
      have hc := toNat_tail (v / 64)
      have hd := toNat_tail v
      exact .four _ _ _ _ (by omega) (isTail_tail _) (isTail_tail _) (isTail_tail _) (by omega)

/-- No spelling of the number of a character is shorter than its encoding. -/
theorem length_utf8EncodeChar_le {c : Char} (h : Spells bytes c.toNat) :
    (String.utf8EncodeChar c).length ≤ bytes.length := by
  have hcases := h.length_cases
  have hval : c.val.toNat = c.toNat := rfl
  fun_cases String.utf8EncodeChar c with
  | case1 v hv =>
      simp only [List.length_cons, List.length_nil]
      omega
  | case2 v hv hv' =>
      simp only [List.length_cons, List.length_nil]
      omega
  | case3 v hv hv' hv'' =>
      simp only [List.length_cons, List.length_nil]
      omega
  | case4 v hv hv' hv'' =>
      simp only [List.length_cons, List.length_nil]
      omega

/-- The bytes are a well-formed encoding of the number `n`. -/
structure WellFormed (bytes : List UInt8) (n : Nat) : Prop where
  spells : Spells bytes n
  /-- Not spelled with more bytes than it needs. -/
  not_overlong : ∀ bytes', Spells bytes' n → bytes.length ≤ bytes'.length
  /-- Not one of the surrogates. -/
  not_surrogate : ¬ (0xd800 ≤ n ∧ n ≤ 0xdfff)
  le_max : n ≤ 0x10ffff

theorem wellFormed_utf8EncodeChar (c : Char) : WellFormed (String.utf8EncodeChar c) c.toNat where
  spells := spells_utf8EncodeChar c
  not_overlong _ h := length_utf8EncodeChar_le h
  not_surrogate h := by
    have hcases := toNat_cases c
    omega
  le_max := by
    have hcases := toNat_cases c
    omega

/-- **The well-formed encodings are those of characters.** -/
theorem wellFormed_iff :
    WellFormed bytes n ↔ ∃ c : Char, c.toNat = n ∧ bytes = String.utf8EncodeChar c := by
  constructor
  · intro h
    have hvalid : n.isValidChar := by
      have hsurrogate := h.not_surrogate
      have hmax := h.le_max
      rw [Nat.isValidChar]
      omega
    obtain ⟨c, rfl⟩ : ∃ c : Char, c.toNat = n := ⟨Char.ofNatAux n hvalid, rfl⟩
    have hle := h.not_overlong _ (spells_utf8EncodeChar c)
    have hge := length_utf8EncodeChar_le h.spells
    exact ⟨c, rfl, h.spells.unique (spells_utf8EncodeChar c) (Nat.le_antisymm hle hge)⟩
  · rintro ⟨c, rfl, rfl⟩
    exact wellFormed_utf8EncodeChar c

theorem WellFormed.eq_utf8EncodeChar {c : Char} (h : WellFormed bytes c.toNat) :
    bytes = String.utf8EncodeChar c := by
  obtain ⟨c', hc, rfl⟩ := wellFormed_iff.1 h
  rw [Char.toNat_inj.1 hc]

/-! ### The front of a sequence -/

/-- A character is found at the front exactly when a well-formed encoding of it stands there. -/
theorem leading?_eq_some_iff_wellFormed {c : Char} :
    leading? bytes = some c ↔ ∃ enc, WellFormed enc c.toNat ∧ enc <+: bytes := by
  rw [leading?_eq_some_iff]
  constructor
  · intro h
    exact ⟨_, wellFormed_utf8EncodeChar c, h⟩
  · rintro ⟨enc, henc, h⟩
    rwa [henc.eq_utf8EncodeChar] at h

/-- None is found exactly when no well-formed encoding stands there. -/
theorem leading?_eq_none_iff_wellFormed :
    leading? bytes = none ↔ ∀ n enc, WellFormed enc n → ¬ enc <+: bytes := by
  rw [Option.eq_none_iff_forall_ne_some]
  constructor
  · intro h n enc henc hfront
    obtain ⟨c, rfl, -⟩ := wellFormed_iff.1 henc
    exact h c (leading?_eq_some_iff_wellFormed.2 ⟨enc, henc, hfront⟩)
  · intro h c hc
    obtain ⟨enc, henc, hfront⟩ := leading?_eq_some_iff_wellFormed.1 hc
    exact h _ enc henc hfront

/-! ### Decoding and encoding -/

/-- What stands behind an encoding at the front. -/
theorem behind_of_utf8EncodeChar {c : Char} {first : UInt8} {more : List UInt8}
    (h : String.utf8EncodeChar c = first :: more) (rest : List UInt8) :
    leading? (first :: (more ++ rest)) = some c ∧ behind first (more ++ rest) = rest := by
  have hlead : leading? (first :: (more ++ rest)) = some c := by
    rw [leading?_eq_some_iff, h]
    exact ⟨rest, rfl⟩
  have hsize : c.utf8Size - 1 = more.length := by
    rw [← String.length_utf8EncodeChar, h, List.length_cons, Nat.add_sub_cancel]
  refine ⟨hlead, ?_⟩
  simp only [behind, hlead]
  rw [hsize, List.drop_left]

/-- An encoding at the front decodes to its character. -/
theorem decode_utf8EncodeChar_append (c : Char) (rest : List UInt8) :
    decode (String.utf8EncodeChar c ++ rest) = c :: decode rest := by
  cases h : String.utf8EncodeChar c with
  | nil => exact absurd h String.utf8EncodeChar_ne_nil
  | cons first more =>
      obtain ⟨hlead, hbehind⟩ := behind_of_utf8EncodeChar h rest
      rw [List.cons_append, decode_cons, hlead, hbehind]
      rfl

theorem decode_encode_append (cs : List Char) (rest : List UInt8) :
    decode (encode cs ++ rest) = cs ++ decode rest := by
  induction cs with
  | nil => rfl
  | cons c cs ih =>
      rw [encode, List.flatMap_cons, List.append_assoc, decode_utf8EncodeChar_append]
      exact congrArg (c :: ·) ih

/-- **Decoding undoes encoding.** -/
theorem decode_encode (cs : List Char) : decode (encode cs) = cs := by
  have h := decode_encode_append cs []
  rwa [List.append_nil, decode_nil, List.append_nil] at h

end Utf8

end TokenStream
