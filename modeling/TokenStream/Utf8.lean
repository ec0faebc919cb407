/-
Characters in bytes: the UTF-8 encoding and its forgiving decoder.

Every character has one encoding, of one to four bytes (`String.utf8EncodeChar`).  A sequence of
bytes need not be made of encodings, and decoding it is still meaningful: at each place, a character
whose encoding starts there is taken as a whole, and where none does, **a single byte is replaced**
by `Utf8.replacement` and decoding goes on with the very next byte.  `Utf8.decode` is this rule for
a complete sequence.

A reader that sees one byte at a time cannot ask whether an encoding starts at a place before it has
read the bytes of the encoding.  `Utf8.width` tells it, from the first byte alone, how many bytes to
collect before it decides.

* `Utf8.encode` — the bytes of a text;
* `Utf8.leading?` — the character whose encoding stands at the front of a sequence, with
  `Utf8.leading?_eq_some_iff`;
* `Utf8.char?` — the character whose encoding a sequence is, with `Utf8.char?_eq_some_iff`;
* `Utf8.width` — how many bytes a sequence with a given first byte wants;
* `Utf8.decode` — the characters of any sequence of bytes.
-/

set_option relaxedAutoImplicit false
set_option autoImplicit false

namespace TokenStream

namespace Utf8

/-- Stands for a byte that belongs to no character. -/
def replacement : Char := '\uFFFD'

/-- The bytes of a text. -/
def encode (cs : List Char) : List UInt8 := cs.flatMap String.utf8EncodeChar

/-! ### One character -/

/-- The character whose encoding `bytes` begins with. -/
def leading? (bytes : List UInt8) : Option Char :=
  (bytes.take 4).toByteArray.utf8DecodeChar? 0

/-- The character whose encoding is `bytes`, all of it. -/
def char? (bytes : List UInt8) : Option Char :=
  (leading? bytes).filter fun c => c.utf8Size == bytes.length

/-- `leading?` finds a character exactly when its encoding stands at the front. -/
theorem leading?_eq_some_iff {bytes : List UInt8} {c : Char} :
    leading? bytes = some c ↔ String.utf8EncodeChar c <+: bytes := by
  constructor
  · intro h
    obtain ⟨rest, hrest⟩ := ByteArray.exists_of_utf8DecodeChar?_eq_some h
    have hlist : bytes.take 4 = String.utf8EncodeChar c ++ rest.data.toList := by
      have hdata := congrArg (fun a => a.data.toList) hrest
      simpa using hdata
    exact (List.prefix_append _ _).trans (hlist ▸ List.take_prefix 4 bytes)
  · rintro ⟨rest, rfl⟩
    have hsize : (String.utf8EncodeChar c).length ≤ 4 := by
      simpa using c.utf8Size_le_four
    rw [leading?, List.take_append, List.take_of_length_le hsize, List.toByteArray_append]
    exact ByteArray.utf8DecodeChar?_utf8EncodeChar_append

/-- `char?` finds a character exactly when the bytes are its encoding. -/
theorem char?_eq_some_iff {bytes : List UInt8} {c : Char} :
    char? bytes = some c ↔ bytes = String.utf8EncodeChar c := by
  rw [char?, Option.filter_eq_some_iff, leading?_eq_some_iff]
  constructor
  · rintro ⟨⟨rest, rfl⟩, hsize⟩
    have : rest.length = 0 := by simpa using hsize
    simp [List.eq_nil_of_length_eq_zero this]
  · rintro rfl
    exact ⟨List.prefix_refl _, by simp⟩

/-- How many bytes a sequence with this first byte wants: as many as the encodings that begin with
it have, and one when none does. -/
def width (first : UInt8) : Nat :=
  if first < 0xc2 then 1
  else if first < 0xe0 then 2
  else if first < 0xf0 then 3
  else if first < 0xf5 then 4
  else 1

/-! ### Whole sequences -/

/-- The characters of any sequence of bytes: an encoding gives its character, and a byte at which
no encoding starts is replaced. -/
def decode (bytes : List UInt8) : List Char :=
  match bytes with
  | [] => []
  | b :: rest =>
      match leading? (b :: rest) with
      | some c => c :: decode (rest.drop (c.utf8Size - 1))
      | none => replacement :: decode rest
termination_by bytes.length

end Utf8

end TokenStream
