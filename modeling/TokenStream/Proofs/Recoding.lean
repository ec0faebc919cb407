/-
Characters written as bytes again.

A caret that moves on until it comes to the end walks over characters, and these can be encoded
again.  Bytes that were well-formed encodings come back as they were.  Any other byte was replaced,
and a replacement takes three bytes where one was: **what comes back is longer by two bytes for each
byte that was replaced**, so that only well-formed bytes come back.  A replacement that was written
as such in the first place is a character like any other.

What comes back is well formed, so decoding it again loses nothing more.

A walk over bytes is also the way to see where they can be cut.  Wherever the bytes behind a cut do
not begin with a tail byte, the walks over the two parts make up the walk over the whole; and where
they do begin with one, there are bytes to put in front that it completes.

* `Caret.characters`, `Script.characters`, `Script.characters_eq` — the characters of a walk, which
  are the decoding of the bytes;
* `Utf8.Valid`, `Utf8.valid_iff`, `Utf8.encode_decode_iff` — **bytes that come back**;
* `Utf8.Piece.isReplaced`, `Utf8.Decomposition.length_encode` — **how much longer others get**;
* `Utf8.leading?_of_tail`, `Utf8.length_decode_of_tail` — a byte that completes what was put in front
  of it;
* `Script.encode_characters`, `Script.characters_append_iff` — the same for a walk.
-/

import TokenStream.Proofs.Boundary

set_option relaxedAutoImplicit false
set_option autoImplicit false

namespace TokenStream

/-! ### Walking to the end -/

namespace Caret

/-- The characters that a caret walks over until it stands at the end. -/
def characters (c : Caret) : List Char :=
  match _ : c.current with
  | none => []
  | some char => char :: c.advance.characters
termination_by c.size
decreasing_by exact size_advance_lt (by simp [*])

/-- A caret walks over the text that it has before it. -/
theorem Sound.characters_eq {c : Caret} (h : c.Sound) : c.characters = c.text := by
  fun_induction Caret.characters c with
  | case1 c hc => rw [h.text_of_current_none hc]
  | case2 c char hc ih =>
      have htext := text_of_current hc
      rw [ih h.advance, h.text_advance, htext, List.tail_cons]

end Caret

namespace Script

/-- The characters that a caret over a script walks over. -/
def characters (events : Script) : List Char := (Caret.ofSource (.ofScript events)).characters

/-- **A walk goes over the decoding of the bytes.** -/
theorem characters_eq (events : Script) : events.characters = Utf8.decode events.bytes := by
  rw [characters, (Caret.sound_ofSource _).characters_eq, Caret.text_ofSource,
    Source.bytes_ofScript]

end Script

namespace Utf8

/-! ### Bytes that come back -/

/-- Well-formed encodings, one behind the other. -/
def Valid (bytes : List UInt8) : Prop :=
  ∃ encs : List (List UInt8), encs.flatten = bytes ∧ ∀ enc ∈ encs, ∃ n, WellFormed enc n

@[simp] theorem encode_nil : encode [] = [] := rfl

@[simp] theorem encode_cons (c : Char) (cs : List Char) :
    encode (c :: cs) = String.utf8EncodeChar c ++ encode cs := rfl

/-- The bytes of a string are the encoding of its characters. -/
theorem encode_toList (s : String) : encode s.toList = s.toUTF8.data.toList := by
  have hbytes := congrArg (fun bytes => bytes.data.toList) s.utf8Encode_toList
  simpa [List.utf8Encode, encode] using hbytes

/-- The bytes that are well-formed encodings are the encodings of texts. -/
theorem valid_iff {bytes : List UInt8} : Valid bytes ↔ ∃ cs, bytes = encode cs := by
  constructor
  · rintro ⟨encs, rfl, hencs⟩
    induction encs with
    | nil => exact ⟨[], rfl⟩
    | cons enc encs ih =>
        obtain ⟨⟨n, henc⟩, hrest⟩ := List.forall_mem_cons.1 hencs
        obtain ⟨c, -, rfl⟩ := wellFormed_iff.1 henc
        obtain ⟨cs, hcs⟩ := ih hrest
        exact ⟨c :: cs, by rw [List.flatten_cons, hcs, encode_cons]⟩
  · rintro ⟨cs, rfl⟩
    refine ⟨cs.map String.utf8EncodeChar, List.flatMap_def.symm, ?_⟩
    intro enc henc
    obtain ⟨c, -, rfl⟩ := List.mem_map.1 henc
    exact ⟨c.toNat, wellFormed_utf8EncodeChar c⟩

/-- **Bytes come back exactly when they are well formed.** -/
theorem encode_decode_iff {bytes : List UInt8} : encode (decode bytes) = bytes ↔ Valid bytes := by
  rw [valid_iff]
  constructor
  · intro h
    exact ⟨_, h.symm⟩
  · rintro ⟨cs, rfl⟩
    rw [decode_encode]

/-! ### Bytes that are replaced -/

/-- Whether the bytes of a piece are not those of its character. -/
def Piece.isReplaced (p : Piece) : Bool := p.bytes != String.utf8EncodeChar p.char

theorem Piece.isReplaced_encoded (c : Char) :
    Piece.isReplaced ⟨c, String.utf8EncodeChar c⟩ = false := bne_self_eq_false _

/-- A single byte is not the encoding of the replacement, which has three. -/
theorem Piece.isReplaced_malformed (first : UInt8) :
    Piece.isReplaced ⟨replacement, [first]⟩ = true := by
  have hne : [first] ≠ String.utf8EncodeChar replacement := by
    intro h
    have hlength : 1 = (String.utf8EncodeChar replacement).length := congrArg List.length h
    exact absurd hlength (by decide)
  exact bne_iff_ne.2 hne

/-- **Two bytes more for each byte that was replaced.** -/
theorem Decomposition.length_encode {bytes : List UInt8} {ps : List Piece}
    (h : Decomposition bytes ps) :
    (encode (ps.map (·.char))).length = bytes.length + 2 * ps.countP Piece.isReplaced := by
  induction h with
  | nil => rfl
  | @encoded c enc rest ps henc h ih =>
      obtain rfl := henc.eq_utf8EncodeChar
      rw [List.map_cons, encode_cons, List.length_append, ih,
        List.countP_cons_of_neg (by simp [Piece.isReplaced_encoded]), List.length_append,
        Nat.add_assoc]
  | @malformed first rest ps hnone h ih =>
      have hlength : (String.utf8EncodeChar replacement).length = 3 := rfl
      rw [List.map_cons, encode_cons, List.length_append, ih, hlength,
        List.countP_cons_of_pos (Piece.isReplaced_malformed first), List.length_cons]
      omega

/-! ### Tail bytes -/

variable {b : UInt8}

/-- No encoding begins with a tail byte. -/
theorem leading?_of_tail (hb : IsTail b) (rest : List UInt8) : leading? (b :: rest) = none := by
  obtain ⟨hlow, hhigh⟩ := hb
  rw [leading?_eq_none_iff_wellFormed]
  intro n enc henc hfront
  cases henc.spells with
  | one a ha hn | two a c ha hc hn | three a c d ha hc hd hn | four a c d e ha hc hd he hn =>
      obtain ⟨rfl, -⟩ := List.cons_prefix_cons.1 hfront
      omega

/-- A tail byte completes the byte `0xc2`. -/
theorem wellFormed_of_tail (hb : IsTail b) : WellFormed [0xc2, b] b.toNat := by
  obtain ⟨hlow, hhigh⟩ := hb
  have hspells : Spells [0xc2, b] b.toNat :=
    .two 0xc2 b (by decide) ⟨hlow, hhigh⟩ (by simp only [UInt8.reduceToNat]; omega)
  refine ⟨hspells, ?_, by omega, by omega⟩
  intro bytes' h'
  have hcases := h'.length_cases
  simp only [List.length_cons, List.length_nil]
  omega

/-- A byte that completes what was put in front of it makes one character where two were. -/
theorem length_decode_of_tail (hb : IsTail b) (rest : List UInt8) :
    (decode (0xc2 :: b :: rest)).length < (decode [0xc2] ++ decode (b :: rest)).length := by
  obtain ⟨c, hc, henc⟩ := wellFormed_iff.1 (wellFormed_of_tail hb)
  have hwhole := decode_utf8EncodeChar_append c rest
  rw [← henc, List.cons_append, List.singleton_append] at hwhole
  have hbehind : behind b rest = rest := by simp only [behind, leading?_of_tail hb]
  rw [hwhole, List.length_append, decode_cons, decode_cons, hbehind]
  simp only [List.length_cons]
  omega

/-- **Bytes can stand behind a cut exactly when they do not begin with a tail byte.** -/
theorem startsAfresh_iff {ys : List UInt8} :
    StartsAfresh ys ↔ ∀ xs, decode (xs ++ ys) = decode xs ++ decode ys := by
  constructor
  · intro hys xs
    exact decode_append hys xs
  · intro h b hb htail
    obtain ⟨rest, rfl⟩ := List.head?_eq_some_iff.1 (Option.mem_def.1 hb)
    have hlt := length_decode_of_tail htail rest
    rw [← h [0xc2]] at hlt
    exact absurd hlt (Nat.lt_irrefl _)

end Utf8

namespace Script

/-! ### Walks -/

/-- **A walk, written as bytes again.**  What comes back are the bytes of the script exactly if they
are well formed, and in any case two bytes more for each byte of a piece that was replaced.  A walk
over the bytes of a string goes over the string, and a walk over what comes back is the same walk. -/
theorem encode_characters (events : Script) :
    let bytes := events.bytes
    let text := events.characters
    (Utf8.encode text = bytes ↔ Utf8.Valid bytes) ∧
      (∃ ps, Utf8.Decomposition bytes ps ∧ ps.map (·.char) = text ∧
        (Utf8.encode text).length = bytes.length + 2 * ps.countP Utf8.Piece.isReplaced) ∧
      (∀ s : String, bytes = s.toUTF8.data.toList → text = s.toList) ∧
      ∀ again : Script, again.bytes = Utf8.encode text → again.characters = text := by
  intro bytes text
  have htext : text = Utf8.decode bytes := events.characters_eq
  have hps := Utf8.decomposition_pieces bytes
  have hchars : (Utf8.pieces bytes).map (·.char) = text := by rw [Utf8.map_char_pieces, htext]
  refine ⟨?_, ⟨Utf8.pieces bytes, hps, hchars, ?_⟩, ?_, ?_⟩
  · rw [htext]
    exact Utf8.encode_decode_iff
  · rw [← hchars]
    exact hps.length_encode
  · intro s hs
    rw [htext, hs, ← Utf8.encode_toList, Utf8.decode_encode]
  · intro again hagain
    rw [characters_eq, hagain, Utf8.decode_encode]

/-- A replacement that was written as such, in front of malformed sequences that overlap, and a
string that holds such a replacement too. -/
theorem encode_characters_of_overlapping :
    let events : Script := [.bytes [0xef, 0xbf, 0xbd, 0xf0, 0xe2], .fault (.ofKind .interrupted),
      .bytes [0x82, 0xc3, 0xa9]]
    let written : Script := [.bytes [0x00, 0xef, 0xbf], .bytes [0xbd, 0xc3, 0xa9]]
    let again : Script := [.bytes (Utf8.encode events.characters)]
    ¬ Utf8.Valid events.bytes ∧ (Utf8.encode events.characters).length = 14 ∧
      again.bytes = Utf8.encode events.characters ∧ again.characters = events.characters ∧
      written.bytes = "\x00\uFFFDé".toUTF8.data.toList ∧
      written.characters = ['\x00', '\uFFFD', 'é'] := by
  intro events written again
  have hagain : again.bytes = Utf8.encode events.characters := bytes_singleton _
  have hwritten : written.bytes = "\x00\uFFFDé".toUTF8.data.toList := by decide +kernel
  have hpieces : Utf8.pieces events.bytes = [⟨'\uFFFD', [0xef, 0xbf, 0xbd]⟩,
      ⟨Utf8.replacement, [0xf0]⟩, ⟨Utf8.replacement, [0xe2]⟩, ⟨Utf8.replacement, [0x82]⟩,
      ⟨'é', [0xc3, 0xa9]⟩] := by decide +kernel
  obtain ⟨hvalid, ⟨ps, hps, -, hlength⟩, -, hsame⟩ := encode_characters events
  obtain ⟨-, -, hstring, -⟩ := encode_characters written
  have hcount : ps.countP Utf8.Piece.isReplaced = 3 := by
    rw [hps.eq_pieces, hpieces]
    decide +kernel
  rw [hcount] at hlength
  refine ⟨?_, hlength, hagain, hsame again hagain, hwritten, hstring _ hwritten⟩
  intro h
  rw [hvalid.2 h] at hlength
  exact absurd hlength (by decide +kernel)

/-- **Decoding starts afresh at every byte that is no tail byte**, and at no other.  A walk over a
script is made up of the walks over its two parts, whatever the first part is, exactly if the bytes
of the second one do not begin with a tail byte. -/
theorem characters_append_iff (back : Script) :
    Utf8.StartsAfresh back.bytes ↔
      ∀ front whole : Script, whole.bytes = front.bytes ++ back.bytes →
        whole.characters = front.characters ++ back.characters := by
  rw [Utf8.startsAfresh_iff]
  constructor
  · intro h front whole hwhole
    rw [characters_eq, characters_eq, characters_eq, hwhole, h]
  · intro h xs
    have hwalk := h [.bytes xs] [.bytes (xs ++ back.bytes)] (by simp only [bytes_singleton])
    rwa [characters_eq, characters_eq, characters_eq, bytes_singleton, bytes_singleton] at hwalk

/-- A sequence that the cut leaves one byte short, and behind the cut another one. -/
theorem characters_append_iff_of_truncated :
    let front : Script := [.bytes [0x61, 0xf0, 0x9f], .fault (.ofKind .interrupted), .bytes [0x98]]
    let back : Script := [.bytes [0xe2, 0x82], .bytes [0x20]]
    let whole : Script := [.bytes [0x61, 0xf0, 0x9f, 0x98, 0xe2], .bytes [0x82, 0x20]]
    Utf8.StartsAfresh back.bytes ∧ whole.bytes = front.bytes ++ back.bytes ∧
      front.characters = 'a' :: List.replicate 3 Utf8.replacement ∧
      back.characters = List.replicate 2 Utf8.replacement ++ [' '] ∧
      whole.characters = front.characters ++ back.characters := by
  intro front back whole
  have hafresh : Utf8.StartsAfresh back.bytes := by
    rintro b ⟨⟩
    simp [Utf8.IsTail]
  have hwhole : whole.bytes = front.bytes ++ back.bytes := rfl
  refine ⟨hafresh, hwhole, ?_, ?_, (characters_append_iff back).1 hafresh front whole hwhole⟩
  · rw [characters_eq]
    decide +kernel
  · rw [characters_eq]
    decide +kernel

end Script

end TokenStream
