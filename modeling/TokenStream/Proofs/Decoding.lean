/-
A character stream produces the decoding of its bytes.

`Utf8.decode` says what the characters of a sequence of bytes are by asking, at each place, whether
an encoding starts there.  A character stream cannot ask that: it learns from the first byte how
many bytes to collect, decides on what it has collected, and hands back what it took too much.  The
two agree because **the first byte of an encoding tells its length**, so that collecting by width
loses no encoding and invents none, even where the collected piece is cut short by the end of the
bytes or holds the beginning of another character.

* `Utf8.width_eq_utf8Size`, `Utf8.width_eq_one_of_leading?` — the first byte of an encoding tells
  its length, and any other byte is wanted alone;
* `Utf8.char?_take_width` — deciding on the collected piece is deciding on the whole sequence;
* `CharStream.fst_next`, `CharStream.decode_bytes_next` — reading a character takes the first one
  off the decoding of the bytes to come;
* `CharStream.ended_of_next_none` — a stream without a further character has met its ending.
-/

import TokenStream.Proofs.Delivery

set_option relaxedAutoImplicit false
set_option autoImplicit false

namespace TokenStream

namespace Utf8

/-! ### The width of an encoding -/

theorem width_ofNat {n : Nat} (hn : n < 256) :
    width (UInt8.ofNat n) =
      if n < 0xc2 then 1 else if n < 0xe0 then 2 else if n < 0xf0 then 3
      else if n < 0xf5 then 4 else 1 := by
  simp [width, UInt8.lt_iff_toNat_lt, Nat.mod_eq_of_lt hn]

/-- The first byte of an encoding tells its length. -/
theorem width_eq_utf8Size {c : Char} {first : UInt8} {more : List UInt8}
    (h : String.utf8EncodeChar c = first :: more) : width first = c.utf8Size := by
  have hmax : c.val.toNat < 0x110000 := by
    rcases c.valid with hlow | ⟨-, hhigh⟩
    · exact Nat.lt_trans hlow (by decide)
    · exact hhigh
  have hsize : c.utf8Size = more.length + 1 := by
    rw [← String.length_utf8EncodeChar, h, List.length_cons]
  rw [hsize]
  revert h
  -- each branch of the encoding has its own range of first bytes
  fun_cases String.utf8EncodeChar c with
  | case1 v hv =>
      rintro ⟨⟩
      rw [width_ofNat (by omega), if_pos (by omega)]
      rfl
  | case2 v hv hv' =>
      rintro ⟨⟩
      rw [width_ofNat (by omega), if_neg (by omega), if_pos (by omega)]
      rfl
  | case3 v hv hv' hv'' =>
      rintro ⟨⟩
      rw [width_ofNat (by omega), if_neg (by omega), if_neg (by omega), if_pos (by omega)]
      rfl
  | case4 v hv hv' hv'' =>
      rintro ⟨⟩
      rw [width_ofNat (by omega), if_neg (by omega), if_neg (by omega), if_neg (by omega),
        if_pos (by omega)]
      rfl

theorem width_eq_of_leading? {first : UInt8} {rest : List UInt8} {c : Char}
    (h : leading? (first :: rest) = some c) : width first = c.utf8Size := by
  rw [leading?_eq_some_iff] at h
  cases henc : String.utf8EncodeChar c with
  | nil => exact absurd henc String.utf8EncodeChar_ne_nil
  | cons b more =>
      rw [henc, List.cons_prefix_cons] at h
      exact h.1 ▸ width_eq_utf8Size henc

/-- With each byte that is wanted together with others, some encoding begins. -/
theorem exists_leading?_of_width_ne_one (first : UInt8) (h : width first ≠ 1) :
    ∃ rest, (leading? (first :: rest)).isSome := by
  -- one of these goes with each such byte: the smallest encodings behind 0xe0 and behind 0xf0 are
  -- the ones that are not overlong, and 0x80 is fine behind all others
  let tails : List (List UInt8) := [[0x80], [0xa0, 0x80], [0x80, 0x80], [0x90, 0x80, 0x80],
    [0x80, 0x80, 0x80]]
  have hall : ∀ n : Fin 256, width (.ofNat n) = 1 ∨
      tails.any fun rest => (leading? (.ofNat n :: rest)).isSome := by
    decide +kernel
  have hfirst := hall ⟨first.toNat, first.toNat_lt⟩
  rw [UInt8.ofNat_toNat] at hfirst
  obtain ⟨rest, -, hrest⟩ := List.any_eq_true.1 (hfirst.resolve_left h)
  exact ⟨rest, hrest⟩

/-- A byte with which no encoding begins is wanted alone. -/
theorem width_eq_one_of_leading? {first : UInt8} (h : ∀ rest, leading? (first :: rest) = none) :
    width first = 1 := by
  refine Decidable.byContradiction fun hwidth => ?_
  obtain ⟨rest, hrest⟩ := exists_leading?_of_width_ne_one first hwidth
  rw [h rest] at hrest
  exact nomatch hrest

/-- Deciding on the bytes collected by width is deciding on all bytes. -/
theorem char?_take_width (first : UInt8) (rest : List UInt8) :
    char? (first :: rest.take (width first - 1)) = leading? (first :: rest) := by
  ext c
  constructor
  · intro h
    rw [char?_eq_some_iff] at h
    rw [leading?_eq_some_iff, ← h, List.cons_prefix_cons]
    exact ⟨rfl, List.take_prefix _ _⟩
  · intro h
    -- the encoding at the front is as long as its first byte says, so the piece is all of it
    have hwidth := width_eq_of_leading? h
    rw [leading?_eq_some_iff] at h
    rw [char?_eq_some_iff, List.prefix_iff_eq_take.1 h, String.length_utf8EncodeChar, ← hwidth]
    have hpos : 0 < width first := hwidth ▸ c.utf8Size_pos
    rw [← Nat.sub_add_cancel hpos, List.take_succ_cons, Nat.add_sub_cancel]

/-! ### Decoding step by step -/

/-- What is left behind the character at the front of `first :: rest`. -/
def behind (first : UInt8) (rest : List UInt8) : List UInt8 :=
  match leading? (first :: rest) with
  | some c => rest.drop (c.utf8Size - 1)
  | none => rest

@[simp] theorem decode_nil : decode [] = [] := by rw [decode]

theorem decode_cons (first : UInt8) (rest : List UInt8) :
    decode (first :: rest) =
      (leading? (first :: rest)).getD replacement :: decode (behind first rest) := by
  rw [decode, behind]
  cases leading? (first :: rest) <;> rfl

end Utf8

namespace CharStream

/-- The decision of `nextFrom` is the one on all bytes to come. -/
theorem nextFrom_eq (first : UInt8) (s : CharStream) :
    nextFrom first s =
      match Utf8.leading? (first :: s.bytes), s.takeBytes (Utf8.width first - 1) with
      | some c, (_, s') => (c, s')
      | none, (more, s') => (Utf8.replacement, s'.handBack more) := by
  have htaken := fst_takeBytes (Utf8.width first - 1) s
  rcases htake : s.takeBytes (Utf8.width first - 1) with ⟨more, s'⟩
  rw [htake] at htaken
  rw [nextFrom, ← Utf8.char?_take_width, ← htaken, htake]
  cases hchar : Utf8.char? (first :: more) <;> simp only [hchar]

theorem fst_nextFrom (first : UInt8) (s : CharStream) :
    (nextFrom first s).1 = (Utf8.leading? (first :: s.bytes)).getD Utf8.replacement := by
  rw [nextFrom_eq]
  cases Utf8.leading? (first :: s.bytes) <;> rfl

/-- What was collected in vain is still to come. -/
theorem bytes_nextFrom (first : UInt8) (s : CharStream) :
    (nextFrom first s).2.bytes = Utf8.behind first s.bytes := by
  rw [nextFrom_eq, Utf8.behind]
  cases hlead : Utf8.leading? (first :: s.bytes) with
  | some c =>
      have hwidth := Utf8.width_eq_of_leading? hlead
      exact (bytes_takeBytes _ s).trans (by rw [hwidth])
  | none => rw [bytes_handBack, takeBytes_append_bytes]

@[simp] theorem ending_nextFrom (first : UInt8) (s : CharStream) :
    (nextFrom first s).2.ending = s.ending := by
  have h := ending_takeBytes (Utf8.width first - 1) s
  rw [nextFrom_eq]
  cases Utf8.leading? (first :: s.bytes) <;> exact h

/-- **The character that is read is the first one of the decoding.** -/
theorem fst_next (s : CharStream) : s.next.1 = (Utf8.decode s.bytes).head? := by
  obtain ⟨s', hnext, hrest⟩ := nextByte_eq s
  cases hbytes : s.bytes with
  | nil =>
      rw [hbytes, List.head?_nil] at hnext
      rw [next, hnext, Utf8.decode_nil, List.head?_nil]
  | cons first rest =>
      rw [hbytes, List.head?_cons] at hnext
      rw [hbytes, List.tail_cons] at hrest
      rw [next, hnext, Utf8.decode_cons, List.head?_cons, ← hrest]
      exact congrArg some (fst_nextFrom first s')

/-- **Reading a character leaves the decoding of the bytes to come without its first.** -/
theorem decode_bytes_next (s : CharStream) :
    Utf8.decode s.next.2.bytes = (Utf8.decode s.bytes).tail := by
  obtain ⟨s', hnext, hrest⟩ := nextByte_eq s
  cases hbytes : s.bytes with
  | nil =>
      rw [hbytes, List.head?_nil] at hnext
      rw [hbytes, List.tail_nil] at hrest
      rw [next, hnext, Utf8.decode_nil, List.tail_nil]
      exact (congrArg Utf8.decode hrest).trans Utf8.decode_nil
  | cons first rest =>
      rw [hbytes, List.head?_cons] at hnext
      rw [hbytes, List.tail_cons] at hrest
      rw [next, hnext, Utf8.decode_cons, List.tail_cons, ← hrest]
      exact congrArg Utf8.decode (bytes_nextFrom first s')

/-- The character that is read, put back in front of the decoding of what is left. -/
theorem toList_next_append_decode (s : CharStream) :
    s.next.1.toList ++ Utf8.decode s.next.2.bytes = Utf8.decode s.bytes := by
  rw [fst_next, decode_bytes_next]
  cases Utf8.decode s.bytes <;> rfl

@[simp] theorem ending_next (s : CharStream) : s.next.2.ending = s.ending := by
  have h := ending_nextByte s
  unfold next
  split
  · rename_i s' hnext
    rwa [hnext] at h
  · rename_i first s' hnext
    rw [hnext] at h
    exact (ending_nextFrom first s').trans h

/-! ### The end of a stream -/

/-- Nothing is left, and the ending has been met. -/
structure Ended (s : CharStream) : Prop where
  bytes_eq : s.bytes = []
  fault?_eq : s.fault? = s.ending.fault?

/-- A stream without a further character has met its ending. -/
theorem ended_of_next_none {s : CharStream} (h : s.next.1 = none) : s.next.2.Ended := by
  rcases hnext : s.nextByte with ⟨first?, s'⟩
  cases first? with
  | some first => simp [next, hnext] at h
  | none =>
      obtain ⟨hbytes, hbytes'⟩ := bytes_of_nextByte_none hnext
      have hfault := fault?_nextByte s
      have hending := ending_nextByte s
      simp only [hnext, hbytes, if_true] at hfault hending
      simp only [next, hnext]
      exact ⟨hbytes', hfault.trans (congrArg Ending.fault? hending.symm)⟩

/-- A stream that has ended stays at its end. -/
theorem Ended.next {s : CharStream} (h : s.Ended) : s.next.1 = none ∧ s.next.2.Ended := by
  have hnone : s.next.1 = none := by rw [fst_next, h.bytes_eq, Utf8.decode_nil, List.head?_nil]
  exact ⟨hnone, ended_of_next_none hnone⟩

end CharStream

end TokenStream
