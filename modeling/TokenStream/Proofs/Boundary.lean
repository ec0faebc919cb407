/-
Where bytes can be cut for decoding.

Decoding reads ahead.  A byte that announces more bytes than it has may look far into what stands
behind it before it is given up and replaced, and so it seems that nothing can be said of the
beginning of a text without its end.  But inside of an encoding only tail bytes stand, and therefore
**decoding starts afresh at every byte that is no tail byte**, however malformed the bytes in front
of it are: the decoding of two pieces put together is that of the one followed by that of the other.

Line breaks are single bytes that occur in no longer encoding, so they can be counted without
decoding anything.

* `Utf8.StartsAfresh` — bytes that can stand behind a cut;
* `Utf8.leading?_append`, `Utf8.behind_append` — one character in front of a cut;
* `Utf8.decode_append` — **the decoding of pieces put together**;
* `Utf8.count_decode` — line breaks, counted before and after decoding.
-/

import TokenStream.Proofs.Decomposition

set_option relaxedAutoImplicit false
set_option autoImplicit false

namespace TokenStream

namespace Utf8

/-! ### Cuts -/

/-- The bytes do not begin with a tail byte. -/
def StartsAfresh (bytes : List UInt8) : Prop := ∀ b ∈ bytes.head?, ¬ IsTail b

/-- All bytes of an encoding but the first are tail bytes. -/
theorem isTail_of_mem_utf8EncodeChar {c : Char} {first : UInt8} {more : List UInt8}
    (h : String.utf8EncodeChar c = first :: more) : ∀ b ∈ more, IsTail b := by
  have hspells := spells_utf8EncodeChar c
  rw [h] at hspells
  cases hspells with
  | one a ha hn => simp
  | two a b ha hb hn => simpa using hb
  | three a b c ha hb hc hn => simpa using ⟨hb, hc⟩
  | four a b c d ha hb hc hd hn => simpa using ⟨hb, hc, hd⟩

variable {ys : List UInt8}

/-- An encoding does not reach over a cut. -/
theorem utf8EncodeChar_prefix_append {c : Char} {first : UInt8} {rest : List UInt8}
    (hys : StartsAfresh ys) (h : String.utf8EncodeChar c <+: first :: rest ++ ys) :
    String.utf8EncodeChar c <+: first :: rest := by
  rcases List.prefix_or_prefix_of_prefix h (List.prefix_append (first :: rest) ys) with hle | hle
  · exact hle
  · obtain ⟨beyond, hbeyond⟩ := hle
    cases beyond with
    | nil =>
        have hwhole : String.utf8EncodeChar c = first :: rest := by rw [← hbeyond, List.append_nil]
        exact hwhole ▸ List.prefix_rfl
    | cons b beyond =>
        -- the first byte behind the cut would be a tail byte
        have htail : IsTail b :=
          isTail_of_mem_utf8EncodeChar hbeyond.symm b (List.mem_append_right _ List.mem_cons_self)
        rw [← hbeyond, List.prefix_append_right_inj] at h
        obtain ⟨ys', rfl⟩ := h
        exact absurd htail (hys b rfl)

/-- What stands behind a cut does not matter to the character in front of it. -/
theorem leading?_append (hys : StartsAfresh ys) (first : UInt8) (rest : List UInt8) :
    leading? (first :: rest ++ ys) = leading? (first :: rest) := by
  ext c
  rw [leading?_eq_some_iff, leading?_eq_some_iff]
  constructor
  · exact utf8EncodeChar_prefix_append hys
  · intro h
    exact h.trans (List.prefix_append _ _)

theorem behind_append (hys : StartsAfresh ys) (first : UInt8) (rest : List UInt8) :
    behind first (rest ++ ys) = behind first rest ++ ys := by
  rw [behind, behind, ← List.cons_append, leading?_append hys]
  cases hlead : leading? (first :: rest) with
  | none => rfl
  | some c =>
      have hle := (leading?_eq_some_iff.1 hlead).length_le
      rw [String.length_utf8EncodeChar, List.length_cons] at hle
      exact List.drop_append_of_le_length (by omega)

/-- **The decoding of pieces put together is that of the one and then that of the other.** -/
theorem decode_append (hys : StartsAfresh ys) (bytes : List UInt8) :
    decode (bytes ++ ys) = decode bytes ++ decode ys := by
  -- along the pieces of the bytes in front of the cut
  induction bytes using pieces.induct with
  | case1 => rw [List.nil_append, decode_nil, List.nil_append]
  | case2 first rest ih =>
      have hlead := leading?_append hys first rest
      rw [List.cons_append] at hlead ⊢
      rw [decode_cons, decode_cons, hlead, behind_append hys, ih, List.cons_append]

/-! ### Line breaks -/

/-- An encoding holds the byte of a line break only if it is one. -/
theorem count_utf8EncodeChar (c : Char) :
    (String.utf8EncodeChar c).count 0x0a = if c = '\n' then 1 else 0 := by
  by_cases hc : c = '\n'
  · rw [if_pos hc, hc]
    decide
  · have hspells := spells_utf8EncodeChar c
    have hnot : (0x0a : UInt8) ∉ String.utf8EncodeChar c := by
      intro hmem
      cases henc : String.utf8EncodeChar c with
      | nil => exact String.utf8EncodeChar_ne_nil henc
      | cons first more =>
          rw [henc] at hmem hspells
          rcases List.mem_cons.1 hmem with rfl | hmem
          · cases hspells with
            | one a ha hn => exact hc (Char.toNat_inj.1 hn)
            | two a b ha hb hn => exact absurd ha.1 (by decide)
            | three a b c ha hb hc hn => exact absurd ha.1 (by decide)
            | four a b c d ha hb hc hd hn => exact absurd ha.1 (by decide)
          · exact absurd (isTail_of_mem_utf8EncodeChar henc _ hmem).1 (by decide)
    rw [if_neg hc, List.count_eq_zero.2 hnot]

/-- **Line breaks can be counted without decoding.** -/
theorem count_decode (bytes : List UInt8) : (decode bytes).count '\n' = bytes.count 0x0a := by
  induction bytes using pieces.induct with
  | case1 => rw [decode_nil, List.count_nil, List.count_nil]
  | case2 first rest ih =>
      rw [decode_cons, List.count_cons, ih]
      cases hlead : leading? (first :: rest) with
      | some c =>
          rw [(pieces_of_leading? hlead).1, List.count_append, count_utf8EncodeChar, Nat.add_comm]
          simp
      | none =>
          -- a line break is never replaced
          have hfirst : first ≠ 0x0a := by
            rintro rfl
            have hsome : leading? (0x0a :: rest) = some '\n' := leading?_eq_some_iff.2 ⟨rest, rfl⟩
            rw [hsome] at hlead
            exact nomatch hlead
          have hbehind : behind first rest = rest := by simp only [behind, hlead]
          rw [hbehind, List.count_cons_of_ne hfirst]
          rfl

end Utf8

end TokenStream
