/-
Written forms stand on one line.

Whoever reads what was printed takes it line by line, so that a line break in a value must not be
one in its written form.  Between quotes it is not: **every character is escaped to something
without a line break**, be it by a letter, by its number, or as itself.  Numbers and the names of
kinds have none anyway.

* `Quoted.newline_not_mem_escape`, `Quoted.newline_not_mem_quote` — texts between quotes;
* `Position.newline_not_mem_text`, `Kind.newline_not_mem_name` — positions and kinds.
-/

import TokenStream.Token

set_option relaxedAutoImplicit false
set_option autoImplicit false

namespace TokenStream

namespace Quoted

/-! ### Texts between quotes -/

/-- The digits of a number are digits of its base. -/
theorem exists_digitChar_of_mem_toDigits {c : Char} {n : Nat} (h : c ∈ Nat.toDigits 16 n) :
    ∃ d, d < 16 ∧ c = Nat.digitChar d := by
  induction n using Nat.strongRecOn with
  | ind n ih =>
      rw [Nat.toDigits_eq_if (by decide)] at h
      split at h
      · rename_i hlt
        exact ⟨n, hlt, List.mem_singleton.1 h⟩
      · rename_i hge
        rcases List.mem_append.1 h with h | h
        · exact ih (n / 16) (by omega) h
        · exact ⟨n % 16, Nat.mod_lt n (by decide), List.mem_singleton.1 h⟩

theorem newline_not_mem_byNumber (c : Char) : '\n' ∉ byNumber c := by
  have hdigits : ∀ d, d < 16 → '\n' ≠ Nat.digitChar d := by decide
  intro hmem
  rw [byNumber, List.mem_append, List.mem_append] at hmem
  rcases hmem with (hmem | hmem) | hmem
  · exact absurd hmem (by decide)
  · obtain ⟨d, hd, hchar⟩ := exists_digitChar_of_mem_toDigits hmem
    exact hdigits d hd hchar
  · exact absurd hmem (by decide)

/-- No character is escaped to something with a line break. -/
theorem newline_not_mem_escape (c : Char) : '\n' ∉ escape c := by
  fun_cases escape c with
  | case1 | case2 | case3 | case4 | case5 | case6 => decide
  | case7 => exact newline_not_mem_byNumber c
  | case8 => simpa using Ne.symm ‹¬c = '\n'›

/-- **A text between quotes stands on one line.** -/
theorem newline_not_mem_quote (s : String) : '\n' ∉ (quote s).toList := by
  have hbody : '\n' ∉ body s.toList := by
    rw [body, List.mem_flatMap]
    rintro ⟨c, -, hmem⟩
    exact newline_not_mem_escape c hmem
  simpa [quote] using hbody

end Quoted

/-! ### Positions and kinds -/

theorem isDigit_of_mem_toString {n : Nat} {c : Char} (h : c ∈ (toString n).toList) :
    c.isDigit = true := by
  rw [Nat.toString_eq_ofList_toDigits, String.toList_ofList] at h
  exact Nat.isDigit_of_mem_toDigits (by decide) (by decide) h

/-- A written position is made of digits and a colon. -/
theorem Position.isDigit_or_of_mem_text {p : Position} {c : Char} (h : c ∈ p.text.toList) :
    c.isDigit = true ∨ c = ':' := by
  have htext : p.text = toString p.line ++ ":" ++ toString p.column := rfl
  rw [htext, String.toList_append, String.toList_append, List.mem_append, List.mem_append] at h
  rcases h with (h | h) | h
  · exact Or.inl (isDigit_of_mem_toString h)
  · exact Or.inr (List.mem_singleton.1 h)
  · exact Or.inl (isDigit_of_mem_toString h)

/-- A written position stands on one line. -/
theorem Position.newline_not_mem_text (p : Position) : '\n' ∉ p.text.toList :=
  fun h => absurd (isDigit_or_of_mem_text h) (by decide)

theorem Kind.newline_not_mem_name (kind : Kind) : '\n' ∉ kind.name.toList := by
  cases kind <;> decide

end TokenStream
