/-
Finding the next token at a caret.

Scanning starts by passing over blanks.  If the text ends there, there is no token, except that the
fault of a source which failed is reported once.  If a symbol stands there, one more character is
looked at, and two characters that are a symbol together are taken together; a character that was
only looked at stays where it is and starts the next token.  Anything else starts a word, which
reaches **up to the next blank**, so that symbols inside a word belong to it.

Every token found makes the rest of the text smaller, or is the one report of a fault.  This is
`Caret.remaining_scan_lt`, and it is why a text has only finitely many tokens.

* `Caret.skipBlanks`, `Caret.takeSymbol`, `Caret.takeWord`, `Caret.failure?` — the four parts;
* `Caret.scan` — the next token;
* `Caret.remaining`, `Caret.remaining_scan_lt` — the measure of what is left to be scanned.
-/

import TokenStream.Caret
import TokenStream.Token

set_option relaxedAutoImplicit false
set_option autoImplicit false

namespace TokenStream

namespace Caret

/-! ### The parts of a scan -/

/-- Moves over all blanks at the caret. -/
def skipBlanks (c : Caret) : Caret :=
  match _ : c.current with
  | none => c
  | some char =>
      if char = '\n' then c.breakLine.advance.skipBlanks
      else if char = ' ' ∨ char = '\t' then c.advance.skipBlanks
      else c
termination_by c.size
decreasing_by
  · exact size_advance_lt (c := c.breakLine) (by simp [breakLine, *])
  · exact size_advance_lt (by simp [*])

/-- Takes the symbol at the caret: the character `first`, which is of the given kind on its own, or
a pair that starts with it. -/
def takeSymbol (c : Caret) (first : Char) (kind : Kind) : Token × Caret :=
  match c.lookAhead with
  | (second?, c') =>
      match second?, second?.bind (Kind.ofPair? first) with
      | some second, some pairKind =>
          ({ kind := pairKind, position := c.position, value := String.ofList [first, second] },
            c'.advance.advance)
      | _, _ =>
          ({ kind, position := c.position, value := String.singleton first }, c'.advance)

/-- Takes the characters up to the next blank, and appends them to `taken`. -/
def wordOnto (taken : String) (c : Caret) : String × Caret :=
  match _ : c.current with
  | none => (taken, c)
  | some char =>
      if isBlank char then (taken, c) else wordOnto (taken.push char) c.advance
termination_by c.size
decreasing_by exact size_advance_lt (by simp [*])

/-- Takes the word at the caret. -/
def takeWord (c : Caret) : Token × Caret :=
  match wordOnto "" c with
  | (value, c') => ({ kind := .identifier, position := c.position, value }, c')

/-- At the end of the text: the report of a fault that was not reported before. -/
def failure? (c : Caret) : Option Token × Caret :=
  match c.takeFault with
  | (cause?, c') => (cause?.map fun cause => .failure cause.message c.position, c')

/-- The token at the caret, when the caret stands on no blank. -/
def tokenHere (c : Caret) : Option Token × Caret :=
  match c.current with
  | none => c.failure?
  | some char =>
      match Kind.ofSymbol? char with
      | some kind => (c.takeSymbol char kind).map some id
      | none => c.takeWord.map some id

/-- The next token, or `none` at the end of a text that has nothing to report. -/
def scan (c : Caret) : Option Token × Caret := c.skipBlanks.tokenHere

/-! ### Every token makes the rest smaller -/

/-- What is left to be scanned: text, and a fault that may have to be reported. -/
def remaining (c : Caret) : Nat := c.size + (if c.reported then 0 else 1)

theorem size_advance_le (c : Caret) : c.advance.size ≤ c.size := by
  cases hc : c.current with
  | some char => exact Nat.le_of_lt (size_advance_lt (by simp [hc]))
  | none =>
      cases ha : c.ahead with
      | some char? =>
          simp [advance, ha, size, hc]
      | none =>
          have := length_bytes_next_add_le c.input
          simp [advance, ha, size, hc] at *
          omega

theorem size_skipBlanks_le (c : Caret) : c.skipBlanks.size ≤ c.size := by
  fun_induction skipBlanks c with
  | case1 c hc => exact Nat.le_refl _
  | case2 c hc ih => exact Nat.le_trans ih (size_advance_le c.breakLine)
  | case3 c char hc hline hspace ih => exact Nat.le_trans ih (size_advance_le c)
  | case4 c char hc hline hspace => exact Nat.le_refl _

@[simp] theorem reported_skipBlanks (c : Caret) : c.skipBlanks.reported = c.reported := by
  fun_induction skipBlanks c with
  | case1 c hc => rfl
  | case2 c hc ih => simpa using ih
  | case3 c char hc hline hspace ih => simpa using ih
  | case4 c char hc hline hspace => rfl

/-- Where blanks have been passed over, none is left. -/
theorem isBlank_current_skipBlanks {c : Caret} {char : Char}
    (h : c.skipBlanks.current = some char) : isBlank char = false := by
  fun_induction skipBlanks c with
  | case1 c hc => simp [hc] at h
  | case2 c hc ih => exact ih h
  | case3 c char' hc hline hspace ih => exact ih h
  | case4 c char' hc hline hspace =>
      obtain rfl : char' = char := by simpa [hc] using h
      exact not_isBlank_of_ne hline hspace

theorem size_takeSymbol_lt {c : Caret} {first : Char} (kind : Kind) (h : c.current.isSome) :
    (c.takeSymbol first kind).2.size < c.size := by
  have hlt : c.lookAhead.2.advance.size < c.size :=
    Nat.lt_of_lt_of_le (size_advance_lt (by simpa using h)) (size_lookAhead_le c)
  unfold takeSymbol
  split
  rename_i second? c' hahead
  rw [hahead] at hlt
  split
  · exact Nat.lt_of_le_of_lt (size_advance_le _) hlt
  · exact hlt

@[simp] theorem reported_takeSymbol (c : Caret) (first : Char) (kind : Kind) :
    (c.takeSymbol first kind).2.reported = c.reported := by
  have hahead := reported_lookAhead c
  unfold takeSymbol
  split
  rename_i second? c' h
  rw [h] at hahead
  split <;> simpa using hahead

theorem size_wordOnto_le (taken : String) (c : Caret) : (wordOnto taken c).2.size ≤ c.size := by
  fun_induction wordOnto taken c with
  | case1 taken c hc => exact Nat.le_refl _
  | case2 taken c char hc hblank => exact Nat.le_refl _
  | case3 taken c char hc hblank ih => exact Nat.le_trans ih (size_advance_le c)

@[simp] theorem reported_wordOnto (taken : String) (c : Caret) :
    (wordOnto taken c).2.reported = c.reported := by
  fun_induction wordOnto taken c with
  | case1 taken c hc => rfl
  | case2 taken c char hc hblank => rfl
  | case3 taken c char hc hblank ih => simpa using ih

/-- A word that starts on a character which is not blank is not empty. -/
theorem size_takeWord_lt {c : Caret} {char : Char} (hc : c.current = some char)
    (hblank : isBlank char = false) : c.takeWord.2.size < c.size := by
  show (wordOnto "" c).2.size < c.size
  rw [wordOnto.eq_def]
  split
  · rename_i h
    simp [h] at hc
  · rename_i char' h
    obtain rfl : char' = char := by simpa [h] using hc
    rw [if_neg (by simp [hblank])]
    exact Nat.lt_of_le_of_lt (size_wordOnto_le _ _) (size_advance_lt (by simp [h]))

@[simp] theorem reported_takeWord (c : Caret) : c.takeWord.2.reported = c.reported :=
  reported_wordOnto "" c

/-- A fault is reported only once. -/
theorem remaining_failure?_lt {c c' : Caret} {t : Token} (h : c.failure? = (some t, c')) :
    c'.remaining < c.remaining := by
  simp only [failure?, takeFault] at h
  split at h
  · rename_i hreported hcause
    obtain ⟨-, rfl⟩ := Prod.mk.inj h
    simp [remaining, hreported, size]
  · simp at h

/-- Every token that is found makes what is left to be scanned smaller. -/
theorem remaining_scan_lt {c c' : Caret} {t : Token} (h : c.scan = (some t, c')) :
    c'.remaining < c.remaining := by
  have hskip : c.skipBlanks.remaining ≤ c.remaining := by
    simpa [remaining] using size_skipBlanks_le c
  refine Nat.lt_of_lt_of_le ?_ hskip
  rw [scan, tokenHere] at h
  split at h
  · exact remaining_failure?_lt h
  · rename_i char hc
    split at h
    · rename_i kind hkind
      obtain rfl : (c.skipBlanks.takeSymbol char kind).2 = c' := congrArg Prod.snd h
      exact Nat.add_lt_add_of_lt_of_le (size_takeSymbol_lt kind (by simp [hc])) (by simp)
    · obtain rfl : c.skipBlanks.takeWord.2 = c' := congrArg Prod.snd h
      exact Nat.add_lt_add_of_lt_of_le
        (size_takeWord_lt hc (isBlank_current_skipBlanks hc)) (by simp)

end Caret

end TokenStream
