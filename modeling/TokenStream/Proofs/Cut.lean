/-
The tokens of a text, cut off its front one after the other.

This is scanning without a caret: a text is a list of characters, a place is a position, and a token
takes its characters off the front of the list.  Nothing is read, looked ahead at or handed back
here, which makes `Cut.tokens` the form in which the tokens of a text are easy to reason about;
`Proofs/Reading.lean` proves that a scanner finds exactly these tokens.

* `Lexeme.placed` — a lexeme with its place;
* `Cut.symbol`, `Cut.front` — the lexeme at the front of a text that begins with no blank, and the
  text behind it;
* `Cut.tokens` — **the tokens of a text** that begins at a given position;
* `Cut.front_append`, `Cut.not_blank_of_mem_front`, `Cut.kind_front_ne_unknown` — what is known of
  a lexeme that was cut off.
-/

import TokenStream.Grammar

set_option relaxedAutoImplicit false
set_option autoImplicit false

namespace TokenStream

/-- The token that a lexeme is at a place. -/
def Lexeme.placed (l : Lexeme) (p : Position) : Token :=
  { kind := l.kind, position := p, value := l.value }

@[simp] theorem Token.lexeme_placed (l : Lexeme) (p : Position) : (l.placed p).lexeme = l := rfl

@[simp] theorem Token.isEnd_placed (l : Lexeme) (p : Position) :
    (l.placed p).isEnd = (l.kind == .unknown) := by
  simp [isEnd, Lexeme.placed]

@[simp] theorem Token.check_placed (l : Lexeme) (p : Position) :
    (l.placed p).check = .ok (l.placed p) := rfl

/-! ### Symbols and blanks -/

theorem Kind.ofSymbol?_eq_some_iff {c : Char} {kind : Kind} :
    ofSymbol? c = some kind ↔ c = '+' ∧ kind = operator ∨ c = '=' ∧ kind = assignment := by
  unfold ofSymbol?
  split <;> rename_i hplus
  · simp [hplus, eq_comm]
  · split <;> rename_i hequals
    · simp [hequals, eq_comm]
    · simp [hplus, hequals]

theorem Kind.ofPair?_eq_some_iff {first second : Char} {kind : Kind} :
    ofPair? first second = some kind ↔ first = '=' ∧ second = '=' ∧ kind = equality := by
  simp [ofPair?, eq_comm, and_assoc]

/-- A symbol is no blank. -/
theorem isBlank_of_ofSymbol? {c : Char} {kind : Kind} (h : Kind.ofSymbol? c = some kind) :
    isBlank c = false := by
  rcases Kind.ofSymbol?_eq_some_iff.1 h with ⟨rfl, -⟩ | ⟨rfl, -⟩ <;> rfl

namespace Cut

/-! ### One lexeme -/

/-- The symbol at the front of `first :: rest`, where `first` is of the given kind on its own, and
the text behind it. -/
def symbol (first : Char) (kind : Kind) (rest : List Char) : Lexeme × List Char :=
  match rest with
  | [] => (⟨kind, String.singleton first⟩, [])
  | second :: rest' =>
      match Kind.ofPair? first second with
      | some pairKind => (⟨pairKind, String.ofList [first, second]⟩, rest')
      | none => (⟨kind, String.singleton first⟩, second :: rest')

/-- The lexeme at the front of `first :: rest`, where `first` is no blank, and the text behind
it. -/
def front (first : Char) (rest : List Char) : Lexeme × List Char :=
  match Kind.ofSymbol? first with
  | some kind => symbol first kind rest
  | none =>
      (⟨.identifier, String.ofList (first :: rest.takeWhile (!isBlank ·))⟩,
        rest.dropWhile (!isBlank ·))

@[simp] theorem front_plus (rest : List Char) : front '+' rest = (⟨.operator, "+"⟩, rest) := by
  cases rest <;> rfl

@[simp] theorem front_pair (rest : List Char) :
    front '=' ('=' :: rest) = (⟨.equality, "=="⟩, rest) := rfl

theorem front_single {rest : List Char} (h : rest.head? ≠ some '=') :
    front '=' rest = (⟨.assignment, "="⟩, rest) := by
  cases rest with
  | nil => rfl
  | cons second rest =>
      have hpair : Kind.ofPair? '=' second = none := if_neg fun hand => h (by simp [hand.2])
      change symbol '=' .assignment (second :: rest) = _
      simp only [symbol, hpair]
      rfl

theorem front_word {first : Char} (rest : List Char) (h : Grammar.isSymbol first = false) :
    front first rest =
      (⟨.identifier, String.ofList (first :: rest.takeWhile (!isBlank ·))⟩,
        rest.dropWhile (!isBlank ·)) := by
  rw [front, Option.isSome_eq_false_iff.1 h |> Option.isNone_iff_eq_none.1]

/-- The four ways to cut a lexeme off: a plus sign, a pair of equals signs, a single equals sign
that no second one follows, and a word. -/
theorem front_cases (first : Char) (rest : List Char) :
    first = '+' ∨ (first = '=' ∧ ∃ rest', rest = '=' :: rest') ∨
      (first = '=' ∧ rest.head? ≠ some '=') ∨ Grammar.isSymbol first = false := by
  by_cases hplus : first = '+'
  · exact Or.inl hplus
  · by_cases hequals : first = '='
    · cases rest with
      | nil => exact Or.inr (Or.inr (Or.inl ⟨hequals, by simp⟩))
      | cons second rest =>
          by_cases hsecond : second = '='
          · exact Or.inr (Or.inl ⟨hequals, rest, by rw [hsecond]⟩)
          · exact Or.inr (Or.inr (Or.inl ⟨hequals, by simpa using hsecond⟩))
    · exact Or.inr (Or.inr (Or.inr (by simp [Grammar.isSymbol, Kind.ofSymbol?, hplus, hequals])))

/-! ### What a lexeme is made of -/

/-- Cutting loses no character. -/
theorem front_append (first : Char) (rest : List Char) :
    (front first rest).1.value.toList ++ (front first rest).2 = first :: rest := by
  rcases front_cases first rest with rfl | ⟨rfl, rest', rfl⟩ | ⟨rfl, hsingle⟩ | hword
  · simp
  · simp
  · simp [front_single hsingle]
  · simp [front_word rest hword]

/-- A lexeme has a first character. -/
theorem exists_value_front (first : Char) (rest : List Char) :
    ∃ more, (front first rest).1.value.toList = first :: more := by
  rcases front_cases first rest with rfl | ⟨rfl, rest', rfl⟩ | ⟨rfl, hsingle⟩ | hword
  · exact ⟨[], by simp⟩
  · exact ⟨['='], by simp⟩
  · exact ⟨[], by simp [front_single hsingle]⟩
  · exact ⟨rest.takeWhile (!isBlank ·), by simp [front_word rest hword]⟩

/-- At least one character is cut off. -/
theorem length_front_le (first : Char) (rest : List Char) :
    (front first rest).2.length ≤ rest.length := by
  obtain ⟨more, hmore⟩ := exists_value_front first rest
  have happend := congrArg List.length (front_append first rest)
  rw [hmore] at happend
  simp at happend
  omega

/-- A lexeme holds no blank. -/
theorem not_blank_of_mem_front {first : Char} {rest : List Char} (h : isBlank first = false) :
    ∀ c ∈ (front first rest).1.value.toList, isBlank c = false := by
  intro c hc
  rcases front_cases first rest with rfl | ⟨rfl, rest', rfl⟩ | ⟨rfl, hsingle⟩ | hword
  · rw [front_plus] at hc
    obtain rfl : c = '+' := by simpa using hc
    rfl
  · rw [front_pair] at hc
    obtain rfl : c = '=' := by simpa using hc
    rfl
  · rw [front_single hsingle] at hc
    obtain rfl : c = '=' := by simpa using hc
    rfl
  · rw [front_word rest hword, String.toList_ofList] at hc
    rcases List.mem_cons.1 hc with rfl | hc
    · exact h
    · simpa using List.all_eq_true.1 List.all_takeWhile c hc

theorem kind_front_ne_unknown (first : Char) (rest : List Char) :
    (front first rest).1.kind ≠ .unknown := by
  rcases front_cases first rest with rfl | ⟨rfl, rest', rfl⟩ | ⟨rfl, hsingle⟩ | hword
  · simp
  · simp
  · simp [front_single hsingle]
  · simp [front_word rest hword]

/-! ### All lexemes -/

/-- The tokens of a text that begins at the position `p`. -/
def tokens (p : Position) (cs : List Char) : List Token :=
  match cs with
  | [] => []
  | c :: rest =>
      if isBlank c then tokens (p.step c) rest
      else
        (front c rest).1.placed p ::
          tokens (p.after (front c rest).1.value.toList) (front c rest).2
termination_by cs.length
decreasing_by
  · simp
  · exact Nat.lt_succ_of_le (length_front_le c rest)

@[simp] theorem tokens_nil (p : Position) : tokens p [] = [] := by rw [tokens]

theorem tokens_blank {c : Char} (p : Position) (rest : List Char) (h : isBlank c = true) :
    tokens p (c :: rest) = tokens (p.step c) rest := by
  rw [tokens, if_pos h]

theorem tokens_front {c : Char} (p : Position) (rest : List Char) (h : isBlank c = false) :
    tokens p (c :: rest) =
      (front c rest).1.placed p ::
        tokens (p.after (front c rest).1.value.toList) (front c rest).2 := by
  rw [tokens, if_neg (by simp [h])]

/-- No token of a text carries an error. -/
theorem mapM_check_tokens (p : Position) (cs : List Char) :
    (tokens p cs).mapM Token.check = .ok (tokens p cs) := by
  fun_induction tokens p cs with
  | case1 p => rfl
  | case2 p c rest h ih => exact ih
  | case3 p c rest h ih =>
      rw [List.mapM_cons, ih, Token.check_placed]
      rfl

end Cut

end TokenStream
