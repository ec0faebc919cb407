/-
The tokens of a text obey its grammar.

`Grammar.lexemes` looks at a whole text: it cuts the text at its blanks, separates the symbols in
front of each run from the word behind them, and counts the equals signs of each block.  The scanner
never sees a run or a block.  It decides at every character anew, with one character of lookahead,
and yet it finds **exactly the lexemes of the grammar**, in their order.

The link between the two is that the grammar, too, can be followed one lexeme at a time: a plus sign
comes off the front of a run, a pair of equals signs comes off the front of a block and leaves the
parity of the block, and a word takes the rest of its run.

* `Grammar.lexemes_eq` — the lexemes of a text are those of its first run and of the text behind it;
* `Grammar.ofRun_plus`, `Grammar.ofRun_pair`, `Grammar.ofRun_single`, `Grammar.ofRun_word` — one
  lexeme off the front of a run;
* `Grammar.lexemes_front` — one lexeme off the front of a text, as `Cut.front` does it;
* `Cut.map_lexeme_tokens` — the tokens of a text say what the grammar says;
* `Script.map_lexeme_tokens_of_clean` — **the same for the tokens of a source**.
-/

import TokenStream.Proofs.Reading

set_option relaxedAutoImplicit false
set_option autoImplicit false

namespace TokenStream

namespace Grammar

/-! ### Blocks of equals signs -/

/-- A pair in front of a block leaves the rest of the block as it is. -/
theorem equals_add_two (k : Nat) : equals (k + 2) = ⟨.equality, "=="⟩ :: equals k := by
  have hhalf : (k + 2) / 2 = k / 2 + 1 := by omega
  have hparity : (k + 2) % 2 = k % 2 := by omega
  rw [equals, equals, hhalf, hparity, List.replicate_succ, List.cons_append]

@[simp] theorem symbols_nil : symbols [] = [] := by rw [symbols]

/-- The block in front of a sequence of symbols may be empty. -/
theorem symbols_eq (cs : List Char) :
    symbols cs =
      equals (cs.takeWhile (· == '=')).length ++ symbols (cs.dropWhile (· == '=')) := by
  cases cs with
  | nil => rfl
  | cons c rest =>
      by_cases hc : c = '='
      · rw [symbols, if_pos hc, List.takeWhile_cons_of_pos (by simp [hc]),
          List.dropWhile_cons_of_pos (by simp [hc]), List.length_cons, Nat.add_comm 1]
      · rw [List.takeWhile_cons_of_neg (by simp [hc]), List.dropWhile_cons_of_neg (by simp [hc])]
        rfl

theorem symbols_plus (cs : List Char) :
    symbols ('+' :: cs) = ⟨.operator, "+"⟩ :: symbols cs := by
  rw [symbols, if_neg (by decide)]
  rfl

theorem symbols_pair (cs : List Char) :
    symbols ('=' :: '=' :: cs) = ⟨.equality, "=="⟩ :: symbols cs := by
  rw [symbols, if_pos rfl, symbols_eq cs, List.takeWhile_cons_of_pos (by rfl),
    List.dropWhile_cons_of_pos (by rfl), List.length_cons, Nat.add_comm 1, equals_add_two,
    List.cons_append]

theorem symbols_single {cs : List Char} (h : cs.head? ≠ some '=') :
    symbols ('=' :: cs) = ⟨.assignment, "="⟩ :: symbols cs := by
  have hdrop : cs.dropWhile (· == '=') = cs := List.dropWhile_beq_eq_self_of_head?_ne h
  have htake : cs.takeWhile (· == '=') = [] := by
    have happend := List.takeWhile_append_dropWhile (p := (· == '=')) (l := cs)
    rw [hdrop] at happend
    exact List.append_left_eq_self.1 happend
  rw [symbols, if_pos rfl, htake, hdrop]
  rfl

/-! ### One lexeme off a run -/

@[simp] theorem ofRun_nil : ofRun [] = [] := by
  simp [ofRun]

theorem ofRun_plus (run : List Char) : ofRun ('+' :: run) = ⟨.operator, "+"⟩ :: ofRun run := by
  rw [ofRun, List.takeWhile_cons_of_pos (by rfl), List.dropWhile_cons_of_pos (by rfl), symbols_plus]
  rfl

theorem ofRun_pair (run : List Char) :
    ofRun ('=' :: '=' :: run) = ⟨.equality, "=="⟩ :: ofRun run := by
  rw [ofRun, List.takeWhile_cons_of_pos (by rfl), List.dropWhile_cons_of_pos (by rfl),
    List.takeWhile_cons_of_pos (by rfl), List.dropWhile_cons_of_pos (by rfl), symbols_pair]
  rfl

theorem ofRun_single {run : List Char} (h : run.head? ≠ some '=') :
    ofRun ('=' :: run) = ⟨.assignment, "="⟩ :: ofRun run := by
  have hhead : (run.takeWhile isSymbol).head? ≠ some '=' := by
    rw [List.head?_takeWhile]
    exact fun heq => h (Option.filter_eq_some_iff.1 heq).1
  rw [ofRun, List.takeWhile_cons_of_pos (by rfl), List.dropWhile_cons_of_pos (by rfl),
    symbols_single hhead]
  rfl

theorem ofRun_word {c : Char} (run : List Char) (h : isSymbol c = false) :
    ofRun (c :: run) = [⟨.identifier, String.ofList (c :: run)⟩] := by
  rw [ofRun, List.takeWhile_cons_of_neg (by simp [h]), List.dropWhile_cons_of_neg (by simp [h]),
    symbols_nil, List.nil_append]

/-! ### One lexeme off a text -/

@[simp] theorem lexemes_nil : lexemes [] = [] := by
  rw [lexemes, runs]
  rfl

/-- Runs are separated by the blanks that a scanner passes over. -/
theorem separates_eq_isBlank : separates = isBlank := by
  funext c
  rw [Bool.eq_iff_iff, isBlank_iff]
  exact decide_eq_true_iff

theorem lexemes_blank {c : Char} (rest : List Char) (h : isBlank c = true) :
    lexemes (c :: rest) = lexemes rest := by
  rw [lexemes, runs, separates_eq_isBlank, if_pos h, lexemes]

/-- The lexemes of a text are those of its first run, which may be empty, and of the text behind
it. -/
theorem lexemes_eq (cs : List Char) :
    lexemes cs = ofRun (cs.takeWhile (!isBlank ·)) ++ lexemes (cs.dropWhile (!isBlank ·)) := by
  cases cs with
  | nil => simp
  | cons c rest =>
      cases hblank : isBlank c with
      | true =>
          rw [List.takeWhile_cons_of_neg (by simp [hblank]),
            List.dropWhile_cons_of_neg (by simp [hblank]), ofRun_nil, List.nil_append]
      | false =>
          rw [lexemes, runs, separates_eq_isBlank, if_neg (by simp [hblank]), List.flatMap_cons,
            List.takeWhile_cons_of_pos (by simp [hblank]),
            List.dropWhile_cons_of_pos (by simp [hblank]), lexemes]

/-- What comes off the front of the first run comes off the text. -/
theorem lexemes_cons {c : Char} (rest : List Char) (h : isBlank c = false) :
    lexemes (c :: rest) =
      ofRun (c :: rest.takeWhile (!isBlank ·)) ++ lexemes (rest.dropWhile (!isBlank ·)) := by
  rw [lexemes_eq, List.takeWhile_cons_of_pos (by simp [h]),
    List.dropWhile_cons_of_pos (by simp [h])]

/-- The grammar cuts off the lexeme that the scanner cuts off. -/
theorem lexemes_front {c : Char} (rest : List Char) (h : isBlank c = false) :
    lexemes (c :: rest) = (Cut.front c rest).1 :: lexemes (Cut.front c rest).2 := by
  rw [lexemes_cons rest h]
  rcases Cut.front_cases c rest with rfl | ⟨rfl, rest', rfl⟩ | ⟨rfl, hsingle⟩ | hword
  · rw [ofRun_plus, List.cons_append, ← lexemes_eq, Cut.front_plus]
  · rw [List.takeWhile_cons_of_pos (by rfl), List.dropWhile_cons_of_pos (by rfl), ofRun_pair,
      List.cons_append, ← lexemes_eq, Cut.front_pair]
  · -- cutting the run off leaves the single equals sign single
    have hhead : (rest.takeWhile (!isBlank ·)).head? ≠ some '=' := by
      rw [List.head?_takeWhile]
      exact fun heq => hsingle (Option.filter_eq_some_iff.1 heq).1
    rw [ofRun_single hhead, List.cons_append, ← lexemes_eq, Cut.front_single hsingle]
  · rw [ofRun_word _ hword, Cut.front_word rest hword]
    rfl

end Grammar

/-- The tokens of a text say what its grammar says. -/
theorem Cut.map_lexeme_tokens (p : Position) (cs : List Char) :
    (Cut.tokens p cs).map Token.lexeme = Grammar.lexemes cs := by
  fun_induction Cut.tokens p cs with
  | case1 p => simp
  | case2 p c rest hblank ih => rw [ih, Grammar.lexemes_blank rest hblank]
  | case3 p c rest hblank ih =>
      rw [Grammar.lexemes_front rest (by simpa using hblank), List.map_cons, ih,
        Token.lexeme_placed]

namespace Script

/-- **A source that ends cleanly has tokens, and they are the lexemes of its text.** -/
theorem map_lexeme_tokens_of_clean (events : Script) (h : events.ending = .clean) :
    ∃ ts, (Source.ofScript events).tokens = .ok ts ∧
      ts.map Token.lexeme = Grammar.lexemes (Utf8.decode events.bytes) := by
  refine ⟨Cut.tokens .start (Utf8.decode events.bytes), ?_, ?_⟩
  · exact Source.tokens_of_clean h
  · exact Cut.map_lexeme_tokens _ _

/-- An interruption between two reads, a character cut by a read, and bytes behind the end. -/
theorem map_lexeme_tokens_of_interrupted :
    let events : Script := [.bytes [0x61, 0x3d], .fault (.ofKind .interrupted),
      .bytes [0x62, 0x0a, 0x2b, 0x3d, 0x3d, 0x3d, 0xe2], .bytes [0x82, 0xac], .endOfInput,
      .bytes [0x2b]]
    events.ending = .clean ∧
      ∃ ts, (Source.ofScript events).tokens = .ok ts ∧
        ts.map Token.lexeme = [⟨.identifier, "a=b"⟩, ⟨.operator, "+"⟩, ⟨.equality, "=="⟩,
          ⟨.assignment, "="⟩, ⟨.identifier, "€"⟩] := by
  intro events
  have hclean : events.ending = .clean := rfl
  have hlexemes : Grammar.lexemes (Utf8.decode events.bytes) = [⟨.identifier, "a=b"⟩,
      ⟨.operator, "+"⟩, ⟨.equality, "=="⟩, ⟨.assignment, "="⟩, ⟨.identifier, "€"⟩] := by
    change Grammar.lexemes (Utf8.decode
      [0x61, 0x3d, 0x62, 0x0a, 0x2b, 0x3d, 0x3d, 0x3d, 0xe2, 0x82, 0xac]) = _
    decide +kernel
  obtain ⟨ts, htokens, hmap⟩ := map_lexeme_tokens_of_clean events hclean
  exact ⟨hclean, ts, htokens, hmap.trans hlexemes⟩

end Script

end TokenStream
