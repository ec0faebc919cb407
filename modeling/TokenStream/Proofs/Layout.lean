/-
Which token lists are those of a text.

The tokens of a text say where they stand, and not every list of tokens can be right about that.
`Layout.wellPlaced` decides it by looking at each token and at each pair of neighbours, and this is
neither too much nor too little: **the token lists of the sources that end cleanly are exactly the
well-placed ones**.  Lists with a token of kind `unknown` are left out on both sides, since the end
of the stream is no token of a list.  Moreover one source can be written down for each well-placed
list, since scanning `Layout.text ts` gives `ts` back, at the positions that the tokens of `ts` claim
to have.

Both directions meet in one question: what may stand directly behind a token?  Behind a word only a
blank or nothing, behind a single equals sign anything but another one (`Kind.EndsBefore`).  A
lexeme that is cut off has such a text behind it, and a value that has such a text behind it is cut
off.

* `Position.LeadsTo`, `Layout.after_gap` — blanks lead on to every later position;
* `Kind.EndsBefore`, `Cut.endsBefore_front`, `Cut.front_of_isValueOf` — **where a lexeme ends**;
* `Token.gluesTo_eq_false_iff` — tokens that can touch, said with the text of the second one;
* `Cut.precedes_of_head_tokens`, `Layout.wellPlaced_tokens` — the tokens of a text are well placed;
* `Layout.endsBefore_textFrom`, `Layout.tokens_text` — well-placed tokens are those of their text;
* `Layout.wellPlaced_iff_exists_source` — **both directions for sources**.
-/

import TokenStream.Layout
import TokenStream.Proofs.Encoding
import TokenStream.Proofs.Reading

set_option relaxedAutoImplicit false
set_option autoImplicit false

namespace TokenStream

/-! ### Blanks that lead from one position to another -/

namespace Position

/-- The position `q` is `p` or stands behind it. -/
def LeadsTo (p q : Position) : Prop := p.line < q.line ∨ p.line = q.line ∧ p.column ≤ q.column

theorem LeadsTo.refl (p : Position) : p.LeadsTo p := Or.inr ⟨rfl, Nat.le_refl _⟩

theorem LeadsTo.trans {p q r : Position} (h : p.LeadsTo q) (h' : q.LeadsTo r) : p.LeadsTo r := by
  simp only [LeadsTo] at h h' ⊢
  omega

theorem leadsTo_step (p : Position) (c : Char) : p.LeadsTo (p.step c) := by
  unfold step
  split
  · exact Or.inl (Nat.lt_succ_self _)
  · exact Or.inr ⟨rfl, Nat.le_succ _⟩

/-- Behind a text without line breaks the line is the same. -/
theorem after_of_not_mem (p : Position) {cs : List Char} (h : '\n' ∉ cs) :
    p.after cs = ⟨p.line, p.column + cs.length⟩ := by
  induction cs generalizing p with
  | nil => rfl
  | cons c cs ih =>
      obtain ⟨hc, hcs⟩ : '\n' ≠ c ∧ '\n' ∉ cs := by simpa using h
      rw [after_cons, step, if_neg (Ne.symm hc), ih _ hcs, List.length_cons, Nat.add_comm cs.length,
        ← Nat.add_assoc]
      rfl

/-- Line breaks lead to the first column. -/
theorem after_replicate_newline (p : Position) (k : Nat) :
    p.after (List.replicate (k + 1) '\n') = ⟨p.line + (k + 1), 1⟩ := by
  induction k generalizing p with
  | zero => rfl
  | succ k ih =>
      have hline : p.line + 1 + (k + 1) = p.line + (k + 1 + 1) := by omega
      rw [List.replicate_succ, after_cons, ih, ← hline]
      rfl

end Position

namespace Layout

/-- The gap leads to the position that it is made for. -/
theorem after_gap {p q : Position} (h : p.LeadsTo q) (hcolumn : 1 ≤ q.column) :
    p.after (gap p q) = q := by
  have hspaces : ∀ k, '\n' ∉ List.replicate k ' ' := by simp
  unfold gap
  split
  · rename_i hline
    obtain ⟨k, hk⟩ : ∃ k, q.line = p.line + (k + 1) := Nat.exists_eq_add_of_lt hline
    have hcolumn' : 1 + (q.column - 1) = q.column := by omega
    rw [hk, Nat.add_sub_cancel_left, Position.after_append, Position.after_replicate_newline,
      Position.after_of_not_mem _ (hspaces _), List.length_replicate, hcolumn', ← hk]
  · rename_i hline
    simp only [Position.LeadsTo] at h
    obtain ⟨hline, hle⟩ : p.line = q.line ∧ p.column ≤ q.column := by omega
    rw [Position.after_of_not_mem _ (hspaces _), List.length_replicate, hline,
      Nat.add_sub_cancel' hle]

theorem isBlank_of_mem_gap {p q : Position} {c : Char} (h : c ∈ gap p q) : isBlank c = true := by
  unfold gap at h
  split at h
  · rcases List.mem_append.1 h with h | h
    · rw [(List.mem_replicate.1 h).2]
      rfl
    · rw [(List.mem_replicate.1 h).2]
      rfl
  · rw [(List.mem_replicate.1 h).2]
    rfl

/-- A gap is empty only between a position and itself. -/
theorem eq_of_gap_eq_nil {p q : Position} (h : p.LeadsTo q) (hgap : gap p q = []) : p = q := by
  simp only [Position.LeadsTo] at h
  unfold gap at hgap
  split at hgap
  · have hlines : q.line - p.line = 0 := by simpa using (List.append_eq_nil_iff.1 hgap).1
    omega
  · have hcolumn : q.column - p.column = 0 := by simpa using hgap
    exact (Position.mk.injEq _ _ _ _).mpr ⟨by omega, by omega⟩

end Layout

/-! ### Where a lexeme ends -/

/-- The text `rest` can stand directly behind a lexeme of the given kind. -/
def Kind.EndsBefore (kind : Kind) (rest : List Char) : Prop :=
  (kind = identifier → ∀ c ∈ rest.head?, isBlank c = true) ∧
    (kind = assignment → rest.head? ≠ some '=')

namespace Cut

/-- Behind a lexeme that is cut off stands a text that can stand there. -/
theorem endsBefore_front (first : Char) (rest : List Char) :
    (front first rest).1.kind.EndsBefore (front first rest).2 := by
  rcases front_cases first rest with rfl | ⟨rfl, rest', rfl⟩ | ⟨rfl, hsingle⟩ | hword
  · simp [Kind.EndsBefore]
  · simp [Kind.EndsBefore]
  · simpa [Kind.EndsBefore, front_single hsingle] using hsingle
  · have hhead := List.head?_dropWhile_not (!isBlank ·) rest
    rw [front_word rest hword]
    constructor
    · intro _ c hc
      rw [Option.mem_def.1 hc] at hhead
      simpa using hhead
    · intro hkind
      exact absurd hkind (by simp)

/-- The value of a lexeme that is cut off is one of its kind. -/
theorem isValueOf_front {first : Char} {rest : List Char} (h : isBlank first = false) :
    Token.isValueOf (front first rest).1.value.toList (front first rest).1.kind = true := by
  rcases front_cases first rest with rfl | ⟨rfl, rest', rfl⟩ | ⟨rfl, hsingle⟩ | hword
  · simp [Token.isValueOf]
  · simp [Token.isValueOf]
  · simp [front_single hsingle, Token.isValueOf]
  · have hblank : ∀ c ∈ (front first rest).1.value.toList, isBlank c = false :=
      not_blank_of_mem_front h
    rw [front_word rest hword, String.toList_ofList] at hblank ⊢
    simp only [Token.isValueOf, hword, Bool.not_false, Bool.true_and, List.all_eq_true]
    exact fun c hc => by simpa using hblank c hc

end Cut

namespace Token

/-- The values of each kind. -/
theorem isValueOf_cases {value : List Char} {kind : Kind} (h : isValueOf value kind = true) :
    kind = .operator ∧ value = ['+'] ∨ kind = .equality ∧ value = ['=', '='] ∨
      kind = .assignment ∧ value = ['='] ∨
      kind = .identifier ∧ ∃ first more, value = first :: more ∧
        Grammar.isSymbol first = false ∧ ∀ c ∈ value, isBlank c = false := by
  cases kind with
  | unknown => exact absurd h Bool.false_ne_true
  | operator => exact Or.inl ⟨rfl, by simpa [isValueOf] using h⟩
  | equality => exact Or.inr (Or.inl ⟨rfl, by simpa [isValueOf] using h⟩)
  | assignment => exact Or.inr (Or.inr (Or.inl ⟨rfl, by simpa [isValueOf] using h⟩))
  | identifier =>
      cases value with
      | nil => exact absurd h Bool.false_ne_true
      | cons first more =>
          obtain ⟨hsymbol, hblank⟩ := Bool.and_eq_true_iff.1 h
          refine Or.inr (Or.inr (Or.inr ⟨rfl, first, more, rfl, by simpa using hsymbol, ?_⟩))
          simpa using hblank

/-- A value holds no blank. -/
theorem not_blank_of_isValueOf {value : List Char} {kind : Kind}
    (h : isValueOf value kind = true) : ∀ c ∈ value, isBlank c = false := by
  rcases isValueOf_cases h with ⟨-, rfl⟩ | ⟨-, rfl⟩ | ⟨-, rfl⟩ | ⟨-, first, more, -, -, hblank⟩
  · simp [isBlank]
  · simp [isBlank]
  · simp [isBlank]
  · exact hblank

/-- A value begins with an equals sign only if it is one or a pair of them. -/
theorem exists_cons_of_isValueOf {value : List Char} {kind : Kind}
    (h : isValueOf value kind = true) :
    ∃ first more, value = first :: more ∧
      (first = '=' ↔ kind = .assignment ∨ kind = .equality) := by
  rcases isValueOf_cases h with ⟨rfl, rfl⟩ | ⟨rfl, rfl⟩ | ⟨rfl, rfl⟩ |
    ⟨rfl, first, more, rfl, hsymbol, -⟩
  · exact ⟨'+', [], rfl, by decide⟩
  · exact ⟨'=', ['='], rfl, by decide⟩
  · exact ⟨'=', [], rfl, by decide⟩
  · have hequals : first ≠ '=' := by
      rintro rfl
      exact absurd hsymbol (by decide)
    exact ⟨first, more, rfl, by simp [hequals]⟩

end Token

/-- A value is cut off in front of a text that can stand behind it. -/
theorem Cut.front_of_isValueOf {value rest : List Char} {kind : Kind}
    (h : Token.isValueOf value kind = true) (hrest : kind.EndsBefore rest) :
    ∃ first more, value = first :: more ∧
      front first (more ++ rest) = (⟨kind, String.ofList value⟩, rest) := by
  rcases Token.isValueOf_cases h with ⟨rfl, rfl⟩ | ⟨rfl, rfl⟩ | ⟨rfl, rfl⟩ |
    ⟨rfl, first, more, rfl, hsymbol, hblank⟩
  · exact ⟨'+', [], rfl, front_plus rest⟩
  · exact ⟨'=', ['='], rfl, front_pair rest⟩
  · exact ⟨'=', [], rfl, front_single (hrest.2 rfl)⟩
  · -- the word goes on over `more`, and not into `rest`
    have hmore : ∀ c ∈ more, (!isBlank c) = true := by
      intro c hc
      simp [hblank c (List.mem_cons_of_mem _ hc)]
    have hstop : rest.takeWhile (!isBlank ·) = [] ∧ rest.dropWhile (!isBlank ·) = rest := by
      cases rest with
      | nil => exact ⟨rfl, rfl⟩
      | cons d rest =>
          have hd : isBlank d = true := hrest.1 rfl d rfl
          simp [hd]
    refine ⟨first, more, rfl, ?_⟩
    rw [front_word _ hsymbol, List.takeWhile_append_of_pos hmore,
      List.dropWhile_append_of_pos hmore, hstop.1, hstop.2, List.append_nil]

/-! ### Neighbours -/

namespace Token

theorem isProper_iff {t : Token} :
    t.isProper = true ↔ t.error = none ∧ 1 ≤ t.position.line ∧ 1 ≤ t.position.column ∧
      isValueOf t.value.toList t.kind = true := by
  simp [isProper, and_assoc]

theorem precedes_iff {t u : Token} :
    t.precedes u = true ↔ t.position.line < u.position.line ∨
      t.position.line = u.position.line ∧ (t.stop.column < u.position.column ∨
        t.stop.column = u.position.column ∧ t.gluesTo u = false) := by
  simp [precedes]

/-- Two tokens can touch if the second one can stand directly behind the first one. -/
theorem gluesTo_eq_false_iff {t u : Token} (hu : isValueOf u.value.toList u.kind = true)
    (rest : List Char) :
    t.gluesTo u = false ↔ t.kind.EndsBefore (u.value.toList ++ rest) := by
  obtain ⟨first, more, hvalue, hequals⟩ := exists_cons_of_isValueOf hu
  have hblank : isBlank first = false := not_blank_of_isValueOf hu first (by simp [hvalue])
  simp [gluesTo, Kind.EndsBefore, hvalue, hblank, hequals]

/-- The position behind a token is reached over its value. -/
theorem after_value {t : Token} (h : isValueOf t.value.toList t.kind = true) :
    t.position.after t.value.toList = t.stop := by
  have hline : '\n' ∉ t.value.toList :=
    fun hmem => absurd (not_blank_of_isValueOf h _ hmem) (by decide)
  rw [Position.after_of_not_mem _ hline, String.length_toList]
  rfl

end Token

namespace Layout

theorem inOrder_cons {t : Token} {ts : List Token} :
    inOrder (t :: ts) = true ↔
      (∀ u ∈ ts.head?, t.precedes u = true) ∧ inOrder ts = true := by
  cases ts <;> simp [inOrder]

end Layout

/-! ### The tokens of a text are well placed -/

namespace Cut

/-- The first token of a text does not stand in front of the text. -/
theorem leadsTo_of_head_tokens (p : Position) (cs : List Char) :
    ∀ u ∈ (tokens p cs).head?, p.LeadsTo u.position := by
  fun_induction tokens p cs with
  | case1 p => simp
  | case2 p c rest hblank ih =>
      intro u hu
      exact (p.leadsTo_step c).trans (ih u hu)
  | case3 p c rest hblank ih =>
      rintro u ⟨⟩
      exact Position.LeadsTo.refl p

/-- A token comes before the first token of the text behind it. -/
theorem precedes_of_head_tokens {t : Token} {cs : List Char} (h : t.kind.EndsBefore cs) :
    ∀ u ∈ (tokens t.stop cs).head?, t.precedes u = true := by
  intro u hu
  rw [Token.precedes_iff]
  cases cs with
  | nil => simp at hu
  | cons c rest =>
      cases hblank : isBlank c with
      | true =>
          -- a blank has led on, to a later line or a later column
          rw [tokens_blank _ rest hblank] at hu
          have hlead := leadsTo_of_head_tokens _ rest u hu
          have hstop : t.stop.line = t.position.line := rfl
          simp only [Position.LeadsTo, Position.step] at hlead
          split at hlead
          · simp only [Position.nextLine, Position.nextColumn] at hlead
            omega
          · simp only [Position.nextColumn] at hlead
            omega
      | false =>
          rw [tokens_front _ rest hblank] at hu
          obtain rfl : (front c rest).1.placed t.stop = u := by simpa using hu
          have hbehind : t.kind.EndsBefore ((front c rest).1.value.toList ++ (front c rest).2) := by
            rwa [front_append]
          have hglue : t.gluesTo ((front c rest).1.placed t.stop) = false :=
            (Token.gluesTo_eq_false_iff (u := (front c rest).1.placed t.stop)
              (isValueOf_front hblank) (front c rest).2).2 hbehind
          exact Or.inr ⟨rfl, Or.inr ⟨rfl, hglue⟩⟩

/-- A token that is cut off stops where its value ends. -/
theorem after_value_front {c : Char} {rest : List Char} (p : Position) (h : isBlank c = false) :
    p.after (front c rest).1.value.toList = ((front c rest).1.placed p).stop :=
  Token.after_value (t := (front c rest).1.placed p) (isValueOf_front h)

theorem isProper_of_mem_tokens {p : Position} (cs : List Char) (hline : 1 ≤ p.line)
    (hcolumn : 1 ≤ p.column) : ∀ t ∈ tokens p cs, t.isProper = true := by
  fun_induction tokens p cs with
  | case1 p => simp
  | case2 p c rest hblank ih =>
      have hstep : 1 ≤ (p.step c).line ∧ 1 ≤ (p.step c).column := by
        unfold Position.step
        split <;> simp only [Position.nextLine, Position.nextColumn] <;> omega
      exact ih hstep.1 hstep.2
  | case3 p c rest hblank ih =>
      have hblank : isBlank c = false := by simpa using hblank
      rw [after_value_front p hblank] at ih ⊢
      refine List.forall_mem_cons.2 ⟨?_, ih hline (Nat.le_add_right_of_le hcolumn)⟩
      exact Token.isProper_iff.2 ⟨rfl, hline, hcolumn, isValueOf_front hblank⟩

theorem inOrder_tokens (p : Position) (cs : List Char) :
    Layout.inOrder (tokens p cs) = true := by
  fun_induction tokens p cs with
  | case1 p => rfl
  | case2 p c rest hblank ih => exact ih
  | case3 p c rest hblank ih =>
      have hblank : isBlank c = false := by simpa using hblank
      rw [after_value_front p hblank] at ih ⊢
      have hrest : ((front c rest).1.placed p).kind.EndsBefore (front c rest).2 :=
        endsBefore_front c rest
      exact Layout.inOrder_cons.2 ⟨precedes_of_head_tokens hrest, ih⟩

end Cut

namespace Layout

theorem wellPlaced_iff {ts : List Token} :
    wellPlaced ts = true ↔ (∀ t ∈ ts, t.isProper = true) ∧ inOrder ts = true := by
  simp [wellPlaced]

/-- **The tokens of a text are well placed.** -/
theorem wellPlaced_tokens (cs : List Char) : wellPlaced (Cut.tokens .start cs) = true :=
  wellPlaced_iff.2 ⟨Cut.isProper_of_mem_tokens cs (Nat.le_refl 1) (Nat.le_refl 1),
    Cut.inOrder_tokens .start cs⟩

end Layout

/-! ### Well-placed tokens are those of their text -/

namespace Cut

/-- Blanks in front of a text only move its tokens. -/
theorem tokens_append_of_blank (p : Position) {blanks : List Char} (cs : List Char)
    (h : ∀ c ∈ blanks, isBlank c = true) :
    tokens p (blanks ++ cs) = tokens (p.after blanks) cs := by
  induction blanks generalizing p with
  | nil => rfl
  | cons c blanks ih =>
      obtain ⟨hc, hblanks⟩ := List.forall_mem_cons.1 h
      rw [List.cons_append, tokens_blank _ _ hc, ih _ hblanks, Position.after_cons]

/-- A lexeme that is written in front of a text that can stand there is found. -/
theorem tokens_placed_append (p : Position) {l : Lexeme} {rest : List Char}
    (hvalue : Token.isValueOf l.value.toList l.kind = true) (hrest : l.kind.EndsBefore rest) :
    tokens p (l.value.toList ++ rest) = l.placed p :: tokens (p.after l.value.toList) rest := by
  obtain ⟨first, more, hcons, hfront⟩ := front_of_isValueOf hvalue hrest
  have hblank : isBlank first = false := Token.not_blank_of_isValueOf hvalue first (by simp [hcons])
  rw [hcons, List.cons_append, tokens_front _ _ hblank, hfront, ← hcons, String.ofList_toList]

/-- A token that is written at its position is found there. -/
theorem tokens_value_append {t : Token} {rest : List Char} (ht : t.isProper = true)
    (hrest : t.kind.EndsBefore rest) :
    tokens t.position (t.value.toList ++ rest) = t :: tokens t.stop rest := by
  obtain ⟨herror, -, -, hvalue⟩ := Token.isProper_iff.1 ht
  have hplaced : t.lexeme.placed t.position = t := by
    rw [Lexeme.placed, Token.lexeme, ← herror]
  have htokens := tokens_placed_append t.position (l := t.lexeme) hvalue hrest
  rwa [hplaced, Token.lexeme, Token.after_value hvalue] at htokens

end Cut

namespace Layout

theorem leadsTo_of_precedes {t u : Token} (h : t.precedes u = true) :
    t.stop.LeadsTo u.position := by
  have hline : t.stop.line = t.position.line := rfl
  have h := Token.precedes_iff.1 h
  simp only [Position.LeadsTo]
  omega

/-- What is written behind a token can stand there. -/
theorem endsBefore_textFrom {t : Token} {ts : List Token} (hproper : ∀ u ∈ ts, u.isProper = true)
    (h : ∀ u ∈ ts.head?, t.precedes u = true) : t.kind.EndsBefore (textFrom t.stop ts) := by
  cases ts with
  | nil => simp [textFrom, Kind.EndsBefore]
  | cons u ts =>
      have hu := h u rfl
      obtain ⟨-, -, -, hvalue⟩ := Token.isProper_iff.1 (hproper u List.mem_cons_self)
      rw [textFrom]
      cases hgap : gap t.stop u.position with
      | nil =>
          -- the tokens touch, which they do not if the one takes the other in
          have hstop := eq_of_gap_eq_nil (leadsTo_of_precedes hu) hgap
          have hline : t.position.line = u.position.line := by
            rw [← hstop]
            rfl
          have hcolumn : t.stop.column = u.position.column := by rw [hstop]
          have hglue : t.gluesTo u = false := by
            rcases Token.precedes_iff.1 hu with hlt | ⟨-, hlt | ⟨-, hglue⟩⟩
            · exact absurd hline (Nat.ne_of_lt hlt)
            · exact absurd hcolumn (Nat.ne_of_lt hlt)
            · exact hglue
          exact (Token.gluesTo_eq_false_iff hvalue _).1 hglue
      | cons c more =>
          have hblank : isBlank c = true := isBlank_of_mem_gap (hgap ▸ List.mem_cons_self)
          have hequals : c ≠ '=' := by
            rintro rfl
            exact absurd hblank (by decide)
          simp [Kind.EndsBefore, hblank, hequals]

/-- What is written behind a position has the tokens that it was written for. -/
theorem tokens_textFrom {p : Position} {ts : List Token} (hproper : ∀ t ∈ ts, t.isProper = true)
    (horder : inOrder ts = true) (hfirst : ∀ t ∈ ts.head?, p.LeadsTo t.position) :
    Cut.tokens p (textFrom p ts) = ts := by
  induction ts generalizing p with
  | nil => rw [textFrom, Cut.tokens_nil]
  | cons t ts ih =>
      obtain ⟨ht, hproper⟩ := List.forall_mem_cons.1 hproper
      obtain ⟨hnext, horder⟩ := inOrder_cons.1 horder
      have hcolumn : 1 ≤ t.position.column := (Token.isProper_iff.1 ht).2.2.1
      have hrest : Cut.tokens t.stop (textFrom t.stop ts) = ts := by
        refine ih hproper horder ?_
        intro u hu
        exact leadsTo_of_precedes (hnext u hu)
      calc Cut.tokens p (textFrom p (t :: ts))
        _ = Cut.tokens p (gap p t.position ++ (t.value.toList ++ textFrom t.stop ts)) := by
          rw [textFrom, List.append_assoc]
        _ = Cut.tokens t.position (t.value.toList ++ textFrom t.stop ts) := by
          rw [Cut.tokens_append_of_blank _ _ fun c => isBlank_of_mem_gap,
            after_gap (hfirst t rfl) hcolumn]
        _ = t :: Cut.tokens t.stop (textFrom t.stop ts) :=
          Cut.tokens_value_append ht (endsBefore_textFrom hproper hnext)
        _ = t :: ts := by rw [hrest]

/-- **Well-placed tokens are those of the text that is written for them.** -/
theorem tokens_text {ts : List Token} (h : wellPlaced ts = true) :
    Cut.tokens .start (text ts) = ts := by
  obtain ⟨hproper, horder⟩ := wellPlaced_iff.1 h
  refine tokens_textFrom hproper horder ?_
  intro t ht
  obtain ⟨-, hline, hcolumn, -⟩ := Token.isProper_iff.1 (hproper t (List.mem_of_mem_head? ht))
  simp only [Position.LeadsTo, Position.start]
  omega

end Layout

/-! ### Token lists of sources -/

namespace Layout

/-- A source that ends cleanly with the text of well-placed tokens has these tokens. -/
theorem source_tokens_text {ts : List Token} (h : wellPlaced ts = true) {events : Script}
    (hclean : events.ending = .clean) (hbytes : events.bytes = Utf8.encode (text ts)) :
    (Source.ofScript events).tokens = .ok ts := by
  have htokens : (Source.ofScript events).tokens = .ok (Cut.tokens .start (Utf8.decode _)) :=
    Source.tokens_of_clean hclean
  rw [htokens, Source.bytes_ofScript, hbytes, Utf8.decode_encode, tokens_text h]

/-- **The token lists of the sources that end cleanly are exactly the well-placed ones**, and each
of them is found again in the text that is written for it.  A list with a token of kind `unknown` is
not well placed, and no source has it. -/
theorem wellPlaced_iff_exists_source :
    (∀ events : Script, events.ending = .clean →
      ∃ ts, (Source.ofScript events).tokens = .ok ts ∧ wellPlaced ts = true) ∧
    (∀ ts, wellPlaced ts = true → ∀ events : Script, events.ending = .clean →
      events.bytes = Utf8.encode (text ts) → (Source.ofScript events).tokens = .ok ts) ∧
    (∀ ts, wellPlaced ts = true ↔
      ∃ events : Script, events.ending = .clean ∧ (Source.ofScript events).tokens = .ok ts) := by
  have hforward : ∀ events : Script, events.ending = .clean →
      ∃ ts, (Source.ofScript events).tokens = .ok ts ∧ wellPlaced ts = true := by
    intro events hclean
    exact ⟨_, Source.tokens_of_clean hclean, wellPlaced_tokens _⟩
  refine ⟨hforward, ?_, ?_⟩
  · intro ts h events hclean hbytes
    exact source_tokens_text h hclean hbytes
  · intro ts
    constructor
    · intro h
      have hclean : Script.ending [.bytes (Utf8.encode (text ts))] = .clean := by
        cases Utf8.encode (text ts) <;> rfl
      exact ⟨_, hclean, source_tokens_text h hclean (Script.bytes_singleton _)⟩
    · rintro ⟨events, hclean, htokens⟩
      obtain ⟨ts', htokens', h⟩ := hforward events hclean
      obtain rfl : ts = ts' := Except.ok.inj (htokens.symm.trans htokens')
      exact h

/-- Symbols that touch each other and words, a word with an equals sign and a character of two bytes
in it, and an empty line. -/
theorem wellPlaced_iff_exists_source_of_touching :
    let ts : List Token := [
      { kind := .equality, position := ⟨1, 1⟩, value := "==" },
      { kind := .assignment, position := ⟨1, 3⟩, value := "=" },
      { kind := .operator, position := ⟨1, 4⟩, value := "+" },
      { kind := .identifier, position := ⟨1, 5⟩, value := "a=é" },
      { kind := .operator, position := ⟨1, 9⟩, value := "+" },
      { kind := .assignment, position := ⟨3, 2⟩, value := "=" },
      { kind := .identifier, position := ⟨3, 3⟩, value := "b" }]
    let events : Script := [.bytes [0x3d, 0x3d, 0x3d, 0x2b, 0x61, 0x3d, 0xc3],
      .fault (.ofKind .interrupted), .bytes [0xa9, 0x20, 0x2b, 0x0a, 0x0a, 0x20, 0x3d, 0x62]]
    events.ending = .clean ∧ wellPlaced ts = true ∧ events.bytes = Utf8.encode (text ts) ∧
      (Source.ofScript events).tokens = .ok ts ∧
      (∃ ts', (Source.ofScript events).tokens = .ok ts' ∧ wellPlaced ts' = true) ∧
      (∃ events' : Script, events'.ending = .clean ∧
        (Source.ofScript events').tokens = .ok ts) := by
  intro ts events
  have hclean : events.ending = .clean := rfl
  have hplaced : wellPlaced ts = true := by decide +kernel
  have hbytes : events.bytes = Utf8.encode (text ts) := by decide +kernel
  obtain ⟨hforward, htext, hiff⟩ := wellPlaced_iff_exists_source
  exact ⟨hclean, hplaced, hbytes, htext ts hplaced events hclean hbytes, hforward events hclean,
    (hiff ts).1 hplaced⟩

end Layout

end TokenStream
