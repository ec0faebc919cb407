/-
A scanner finds the tokens of its text.

The scanner reads a source byte by byte, looks one character ahead, hands bytes back, and carries
its state from one token to the next.  None of that shows in what it finds: a caret that stands at a
position, before a text, finds the lexeme at the front of that text and then stands behind it, so
that **taking tokens up to the end yields `Cut.tokens` of the text**, followed by the report of the
fault if the source failed.  The report stands at the place where the text ends.

* `Caret.At` — a caret stands at a position, before a text;
* `Caret.At.advance`, `Caret.At.skipBlank`, `Caret.At.takeSymbol`, `Caret.At.takeWord` — the steps of
  a scan;
* `Caret.At.scan_nil`, `Caret.At.scan_blank`, `Caret.At.scan_front` — **one scan**, by the form of
  the text;
* `Caret.Preserved`, `Caret.Preserved.scan` — a scan destroys nothing that the operations preserve;
* `Scanner.drain_of_none`, `Scanner.drain_of_some` — taking all tokens, one at a time;
* `Caret.report?`, `Caret.At.drain` — **a whole run**;
* `Source.drain_eq`, `Source.tokens_of_clean`, `Source.tokens_of_failed` — the tokens of a source.
-/

import TokenStream.Proofs.CaretText
import TokenStream.Proofs.Cut
import TokenStream.Proofs.Position
import TokenStream.Scanner

set_option relaxedAutoImplicit false
set_option autoImplicit false

namespace TokenStream

namespace Caret

/-- The caret stands at the position `p`, before the text `cs`. -/
structure At (c : Caret) (p : Position) (cs : List Char) : Prop where
  sound : c.Sound
  position_eq : c.position = p
  text_eq : c.text = cs

theorem at_ofSource (source : Source) : (ofSource source).At .start (Utf8.decode source.bytes) :=
  ⟨sound_ofSource source, position_ofSource source, text_ofSource source⟩

variable {c : Caret} {p : Position} {char : Char} {cs : List Char}

/-! ### The steps of a scan -/

theorem At.current_eq (h : c.At p cs) : c.current = cs.head? := by
  rw [← h.text_eq, h.sound.head?_text]

theorem At.advance (h : c.At p (char :: cs)) : c.advance.At p.nextColumn cs := by
  have hc : c.current = some char := h.current_eq
  refine ⟨h.sound.advance, ?_, ?_⟩
  · rw [position_advance hc, h.position_eq]
  · rw [h.sound.text_advance, h.text_eq, List.tail_cons]

theorem At.lookAhead (h : c.At p cs) :
    c.lookAhead.1 = cs.tail.head? ∧ c.lookAhead.2.At p cs := by
  refine ⟨?_, h.sound.lookAhead, ?_, ?_⟩
  · rw [h.sound.fst_lookAhead, h.text_eq]
  · rw [position_lookAhead, h.position_eq]
  · rw [text_lookAhead, h.text_eq]

theorem At.breakLine (h : c.At p cs) : c.breakLine.At p.nextLine cs :=
  ⟨h.sound.breakLine, congrArg Position.nextLine h.position_eq, h.text_eq⟩

/-- Moving over a blank. -/
def skipBlank (c : Caret) (char : Char) : Caret :=
  if char = '\n' then c.breakLine.advance else c.advance

theorem At.skipBlank (h : c.At p (char :: cs)) : (c.skipBlank char).At (p.step char) cs := by
  by_cases hline : char = '\n'
  · rw [Caret.skipBlank, if_pos hline, Position.step, if_pos hline]
    exact h.breakLine.advance
  · rw [Caret.skipBlank, if_neg hline, Position.step, if_neg hline]
    exact h.advance

theorem skipBlanks_of_blank (hc : c.current = some char) (hblank : isBlank char = true) :
    c.skipBlanks = (c.skipBlank char).skipBlanks := by
  rw [skipBlanks, skipBlank]
  split
  · rename_i hnone
    simp [hc] at hnone
  · rename_i char' hsome
    obtain rfl : char = char' := by simpa [hc] using hsome
    split
    · rfl
    · rename_i hline
      rw [if_pos ((isBlank_iff_of_ne hline).1 hblank)]

theorem skipBlanks_of_not_blank (h : ∀ char ∈ c.current, isBlank char = false) :
    c.skipBlanks = c := by
  rw [skipBlanks]
  split
  · rfl
  · rename_i char hsome
    have hblank : isBlank char = false := h char hsome
    have hline : char ≠ '\n' := fun hline => by simp [isBlank, hline] at hblank
    rw [if_neg hline, if_neg (by rw [← isBlank_iff_of_ne hline]; simp [hblank])]

theorem wordOnto_of_char (taken : String) (hc : c.current = some char)
    (hblank : isBlank char = false) : wordOnto taken c = wordOnto (taken.push char) c.advance := by
  rw [wordOnto.eq_def]
  split
  · rename_i hnone
    simp [hc] at hnone
  · rename_i char' hsome
    obtain rfl : char = char' := by simpa [hc] using hsome
    rw [if_neg (by simp [hblank])]

theorem wordOnto_of_end (taken : String) (h : ∀ char ∈ c.current, isBlank char = true) :
    wordOnto taken c = (taken, c) := by
  rw [wordOnto.eq_def]
  split
  · rfl
  · rename_i char hsome
    rw [if_pos (h char hsome)]

/-- Moving over a character that is no blank. -/
theorem At.advance_of_not_blank (h : c.At p (char :: cs)) (hblank : isBlank char = false) :
    c.advance.At (p.step char) cs := by
  rw [Position.step_of_not_blank p hblank]
  exact h.advance

/-- Taking a symbol cuts it off the text. -/
theorem At.takeSymbol {kind : Kind} (h : c.At p (char :: cs))
    (hkind : Kind.ofSymbol? char = some kind) :
    (c.takeSymbol char kind).1 = (Cut.symbol char kind cs).1.placed p ∧
      (c.takeSymbol char kind).2.At (p.after (Cut.symbol char kind cs).1.value.toList)
        (Cut.symbol char kind cs).2 := by
  have hblank := isBlank_of_ofSymbol? hkind
  rcases hahead : c.lookAhead with ⟨second?, c'⟩
  obtain ⟨hsecond, hat⟩ := h.lookAhead
  rw [hahead] at hsecond hat
  rw [Caret.takeSymbol, hahead, ← h.position_eq]
  cases cs with
  | nil =>
      obtain rfl : second? = none := hsecond
      exact ⟨rfl, by simpa [Cut.symbol, h.position_eq] using hat.advance_of_not_blank hblank⟩
  | cons second rest =>
      obtain rfl : second? = some second := hsecond
      cases hpair : Kind.ofPair? char second with
      | none =>
          simp only [Cut.symbol, Option.bind_some, hpair]
          exact ⟨rfl, by simpa [h.position_eq] using hat.advance_of_not_blank hblank⟩
      | some pairKind =>
          -- the second character of a pair is a symbol too, and so no blank
          obtain ⟨rfl, rfl, rfl⟩ := Kind.ofPair?_eq_some_iff.1 hpair
          have hboth := (hat.advance_of_not_blank hblank).advance_of_not_blank rfl
          simp only [Cut.symbol, Option.bind_some, hpair]
          exact ⟨rfl, by simpa [h.position_eq] using hboth⟩

/-- Taking a word takes the characters up to the next blank. -/
theorem At.wordOnto (taken : String) (h : c.At p cs) :
    (wordOnto taken c).1 = taken ++ String.ofList (cs.takeWhile (!isBlank ·)) ∧
      (wordOnto taken c).2.At (p.after (cs.takeWhile (!isBlank ·)))
        (cs.dropWhile (!isBlank ·)) := by
  fun_induction Caret.wordOnto taken c generalizing p cs with
  | case1 taken c hc =>
      obtain rfl : cs = [] := List.head?_eq_none_iff.1 (h.current_eq.symm.trans hc)
      exact ⟨by simp, h⟩
  | case2 taken c char hc hblank =>
      obtain ⟨rest, rfl⟩ := List.head?_eq_some_iff.1 (h.current_eq.symm.trans hc)
      simp only [List.takeWhile_cons, List.dropWhile_cons, hblank]
      exact ⟨by simp, h⟩
  | case3 taken c char hc hblank ih =>
      obtain ⟨rest, rfl⟩ := List.head?_eq_some_iff.1 (h.current_eq.symm.trans hc)
      obtain ⟨hvalue, hat⟩ := ih (h.advance_of_not_blank (by simpa using hblank))
      simp only [List.takeWhile_cons, List.dropWhile_cons, hblank]
      refine ⟨?_, hat⟩
      rw [hvalue, ← String.toList_inj]
      simp

theorem At.takeWord (h : c.At p (char :: cs)) (hblank : isBlank char = false) :
    c.takeWord.1 = Lexeme.placed
        ⟨.identifier, String.ofList (char :: cs.takeWhile (!isBlank ·))⟩ p ∧
      c.takeWord.2.At (p.after (char :: cs.takeWhile (!isBlank ·)))
        (cs.dropWhile (!isBlank ·)) := by
  obtain ⟨hvalue, hat⟩ := h.wordOnto ""
  simp only [List.takeWhile_cons, List.dropWhile_cons, hblank] at hvalue hat
  have htoken : c.takeWord.1 = Lexeme.placed ⟨.identifier, (Caret.wordOnto "" c).1⟩ c.position := rfl
  refine ⟨?_, hat⟩
  rw [htoken, hvalue, h.position_eq]
  simp

/-! ### One scan -/

/-- Where the text ends, a scan reports the fault. -/
theorem At.scan_nil (h : c.At p []) : c.scan = c.failure? := by
  have hc : c.current = none := h.current_eq
  rw [scan, skipBlanks_of_not_blank (by simp [hc]), tokenHere, hc]

/-- A blank in front makes no difference to a scan. -/
theorem At.scan_blank (h : c.At p (char :: cs)) (hblank : isBlank char = true) :
    c.scan = (c.skipBlank char).scan := by
  rw [scan, scan, skipBlanks_of_blank h.current_eq hblank]

/-- A scan cuts the lexeme in front off the text. -/
theorem At.scan_front (h : c.At p (char :: cs)) (hblank : isBlank char = false) :
    c.scan.1 = some ((Cut.front char cs).1.placed p) ∧
      c.scan.2.At (p.after (Cut.front char cs).1.value.toList) (Cut.front char cs).2 := by
  have hc : c.current = some char := h.current_eq
  rw [scan, skipBlanks_of_not_blank (by simp [hc, hblank]), tokenHere, Cut.front]
  cases hkind : Kind.ofSymbol? char with
  | some kind =>
      obtain ⟨htoken, hat⟩ := h.takeSymbol hkind
      simp only [hc, hkind]
      exact ⟨congrArg some htoken, hat⟩
  | none =>
      obtain ⟨htoken, hat⟩ := h.takeWord hblank
      simp only [hc, hkind]
      exact ⟨congrArg some htoken, by simpa using hat⟩

/-! ### What a scan preserves -/

/-- A property that no operation destroys. -/
structure Preserved (P : Caret → Prop) : Prop where
  advance {c : Caret} : P c → P c.advance
  lookAhead {c : Caret} : P c → P c.lookAhead.2
  breakLine {c : Caret} : P c → P c.breakLine
  takeFault {c : Caret} : P c → P c.takeFault.2

variable {P : Caret → Prop}

/-- The operations of a caret are made of reads and of moves of its position, for a property that
does not look at what the caret shows and at what it has reported. -/
theorem Preserved.of_read (hread : ∀ {c}, P c → P c.read.2)
    (hcolumn : ∀ {c}, P c → P c.nextColumn) (hline : ∀ {c}, P c → P c.breakLine)
    (hview : ∀ {c : Caret} (current ahead reported), P c → P { c with current, ahead, reported }) :
    Preserved P where
  advance {c} hc := by
    cases ha : c.ahead with
    | some char? =>
        simp only [Caret.advance, ha]
        exact hview _ _ c.nextColumn.reported (hcolumn hc)
    | none =>
        simp only [Caret.advance, ha]
        exact hview _ c.nextColumn.read.2.ahead c.nextColumn.read.2.reported (hread (hcolumn hc))
  lookAhead {c} hc := by
    cases ha : c.ahead with
    | some char? =>
        simp only [Caret.lookAhead, ha]
        exact hc
    | none =>
        simp only [Caret.lookAhead, ha]
        exact hview c.read.2.current _ c.read.2.reported (hread hc)
  breakLine hc := hline hc
  takeFault {c} hc := by
    rw [takeFault_eq]
    exact hview c.current c.ahead _ hc

theorem Preserved.skipBlanks (hP : Preserved P) (hc : P c) : P c.skipBlanks := by
  fun_induction Caret.skipBlanks c with
  | case1 c hnone => exact hc
  | case2 c hline ih => exact ih (hP.advance (hP.breakLine hc))
  | case3 c char hchar hline hspace ih => exact ih (hP.advance hc)
  | case4 c char hchar hline hspace => exact hc

theorem Preserved.takeSymbol (hP : Preserved P) (first : Char) (kind : Kind) (hc : P c) :
    P (c.takeSymbol first kind).2 := by
  have hseen := hP.lookAhead hc
  unfold Caret.takeSymbol
  split
  rename_i second? c' hahead
  rw [hahead] at hseen
  split
  · exact hP.advance (hP.advance hseen)
  · exact hP.advance hseen

theorem Preserved.wordOnto (hP : Preserved P) (taken : String) (hc : P c) :
    P (Caret.wordOnto taken c).2 := by
  fun_induction Caret.wordOnto taken c with
  | case1 taken c hnone => exact hc
  | case2 taken c char hchar hblank => exact hc
  | case3 taken c char hchar hblank ih => exact ih (hP.advance hc)

theorem Preserved.tokenHere (hP : Preserved P) (hc : P c) : P c.tokenHere.2 := by
  unfold Caret.tokenHere
  split
  · exact hP.takeFault hc
  · split
    · exact hP.takeSymbol _ _ hc
    · exact hP.wordOnto "" hc

/-- What the operations preserve, a scan preserves. -/
theorem Preserved.scan (hP : Preserved P) (hc : P c) : P c.scan.2 :=
  hP.tokenHere (hP.skipBlanks hc)

theorem preserved_ending (e : Ending) : Preserved (·.ending = e) where
  advance h := (ending_advance _).trans h
  lookAhead h := (ending_lookAhead _).trans h
  breakLine h := (ending_breakLine _).trans h
  takeFault h := (ending_takeFault _).trans h

@[simp] theorem ending_scan (c : Caret) : c.scan.2.ending = c.ending :=
  (preserved_ending c.ending).scan rfl

/-- Only the report of a fault, at the end of the text, is noted. -/
theorem At.reported_scan (h : c.At p (char :: cs)) (hblank : isBlank char = false) :
    c.scan.2.reported = c.reported := by
  have hc : c.current = some char := h.current_eq
  rw [scan, skipBlanks_of_not_blank (by simp [hc, hblank]), tokenHere]
  cases hkind : Kind.ofSymbol? char with
  | some kind =>
      simp only [hc, hkind]
      exact reported_takeSymbol c char kind
  | none =>
      simp only [hc, hkind]
      exact reported_takeWord c

/-! ### The report of a fault -/

/-- What a caret that has come to the end of its text at `p` has to report. -/
def report? (c : Caret) (p : Position) : Option Token :=
  if c.reported then none else c.ending.fault?.map fun cause => .failure cause.message p

theorem report?_skipBlank (c : Caret) (char : Char) : (c.skipBlank char).report? = c.report? := by
  funext p
  by_cases hline : char = '\n' <;> simp [Caret.skipBlank, report?, hline]

theorem At.report?_scan (h : c.At p (char :: cs)) (hblank : isBlank char = false) :
    c.scan.2.report? = c.report? := by
  funext q
  rw [report?, report?, ending_scan, h.reported_scan hblank]

theorem At.takeFault (h : c.At p cs) : c.takeFault.2.At p cs :=
  ⟨h.sound.takeFault, (position_takeFault c).trans h.position_eq,
    (text_takeFault c).trans h.text_eq⟩

/-- At the end of the text the report is made, and not a second time. -/
theorem At.failure?_spec (h : c.At p []) :
    c.failure?.1 = c.report? p ∧ c.failure?.2.At p [] ∧ c.failure?.2.report? p = none := by
  have hfault := h.sound.fault?_of_text_nil h.text_eq
  have hfst : c.failure?.1 = c.takeFault.1.map fun cause => .failure cause.message c.position := rfl
  have hsnd : c.failure?.2 = c.takeFault.2 := rfl
  rw [hfst, hsnd]
  refine ⟨?_, h.takeFault, ?_⟩
  · rw [takeFault_eq, report?, hfault, h.position_eq]
    cases c.reported <;> rfl
  · rw [report?, ending_takeFault, takeFault_eq, hfault]
    cases c.reported <;> cases c.ending.fault? <;> rfl

end Caret

/-! ### Taking all tokens -/

namespace Scanner

theorem drainOnto_of_none {s s' : Scanner} (taken : Array Token) (h : s.next? = (none, s')) :
    drainOnto taken s = (taken, s') := by
  rw [drainOnto.eq_def]
  split <;> simp_all

theorem drainOnto_of_some {s s' : Scanner} {t : Token} (taken : Array Token)
    (h : s.next? = (some t, s')) : drainOnto taken s = drainOnto (taken.push t) s' := by
  rw [drainOnto.eq_def]
  split <;> simp_all

/-- The tokens that were taken before stay in front. -/
theorem drainOnto_append (before taken : Array Token) (s : Scanner) :
    drainOnto (before ++ taken) s = (before ++ (drainOnto taken s).1, (drainOnto taken s).2) := by
  fun_induction drainOnto taken s with
  | case1 taken s s' h => exact drainOnto_of_none _ h
  | case2 taken s t s' h ih => rw [drainOnto_of_some _ h, ← Array.append_push, ih]

theorem drain_of_none {s s' : Scanner} (h : s.next? = (none, s')) : s.drain = ([], s') := by
  rw [drain, drainOnto_of_none _ h]
  rfl

theorem drain_of_some {s s' : Scanner} {t : Token} (h : s.next? = (some t, s')) :
    s.drain = (t :: s'.drain.1, s'.drain.2) := by
  have happend := drainOnto_append #[t] #[] s'
  rw [drain, drainOnto_of_some _ h]
  simp only [List.push_toArray, List.nil_append, Array.append_empty] at happend ⊢
  rw [happend]
  simp [drain]

/-- A scanner that holds no token takes the next one from its caret. -/
theorem next?_of_scan (c : Caret) :
    next? ⟨c, none⟩ = (c.scan.1.filter (!·.isEnd), ⟨c.scan.2, none⟩) := by
  rcases hscan : c.scan with ⟨token?, c'⟩
  cases token? with
  | none => simp [next?, take, fetch, hscan]
  | some t => cases hend : t.isEnd <;> simp [next?, take, fetch, hscan, hend, Option.filter]

theorem drain_of_scan_none {c : Caret} (h : c.scan.1 = none) :
    drain ⟨c, none⟩ = ([], ⟨c.scan.2, none⟩) :=
  drain_of_none (by rw [next?_of_scan, h]; rfl)

theorem drain_of_scan_some {c : Caret} {t : Token} (h : c.scan.1 = some t)
    (hend : t.isEnd = false) :
    drain ⟨c, none⟩ = (t :: (drain ⟨c.scan.2, none⟩).1, (drain ⟨c.scan.2, none⟩).2) :=
  drain_of_some (by rw [next?_of_scan, h]; simp [hend])

/-- What is taken from a scanner depends only on its next token. -/
theorem drain_congr {s t : Scanner} (h : s.next? = t.next?) : s.drain = t.drain := by
  rcases hnext : t.next? with ⟨token?, t'⟩
  rw [hnext] at h
  cases token? with
  | none => rw [drain_of_none h, drain_of_none hnext]
  | some token => rw [drain_of_some h, drain_of_some hnext]

end Scanner

/-! ### Whole runs -/

/-- At the end of a text, with nothing to report, nothing is found. -/
theorem Caret.At.scan_done {c : Caret} {p : Position} (h : c.At p [])
    (hreport : c.report? p = none) :
    c.scan.1 = none ∧ c.scan.2.At p [] ∧ c.scan.2.report? p = none := by
  obtain ⟨hfst, hat, hdone⟩ := h.failure?_spec
  rw [h.scan_nil]
  exact ⟨hfst.trans hreport, hat, hdone⟩

theorem Caret.At.drain_nil {c : Caret} {p : Position} (h : c.At p []) :
    (Scanner.drain ⟨c, none⟩).1 = (c.report? p).toList ∧
      ∃ c' : Caret, (Scanner.drain ⟨c, none⟩).2 = ⟨c', none⟩ ∧ c'.At p [] ∧
        c'.report? p = none := by
  obtain ⟨hfst, hat, hdone⟩ := h.failure?_spec
  rw [← h.scan_nil] at hfst hat hdone
  cases hreport : c.report? p with
  | none =>
      rw [Scanner.drain_of_scan_none (hfst.trans hreport)]
      exact ⟨rfl, c.scan.2, rfl, hat, hdone⟩
  | some t =>
      -- the report counts as a token, and the scan behind it finds nothing
      obtain ⟨hnone, hat', hdone'⟩ := hat.scan_done hdone
      have hend : t.isEnd = false := by
        simp only [report?] at hreport
        split at hreport
        · simp at hreport
        · obtain ⟨cause, -, rfl⟩ := Option.map_eq_some_iff.1 hreport
          exact Token.isEnd_failure _ _
      rw [Scanner.drain_of_scan_some (hfst.trans hreport) hend, Scanner.drain_of_scan_none hnone]
      exact ⟨rfl, c.scan.2.scan.2, rfl, hat', hdone'⟩

/-- **A run takes the tokens of the text, and then the report of the fault.** -/
theorem Caret.At.drain {c : Caret} {p : Position} {cs : List Char} (h : c.At p cs) :
    (Scanner.drain ⟨c, none⟩).1 = Cut.tokens p cs ++ (c.report? (p.after cs)).toList ∧
      ∃ c' : Caret, (Scanner.drain ⟨c, none⟩).2 = ⟨c', none⟩ ∧ c'.At (p.after cs) [] ∧
        c'.report? (p.after cs) = none := by
  -- on the text, in the steps of `Cut.tokens`: a blank is skipped by the scan that finds what
  -- stands behind it, and a lexeme is what a scan finds
  fun_induction Cut.tokens p cs generalizing c with
  | case1 p => exact h.drain_nil
  | case2 p char rest hblank ih =>
      have hscan : Scanner.next? ⟨c, none⟩ = Scanner.next? ⟨c.skipBlank char, none⟩ := by
        rw [Scanner.next?_of_scan, Scanner.next?_of_scan, h.scan_blank hblank]
      rw [Scanner.drain_congr hscan, ← report?_skipBlank c char]
      exact ih h.skipBlank
  | case3 p char rest hblank ih =>
      have hblank : isBlank char = false := by simpa using hblank
      have hend : ((Cut.front char rest).1.placed p).isEnd = false := by
        simpa using Cut.kind_front_ne_unknown char rest
      have hafter : p.after (char :: rest) =
          (p.after (Cut.front char rest).1.value.toList).after (Cut.front char rest).2 := by
        rw [← Position.after_append, Cut.front_append]
      obtain ⟨hfst, hat⟩ := h.scan_front hblank
      obtain ⟨htokens, c', hc'⟩ := ih hat
      rw [Scanner.drain_of_scan_some hfst hend, hafter, ← h.report?_scan hblank]
      exact ⟨congrArg _ htokens, c', hc'⟩

namespace Source

/-- All that a scanner yields: the tokens of the text, and the report of the fault. -/
theorem drain_eq (s : Source) :
    (Scanner.ofSource s).drain.1 =
      Cut.tokens .start (Utf8.decode s.bytes) ++
        (s.ending.fault?.map fun cause =>
          .failure cause.message (Position.start.after (Utf8.decode s.bytes))).toList := by
  have hreport : (Caret.ofSource s).report? = fun p =>
      s.ending.fault?.map fun cause => .failure cause.message p := by
    funext p
    simp [Caret.report?]
  have hdrain := (Caret.at_ofSource s).drain.1
  rwa [hreport] at hdrain

/-- A scanner that has yielded all yields nothing more. -/
theorem next?_drain (s : Source) : (Scanner.ofSource s).drain.2.next?.1 = none := by
  obtain ⟨c', hc', hat, hdone⟩ := (Caret.at_ofSource s).drain.2
  rw [Scanner.ofSource, hc', Scanner.next?_of_scan, (hat.scan_done hdone).1]
  rfl

/-- The tokens of a source that ends cleanly are those of its text. -/
theorem tokens_of_clean {s : Source} (h : s.ending = .clean) :
    s.tokens = .ok (Cut.tokens .start (Utf8.decode s.bytes)) := by
  rw [tokens, drain_eq, h]
  simpa [Ending.fault?] using Cut.mapM_check_tokens _ _

/-- A source that fails has the error that its report carries instead. -/
theorem tokens_of_failed {s : Source} {cause : Fault} (h : s.ending = .failed cause) :
    s.tokens =
      .error ⟨.sourceRead cause.message, Position.start.after (Utf8.decode s.bytes)⟩ := by
  rw [tokens, drain_eq, h, List.mapM_append, Cut.mapM_check_tokens]
  rfl

end Source

end TokenStream
