/-
Printing while reading is printing after reading.

What is done before a source comes to its end does not depend on what it would be read from
afterwards.  **As long as the script has not been played to its end, an operation does the same when
the script goes on**, and leaves the same state with more to play; that is one lemma for each
operation, from a refill up to a turn of a run.  A run that pauses whenever it comes to the end of
the reads made so far has therefore done nothing that the run over the whole script does not do, and
it does the rest after the last read.

* `Source.refill_append`, `Source.next_extend`, `CharStream.next_extend` — reading with more behind;
* `Caret.read_extend`, `Caret.advance_extend`, `Caret.lookAhead_extend` — the operations of a caret;
* `Caret.scan_extend`, `Scanner.next?_extend` — a scan, and taking a token;
* `Invocation.turn_extend`, `Invocation.performOnto_resumeOnto` — **a turn, and turns up to a
  pause**;
* `Pause.stream_eq`, `Invocation.streamed_eq` — **a run that is given its reads one by one**.
-/

import TokenStream.Command.Streaming
import TokenStream.Proofs.Printing

set_option relaxedAutoImplicit false
set_option autoImplicit false

namespace TokenStream

/-! ### Bytes -/

namespace Supply

@[simp] theorem extend_nil (s : Supply) : s.extend [] = s := by
  cases s with
  | script events => exact congrArg script (List.append_nil events)
  | ended ending => rfl

@[simp] theorem extend_extend (s : Supply) (more more' : Script) :
    (s.extend more).extend more' = s.extend (more ++ more') := by
  cases s with
  | script events => exact congrArg script (List.append_assoc events more more')
  | ended ending => rfl

end Supply

namespace Source

variable {s : Source} (more : Script)

theorem leftOver_append (bs : List UInt8) (events : Script) :
    leftOver bs (events ++ more) = leftOver bs events ++ more := by
  unfold leftOver
  split <;> rfl

/-- A refill that finds bytes finds them in front of whatever the script goes on with. -/
theorem refill_append {reads : Nat} {events : Script} (h : (refill reads events).isEnded = false) :
    refill reads (events ++ more) = (refill reads events).extend more := by
  fun_induction refill reads events with
  | case1 reads => cases h
  | case2 reads events => cases h
  | case4 reads events => cases h
  | case3 reads b bs events =>
      rw [List.cons_append, refill, leftOver_append]
      rfl
  | case5 reads cause events hcause ih =>
      rw [List.cons_append, refill, if_pos hcause]
      exact ih h
  | case6 reads cause events hcause => cases h

theorem filled_extend (h : s.filled.isEnded = false) :
    (s.extend more).filled = s.filled.extend more := by
  obtain ⟨buffer, supply, reads⟩ := s
  cases buffer with
  | cons b bs => rfl
  | nil =>
      cases supply with
      | script events => exact refill_append more h
      | ended ending => rfl

theorem next_extend (h : s.next.2.isEnded = false) :
    (s.extend more).next = s.next.map id (·.extend more) := by
  have hfilled : s.filled.isEnded = false := by
    rw [next] at h
    split at h
    · rename_i b rest supply reads hfilled
      rw [hfilled]
      exact h
    · exact h
  rw [next, next, filled_extend more hfilled]
  obtain ⟨buffer, supply, reads⟩ := s.filled
  cases buffer <;> rfl

@[simp] theorem fault?_extend (s : Source) : (s.extend more).fault? = s.fault? := by
  obtain ⟨buffer, supply, reads⟩ := s
  cases supply <;> rfl

end Source

/-! ### Characters -/

namespace CharStream

variable {s : CharStream} (more : Script)

theorem nextByte_extend (h : s.nextByte.2.source.isEnded = false) :
    (s.extend more).nextByte = s.nextByte.map id (·.extend more) := by
  obtain ⟨pending, source⟩ := s
  cases pending with
  | cons b rest => rfl
  | nil =>
      rw [extend, nextByte, nextByte, Source.next_extend more h]
      rfl

theorem isEnded_of_takeBytes (k : Nat) (h : (s.takeBytes k).2.source.isEnded = false) :
    s.source.isEnded = false := by
  rw [isEnded_source_takeBytes, Bool.or_eq_false_iff] at h
  exact h.1

theorem takeBytes_extend (k : Nat) (h : (s.takeBytes k).2.source.isEnded = false) :
    (s.extend more).takeBytes k = (s.takeBytes k).map id (·.extend more) := by
  induction k generalizing s with
  | zero => rfl
  | succ k ih =>
      have hstep := nextByte_extend (s := s) more
      rcases hbyte : s.nextByte with ⟨b?, s'⟩
      rw [hbyte] at hstep
      rw [takeBytes, hbyte] at h
      rw [takeBytes, takeBytes, hbyte]
      cases b? with
      | none => rw [hstep h]; rfl
      | some b =>
          rw [hstep (isEnded_of_takeBytes k h)]
          exact congrArg (Prod.map (b :: ·) id) (ih h)

theorem nextFrom_extend (first : UInt8) (h : (nextFrom first s).2.source.isEnded = false) :
    nextFrom first (s.extend more) = (nextFrom first s).map id (·.extend more) := by
  have htaken : (s.takeBytes (Utf8.width first - 1)).2.source.isEnded = false := by
    rw [← source_nextFrom]
    exact h
  rw [nextFrom, nextFrom, takeBytes_extend more _ htaken]
  rcases s.takeBytes (Utf8.width first - 1) with ⟨taken, s'⟩
  simp only [Prod.map, id]
  cases Utf8.char? (first :: taken) with
  | some c => rfl
  | none => rfl

/-- **A character that is found before the end is found in a script that goes on.** -/
theorem next_extend (h : s.next.2.source.isEnded = false) :
    (s.extend more).next = s.next.map id (·.extend more) := by
  have hstep := nextByte_extend (s := s) more
  rcases hbyte : s.nextByte with ⟨first?, s'⟩
  rw [hbyte] at hstep
  rw [next, hbyte] at h
  rw [next, next, hbyte]
  cases first? with
  | none => rw [hstep h]; rfl
  | some first =>
      have htaken : (s'.takeBytes (Utf8.width first - 1)).2.source.isEnded = false := by
        rw [← source_nextFrom]
        exact h
      rw [hstep (isEnded_of_takeBytes _ htaken)]
      exact congrArg (Prod.map some id) (nextFrom_extend more first h)

end CharStream

/-! ### Carets -/

namespace Caret

variable {c c' : Caret} (more : Script)

/-- A caret that has come to the end of its source stays there. -/
theorem preserved_isEnded : Preserved (·.isEnded = true) :=
  preserved_source (Q := (·.isEnded = true)) fun s h => by rw [Source.isEnded_next, h]; rfl

/-- A caret that is not at the end was not there before, if it would have stayed. -/
theorem isEnded_before (h : c.isEnded = true → c'.isEnded = true) (hopen : c'.isEnded = false) :
    c.isEnded = false :=
  Bool.eq_false_iff.2 fun hended => Bool.eq_false_iff.1 hopen (h hended)

@[simp] theorem fault?_extend (c : Caret) :
    (c.extend more).input.source.fault? = c.input.source.fault? :=
  Source.fault?_extend more c.input.source

@[simp] theorem current_extend (c : Caret) : (c.extend more).current = c.current := rfl

@[simp] theorem ahead_extend (c : Caret) : (c.extend more).ahead = c.ahead := rfl

@[simp] theorem reported_extend (c : Caret) : (c.extend more).reported = c.reported := rfl

theorem nextColumn_extend (c : Caret) : (c.extend more).nextColumn = c.nextColumn.extend more := by
  unfold nextColumn
  rw [current_extend]
  split <;> rfl

theorem read_extend (h : c.read.2.isEnded = false) :
    (c.extend more).read = c.read.map id (·.extend more) := by
  have hnext := CharStream.next_extend more h
  have hinput : (c.extend more).input = c.input.extend more := rfl
  rw [read, read, hinput, hnext]
  simp only [Prod.map, id, CharStream.extend, Source.fault?_extend]
  rfl

theorem advance_extend (h : c.advance.isEnded = false) :
    (c.extend more).advance = c.advance.extend more := by
  rw [advance] at h
  rw [advance, advance, ahead_extend, nextColumn_extend]
  cases ha : c.ahead with
  | some char? => rfl
  | none =>
      rw [ha] at h
      simp only at h ⊢
      rw [read_extend more h]
      rfl

theorem lookAhead_extend (h : c.lookAhead.2.isEnded = false) :
    (c.extend more).lookAhead = c.lookAhead.map id (·.extend more) := by
  rw [lookAhead] at h
  rw [lookAhead, lookAhead, ahead_extend]
  cases ha : c.ahead with
  | some char? => rfl
  | none =>
      rw [ha] at h
      simp only at h ⊢
      rw [read_extend more h]
      rfl

theorem takeFault_extend (c : Caret) :
    (c.extend more).takeFault = c.takeFault.map id (·.extend more) := by
  rw [takeFault, takeFault, reported_extend, fault?_extend]
  split <;> rfl

/-! ### One scan -/

theorem skipBlanks_extend (h : c.skipBlanks.isEnded = false) :
    (c.extend more).skipBlanks = c.skipBlanks.extend more := by
  fun_induction skipBlanks c with
  | case1 c hnone => exact skipBlanks_of_not_blank (by simp [hnone])
  | case2 c hline ih =>
      have hopen : c.breakLine.advance.isEnded = false :=
        isEnded_before preserved_isEnded.skipBlanks h
      rw [skipBlanks_of_blank (c := c.extend more) hline rfl, skipBlank, if_pos rfl, ← ih h]
      exact congrArg skipBlanks (advance_extend more hopen)
  | case3 c char hchar hline hspace ih =>
      have hopen : c.advance.isEnded = false :=
        isEnded_before preserved_isEnded.skipBlanks h
      rw [skipBlanks_of_blank (c := c.extend more) hchar ((isBlank_iff_of_ne hline).2 hspace),
        skipBlank, if_neg hline, ← ih h, advance_extend more hopen]
  | case4 c char hchar hline hspace =>
      exact skipBlanks_of_not_blank (by simpa [hchar] using not_isBlank_of_ne hline hspace)

theorem takeSymbol_extend (first : Char) (kind : Kind)
    (h : (c.takeSymbol first kind).2.isEnded = false) :
    (c.extend more).takeSymbol first kind =
      (c.takeSymbol first kind).map id (·.extend more) := by
  have hstep := lookAhead_extend (c := c) more
  rcases hahead : c.lookAhead with ⟨second?, c'⟩
  rw [hahead] at hstep
  rw [takeSymbol, hahead] at h
  rw [takeSymbol, takeSymbol, hahead]
  have hsingle : c'.advance.isEnded = false →
      (c.extend more).lookAhead = (second?, c'.extend more) ∧
        (c'.extend more).advance = c'.advance.extend more := fun hopen =>
    ⟨hstep (isEnded_before preserved_isEnded.advance hopen), advance_extend more hopen⟩
  cases second? with
  | none =>
      obtain ⟨hlook, hmove⟩ := hsingle h
      rw [hlook]
      exact Prod.ext rfl hmove
  | some second =>
      cases hpair : Kind.ofPair? first second with
      | none =>
          simp only [Option.bind_some, hpair] at h ⊢
          obtain ⟨hlook, hmove⟩ := hsingle h
          rw [hlook]
          simp only [Option.bind_some, hpair]
          exact Prod.ext rfl hmove
      | some pairKind =>
          simp only [Option.bind_some, hpair] at h ⊢
          obtain ⟨hlook, hmove⟩ := hsingle (isEnded_before preserved_isEnded.advance h)
          rw [hlook]
          simp only [Option.bind_some, hpair]
          refine Prod.ext rfl ?_
          rw [hmove]
          exact advance_extend more h

theorem wordOnto_extend (taken : String) (h : (wordOnto taken c).2.isEnded = false) :
    wordOnto taken (c.extend more) = (wordOnto taken c).map id (·.extend more) := by
  fun_induction wordOnto taken c with
  | case1 taken c hnone => exact wordOnto_of_end taken (by simp [hnone])
  | case2 taken c char hchar hblank =>
      exact wordOnto_of_end taken (by simpa [hchar] using hblank)
  | case3 taken c char hchar hblank ih =>
      have hopen : c.advance.isEnded = false :=
        isEnded_before (preserved_isEnded.wordOnto _) h
      rw [wordOnto_of_char (c := c.extend more) taken hchar (by simpa using hblank), ← ih h,
        advance_extend more hopen]

theorem tokenHere_extend (h : c.tokenHere.2.isEnded = false) :
    (c.extend more).tokenHere = c.tokenHere.map id (·.extend more) := by
  rw [tokenHere] at h
  rw [tokenHere, tokenHere, current_extend]
  cases hchar : c.current with
  | none =>
      simp only
      rw [failure?, failure?, takeFault_extend]
      rfl
  | some char =>
      rw [hchar] at h
      cases hkind : Kind.ofSymbol? char with
      | some kind =>
          simp only [hkind] at h ⊢
          rw [takeSymbol_extend more char kind h]
          rfl
      | none =>
          simp only [hkind] at h ⊢
          rw [takeWord, takeWord, wordOnto_extend more "" h]
          rfl

/-- **A scan that does not come to the end finds the same token in a script that goes on.** -/
theorem scan_extend (h : c.scan.2.isEnded = false) :
    (c.extend more).scan = c.scan.map id (·.extend more) := by
  have hopen : c.skipBlanks.isEnded = false :=
    isEnded_before preserved_isEnded.tokenHere h
  rw [scan, scan, skipBlanks_extend more hopen]
  exact tokenHere_extend more h

end Caret

/-! ### Scanners -/

namespace Scanner

variable {s : Scanner} (more : Script)

theorem fetch_extend (h : s.fetch.isEnded = false) :
    (s.extend more).fetch = s.fetch.extend more := by
  obtain ⟨caret, held⟩ := s
  cases held with
  | some t => rfl
  | none =>
      rw [extend, fetch]
      simp only
      rw [Caret.scan_extend more h]
      rfl

/-- **A token that is taken before the end is taken from a script that goes on.** -/
theorem next?_extend (h : s.next?.2.isEnded = false) :
    (s.extend more).next? = s.next?.map id (·.extend more) := by
  have hopen : s.fetch.isEnded = false := h
  rw [next?, next?, take, take, fetch_extend more hopen]
  rfl

@[simp] theorem extend_nil (s : Scanner) : s.extend [] = s := by
  rw [extend, Caret.extend, CharStream.extend, Source.extend, Supply.extend_nil]

@[simp] theorem extend_extend (s : Scanner) (more more' : Script) :
    (s.extend more).extend more' = s.extend (more ++ more') := by
  simp only [extend, Caret.extend, CharStream.extend, Source.extend, Supply.extend_extend]

theorem ofScript_append {events : Script} (h : (ofSource (.ofScript events)).isEnded = false) :
    ofSource (.ofScript (events ++ more)) = (ofSource (.ofScript events)).extend more := by
  let fresh : Caret := ⟨.ofSource (.ofScript events), none, none, .start, none, false⟩
  have hread : (fresh.extend more).read = fresh.read.map id (·.extend more) :=
    Caret.read_extend more h
  rw [ofSource, Caret.ofSource]
  exact congrArg (fun step => Scanner.mk { step.2 with current := step.1 } none) hread

end Scanner

/-! ### Turns -/

theorem Event.ofRead_extend (before : Option Position) (c : Caret) (more : Script) :
    ofRead before (c.extend more) = ofRead before c := by
  simp only [ofRead, Caret.fault?_extend]
  rfl

namespace Invocation

variable {i : Invocation} {count : Nat} {s s' : Scanner} {acts : List Act} (more : Script)

theorem scanActs_extend (before after : Caret) (token? : Option Token) :
    scanActs (before.extend more) (after.extend more) token? = scanActs before after token? := by
  rw [scanActs, scanActs, Event.ofScan, Event.ofScan, Event.ofRead_extend]
  rfl

/-- **A turn that does not come to the end is the same turn in a script that goes on.** -/
theorem turn_extend (h : i.turn count s = ⟨acts, none, s'⟩) (hopen : s'.isEnded = false) :
    i.turn count (s.extend more) = ⟨acts, none, s'.extend more⟩ := by
  obtain ⟨t, hnext, herror, rfl⟩ := turn_eq_none_iff.1 h
  have hsame := Scanner.next?_extend (s := s) more (by rwa [hnext])
  rw [hnext] at hsame
  exact turn_eq_none_iff.2 ⟨t, hsame, herror,
    congrArg (· ++ _) (scanActs_extend more s.caret s'.caret (some t)).symm⟩

/-- **Turns up to a pause are the first turns of the whole run.** -/
theorem performOnto_resumeOnto (i : Invocation) (count : Nat) (done : Array Act) (s : Scanner) :
    ∃ count' s', (i.resumeOnto count done s).2 = .scanning count' s' ∧
      i.performOnto Array.push count done (s.extend more) =
        i.performOnto Array.push count' (i.resumeOnto count done s).1 (s'.extend more) := by
  fun_induction resumeOnto i count done s with
  | case1 count done s acts s' hturn hended => exact ⟨count, s, rfl, rfl⟩
  | case2 count done s acts s' hturn hopen ih =>
      obtain ⟨count', left, hpause, hperform⟩ := ih
      refine ⟨count', left, hpause, ?_⟩
      rw [performOnto_of_token _ _ (turn_extend more hturn (by simpa using hopen)), hperform]
  | case3 count done s acts code s' hturn => exact ⟨count, s, rfl, rfl⟩

end Invocation

/-! ### Pauses -/

/-- Acts that have been performed stand in front of those of the rest. -/
theorem Invocation.performOnto_push (i : Invocation) (count : Nat) (done : Array Act)
    (s : Scanner) :
    i.performOnto Array.push count done s =
      (i.performOnto Array.push count #[] s).map (done ++ ·) id := by
  obtain ⟨acts, code, -, -, hperform⟩ := i.exists_runs count s
  rw [hperform, hperform]
  simp

namespace Pause

@[simp] theorem extend_nil (p : Pause) : p.extend [] = p := by
  cases p with
  | opening events => exact congrArg opening (List.append_nil events)
  | scanning count s => exact congrArg (scanning count) s.extend_nil

@[simp] theorem extend_extend (p : Pause) (more more' : Script) :
    (p.extend more).extend more' = p.extend (more ++ more') := by
  cases p with
  | opening events => exact congrArg opening (List.append_assoc events more more')
  | scanning count s => exact congrArg (scanning count) (s.extend_extend more more')

theorem openedActs_extend (s : Scanner) (more : Script) :
    openedActs (s.extend more) = openedActs s := by
  rw [openedActs, openedActs]
  exact congrArg (fun events => (events.map Act.log).toArray)
    (Event.ofRead_extend none s.caret more)

variable (i : Invocation)

/-- **What a run does behind a pause**, with the reads that are still to be made: first the acts
that the reads made so far decide, and then what it does behind the next pause. -/
theorem finish_extend (more : Script) (p : Pause) :
    (p.extend more).finish i =
      (((p.resume i).2.extend more).finish i).map ((p.resume i).1 ++ ·) id := by
  cases p with
  | opening events =>
      rw [resume]
      split
      · exact Prod.ext (Array.empty_append).symm rfl
      · rename_i hopen
        obtain ⟨count, s, hpause, hperform⟩ := i.performOnto_resumeOnto more 0
          (openedActs (.ofSource (.ofScript events))) (.ofSource (.ofScript events))
        rw [hpause, extend, finish, extend, finish, ← i.performOnto_push, ← hperform,
          Scanner.ofScript_append more (by simpa using hopen), openedActs_extend]
  | scanning count s =>
      obtain ⟨count', s', hpause, hperform⟩ := i.performOnto_resumeOnto more count #[] s
      rw [resume, hpause, extend, finish, extend, finish, hperform, i.performOnto_push]

theorem stream_eq (events : Script) (p : Pause) :
    p.stream i events = ((p.extend events).finish i).map Array.toList id := by
  induction events generalizing p with
  | nil => rw [stream, extend_nil]
  | cons event events ih =>
      have hsplit : p.extend (event :: events) = (p.extend [event]).extend events :=
        (p.extend_extend [event] events).symm
      rw [stream, hsplit, finish_extend]
      rcases (p.extend [event]).resume i with ⟨acts, p'⟩
      simp only
      rw [ih]
      exact Prod.ext Array.toList_append.symm rfl

end Pause

/-- **A run that is given its reads one by one does what the run over the whole script does.** -/
theorem Invocation.streamed_eq (i : Invocation) (events : Script) :
    i.streamed events = i.printTokens (.ofScript events) := by
  let s := Scanner.ofSource (.ofScript events)
  have hopening : (i.openingActs s).foldl Array.push #[] =
      #[.log (.tokenizing i.sourceName)] ++ Pause.openedActs s := by
    simp [openingActs, Pause.openedActs]
  have hstream : (Pause.opening []).stream i events =
      (i.performOnto Array.push 0 (Pause.openedActs s) s).map Array.toList id :=
    Pause.stream_eq i events (.opening [])
  have hrun : i.performOnto Array.push 0 ((i.openingActs s).foldl Array.push #[]) s =
      (i.performOnto Array.push 0 (Pause.openedActs s) s).map
        (#[.log (.tokenizing i.sourceName)] ++ ·) id := by
    rw [hopening, i.performOnto_push 0 (_ ++ _), i.performOnto_push 0 (Pause.openedActs s)]
    exact Prod.ext Array.append_assoc rfl
  rw [streamed, hstream, printTokens, run, performRun, hrun]
  simp

end TokenStream
