/-
The log tells what a run does.

Events are told from the carets before and after a scan, so what is logged about a whole run has to
be found by following its caret.  A failed read is noticed when it happens, which may be before the
tokens in front of it have been found: the look at the character behind an equals sign fails while
the caret stands on the sign.  The report of the fault comes later, at the end of the text.  Two
facts about the caret hold these together.  **It knows the place of a failed read exactly if it has
met a fault, and it is never in front of that place** (`Caret.Watched`); and neither the place nor
the fault is ever lost, so that a failed read is noticed once.

* `Caret.Watched`, `Caret.preserved_watched` — the place of a failed read;
* `Caret.eq_failure_of_tokenHere` — what a token with an error reports;
* `Event.Tell`, `Invocation.Runs.tell_append` — the events of tokens that are found one after the
  other;
* `Invocation.Closes`, `Invocation.Runs.exists_events` — **the events of a run**;
* `Invocation.events_of_ok`, `Invocation.events_of_error` — a run over a script, by what its tokens
  are;
* `Invocation.log_agrees` — **the log and the output**.
-/

import TokenStream.Proofs.Showing

set_option relaxedAutoImplicit false
set_option autoImplicit false

namespace TokenStream

/-! ### The place of a failed read -/

/-- A fault that has been met stays met. -/
theorem Source.fault?_next_of_some {s : Source} {cause : Fault} (h : s.fault? = some cause) :
    s.next.2.fault? = some cause := by
  rw [fault?_next]
  split
  · rw [fault?_eq] at h
    split at h
    · exact h
    · exact nomatch h
  · exact h

namespace Caret

variable {c : Caret} {p : Position} {cause : Fault}

/-- A fault that a caret has met stays met. -/
theorem preserved_fault? (cause : Fault) : Preserved (·.fault? = some cause) :=
  preserved_source (Q := (·.fault? = some cause)) fun _ => Source.fault?_next_of_some

/-- The place of the failed read stays what it is. -/
theorem preserved_failedAt (p : Position) : Preserved (·.failedAt = some p) :=
  .of_read (fun h => by simp [read, h]) (fun h => by unfold nextColumn; split <;> exact h) id
    fun _ _ _ h => h

/-- The place of a failed read is known if a fault has been met, and the caret is not in front of
it. -/
structure Watched (c : Caret) : Prop where
  isSome_eq : c.failedAt.isSome = c.fault?.isSome
  leadsTo : ∀ p, c.failedAt = some p → p.LeadsTo c.position

theorem failedAt_read (c : Caret) :
    c.read.2.failedAt = (c.failedAt <|> c.read.2.fault?.map fun _ => c.position) := rfl

theorem fault?_read_of_some (h : c.fault? = some cause) : c.read.2.fault? = some cause :=
  CharStream.source_next (Q := (·.fault? = some cause)) (fun _ => Source.fault?_next_of_some) h

theorem Watched.exists_fault (h : c.Watched) (hplace : c.failedAt = some p) :
    ∃ cause, c.fault? = some cause := by
  rw [← Option.isSome_iff_exists, ← h.isSome_eq, hplace]
  rfl

theorem Watched.read (h : c.Watched) : c.read.2.Watched := by
  cases hplace : c.failedAt with
  | some p =>
      have hknown : c.read.2.failedAt = some p := by rw [failedAt_read, hplace]; rfl
      obtain ⟨cause, hmet⟩ := h.exists_fault hplace
      refine ⟨by rw [hknown, fault?_read_of_some hmet]; rfl, ?_⟩
      intro q hq
      obtain rfl := Option.some.inj (hknown.symm.trans hq)
      exact h.leadsTo p hplace
  | none =>
      -- if the read fails, then where the caret stands
      have hnow : c.read.2.failedAt = c.read.2.fault?.map fun _ => c.position := by
        rw [failedAt_read, hplace]
        rfl
      refine ⟨by rw [hnow, Option.isSome_map], ?_⟩
      intro q hq
      obtain ⟨cause, -, rfl⟩ := Option.map_eq_some_iff.1 (hnow.symm.trans hq)
      exact Position.LeadsTo.refl _

/-- A move of the caret to a later position leaves the place of the failed read behind it. -/
theorem Watched.moved {q : Position} (h : c.Watched) (hq : c.position.LeadsTo q) :
    Watched { c with position := q } :=
  ⟨h.isSome_eq, fun p hp => (h.leadsTo p hp).trans hq⟩

/-- **A caret stays behind the place of the failed read.** -/
theorem preserved_watched : Preserved Watched := by
  have hcolumn : ∀ p : Position, p.LeadsTo p.nextColumn := fun p => Or.inr ⟨rfl, Nat.le_succ _⟩
  have hline : ∀ p : Position, p.LeadsTo p.nextLine := fun p => Or.inl (Nat.lt_succ_self _)
  refine .of_read Watched.read ?_ (fun h => h.moved (hline _)) ?_
  · intro c h
    unfold nextColumn
    split
    · exact h.moved (hcolumn _)
    · exact h
  · intro c current ahead reported h
    exact ⟨h.isSome_eq, h.leadsTo⟩

theorem watched_ofSource (events : Script) : (ofSource (.ofScript events)).Watched := by
  have hfresh : Watched ⟨.ofSource (.ofScript events), none, none, .start, none, false⟩ :=
    ⟨rfl, nofun⟩
  exact ⟨hfresh.read.isSome_eq, hfresh.read.leadsTo⟩

/-- Over a source that ends cleanly no fault is met. -/
theorem fault?_of_clean (h : c.ending = .clean) : c.fault? = none := by
  have hsource : c.input.source.ending = .clean := h
  rw [fault?, CharStream.fault?, Source.fault?_eq, hsource]
  exact ite_self none

/-! ### What a token with an error reports -/

theorem error_takeSymbol (c : Caret) (first : Char) (kind : Kind) :
    (c.takeSymbol first kind).1.error = none := by
  unfold takeSymbol
  split
  split <;> rfl

/-- A token with an error reports the fault that has been met, where the caret stands. -/
theorem eq_failure_of_tokenHere {t : Token} (h : c.tokenHere.1 = some t)
    (herror : t.error.isSome) :
    ∃ cause, c.tokenHere.2.fault? = some cause ∧
      t = .failure cause.message c.tokenHere.2.position := by
  cases hc : c.current with
  | none =>
      have hend : c.tokenHere = c.failure? := by simp only [tokenHere, hc]
      rw [hend, failure?] at h
      rw [hend, failure?]
      obtain ⟨cause, hcause, rfl⟩ := Option.map_eq_some_iff.1 h
      have hmet : c.takeFault.2.fault? = some cause := by
        rw [takeFault_eq]
        exact (fst_takeFault_eq_some_iff.1 hcause).1
      exact ⟨cause, hmet, by rw [position_takeFault]⟩
  | some char =>
      have hnone : t.error = none := by
        cases hkind : Kind.ofSymbol? char with
        | some kind =>
            simp only [tokenHere, hc, hkind] at h
            obtain rfl := Option.some.inj h
            exact error_takeSymbol c char kind
        | none =>
            simp only [tokenHere, hc, hkind] at h
            obtain rfl := Option.some.inj h
            rfl
      exact absurd herror (by simp [hnone])

end Caret

/-! ### The events of a run -/

namespace Event

variable {before after : Caret} {p : Position} {cause : Fault}

/-- Where no read has failed, none is noticed. -/
theorem ofRead_of_none (place : Option Position) (h : after.failedAt = none) :
    ofRead place after = [] := by
  cases place <;> simp [ofRead, h]

/-- A failed read is noticed with its place and its cause. -/
theorem ofRead_of_some (hplace : after.failedAt = some p) (hmet : after.fault? = some cause) :
    ofRead none after = [.readFailed p cause.message] := by
  have hsource : after.input.source.fault? = some cause := hmet
  simp [ofRead, hplace, hsource]

/-- What is noticed depends on the place of the failed read and on the fault that was met. -/
theorem ofRead_congr {after' : Caret} (place : Option Position)
    (hplace : after.failedAt = after'.failedAt) (hmet : after.fault? = after'.fault?) :
    ofRead place after = ofRead place after' := by
  have hsource : after.input.source.fault? = after'.input.source.fault? := hmet
  unfold ofRead
  rw [hplace, hsource]

/-- The events of tokens that were found one after the other, while the caret moved on from where
it knew of a failed read at `place?`.  If a read has failed meanwhile, this is noticed once, in
front of one of the tokens or behind all of them. -/
def Tell (place? : Option Position) (after : Caret) (ts : List Token)
    (events : List Event) : Prop :=
  ∃ front back, ts = front ++ back ∧
    events = front.map scanned ++ (ofRead place? after ++ back.map scanned)

end Event

namespace Scanner

variable {s : Scanner}

/-- Where the place of a failed read is known, it stays known when a token is asked for. -/
theorem isSome_failedAt_next? (h : s.caret.failedAt.isSome) :
    s.next?.2.caret.failedAt.isSome := by
  obtain ⟨p, hp⟩ := Option.isSome_iff_exists.1 h
  have hkept := preserved_apply (Caret.preserved_failedAt p) hp .next
  exact Option.isSome_iff_exists.2 ⟨p, hkept⟩

/-- A token that is asked for where none is held is one that the caret finds. -/
theorem scan_of_next? {t : Token} (hheld : s.held = none) (h : s.next?.1 = some t) :
    s.caret.scan.1 = some t ∧ s.next?.2.caret = s.caret.scan.2 := by
  obtain ⟨caret, held⟩ := s
  obtain rfl : held = none := hheld
  rw [next?_of_scan] at h ⊢
  exact ⟨(Option.filter_eq_some_iff.1 h).1, rfl⟩

end Scanner

namespace Invocation

variable {i : Invocation} {count code : Nat} {s s' : Scanner} {acts : List Act}

theorem event?_log_append (events : List Event) (acts : List Act) :
    (events.map Act.log ++ acts).filterMap Act.event? = events ++ acts.filterMap Act.event? := by
  simp [List.filterMap_map, Function.comp_def, Act.event?]

theorem event?_complain (lines : List String) :
    (lines.map Act.complain).filterMap Act.event? = [] := by
  simp [List.filterMap_map, Function.comp_def, Act.event?]

/-- What the operations of a caret preserve, a run preserves. -/
theorem Runs.preserved {P : Caret → Prop} (hP : Caret.Preserved P)
    (h : i.Runs count s acts code s') (hs : P s.caret) : P s'.caret := by
  induction h with
  | done h => exact Scanner.preserved_apply hP hs .next
  | failed h herror => exact Scanner.preserved_apply hP hs .next
  | printed h herror hrest ih => exact ih (Scanner.preserved_apply hP hs .next)

/-- Tokens in front: either the failed read has been noticed by now, and is not noticed again, or it
has not been noticed yet. -/
theorem Runs.tell_append {place? : Option Position} {ts : List Token} {events : List Event}
    (us : List Token) (h : i.Runs count s acts code s') (hs : s.caret.Watched)
    (hplace : place?.isSome → s.caret.failedAt.isSome)
    (htell : Event.Tell s.caret.failedAt s'.caret ts events) :
    Event.Tell place? s'.caret (us ++ ts)
      (Event.ofRead place? s.caret ++ (us.map .scanned ++ events)) := by
  obtain ⟨front, back, rfl, rfl⟩ := htell
  cases hknown : s.caret.failedAt with
  | some p =>
      obtain ⟨cause, hmet⟩ := hs.exists_fault hknown
      have hsame : Event.ofRead place? s.caret = Event.ofRead place? s'.caret :=
        Event.ofRead_congr _
          (hknown.trans (h.preserved (Caret.preserved_failedAt p) hknown).symm)
          (hmet.trans (h.preserved (Caret.preserved_fault? cause) hmet).symm)
      exact ⟨[], us ++ (front ++ back), rfl, by rw [hsame]; simp [Event.ofRead]⟩
  | none =>
      obtain rfl : place? = none := by
        rw [hknown] at hplace
        cases place? with
        | none => rfl
        | some p => exact nomatch hplace rfl
      rw [Event.ofRead_of_none _ hknown]
      exact ⟨us ++ front, back, (List.append_assoc ..).symm, by simp⟩

/-- How the events of a run end when the tokens `queue` were to come, and `ts` have been printed of
them, behind `count` others.  Either these were all, and it is said that nothing is left and how
many were printed; or the report of the fault was the next one, and it is said where. -/
def Closes (i : Invocation) (count code : Nat) (after : Caret) (queue ts : List Token)
    (last : List Event) : Prop :=
  (code = 0 ∧ queue = ts ∧ last = [.exhausted, .done i.sourceName (count + ts.length)]) ∨
    ∃ t rest cause, code = 1 ∧ queue = ts ++ t :: rest ∧ after.fault? = some cause ∧
      t = .failure cause.message after.position ∧ last = [.reportingFailure t.position]

/-- A token that is printed in front is counted before. -/
theorem Closes.cons {after : Caret} {queue ts : List Token} {last : List Event} (t : Token)
    (h : i.Closes (count + 1) code after queue ts last) :
    i.Closes count code after (t :: queue) (t :: ts) last := by
  rcases h with ⟨hcode, hqueue, hlast⟩ | ⟨u, rest, cause, hcode, hqueue, hmet, hu, hlast⟩
  · refine .inl ⟨hcode, by rw [hqueue], ?_⟩
    rw [hlast, List.length_cons, Nat.add_right_comm, Nat.add_assoc]
  · exact .inr ⟨u, rest, cause, hcode, by rw [hqueue, List.cons_append], hmet, hu, hlast⟩

/-- **The events of a run.**  The tokens that are printed have been found one after the other, and
the events that close the run stand behind theirs. -/
theorem Runs.exists_events (h : i.Runs count s acts code s') (hheld : s.held = none)
    (hs : s.caret.Watched) :
    ∃ ts told last, acts.filterMap Act.event? = told ++ last ∧
      Event.Tell s.caret.failedAt s'.caret ts told ∧
      i.Closes count code s'.caret s.queue ts last := by
  have hgenuine : ∀ {s : Scanner}, s.held = none → s.Genuine := by
    intro s hheld t ht
    exact nomatch hheld.symm.trans ht
  induction h with
  | @done count s h =>
      have hqueue := (hgenuine hheld).queue_of_next?_none h
      refine ⟨[], Event.ofRead s.caret.failedAt s.next?.2.caret, _, ?_, ⟨[], [], rfl, ?_⟩,
        .inl ⟨rfl, hqueue, rfl⟩⟩
      · rw [scanActs, event?_log_append, Event.ofScan, List.append_assoc]
        rfl
      · exact (List.append_nil _).symm
  | @failed count s t e h herror =>
      have hqueue := (hgenuine hheld).queue_of_next?_some h
      obtain ⟨hscan, hcaret⟩ := Scanner.scan_of_next? hheld h
      obtain ⟨cause, hmet, ht⟩ :=
        Caret.eq_failure_of_tokenHere hscan (Option.isSome_iff_exists.2 ⟨e, herror⟩)
      refine ⟨[], Event.ofRead s.caret.failedAt s.next?.2.caret, _, ?_, ⟨[], [], rfl, ?_⟩,
        .inr ⟨t, _, cause, rfl, hqueue, ?_, ?_, rfl⟩⟩
      · have houtcome : Event.ofOutcome (some t) = .reportingFailure t.position := by
          simp [Event.ofOutcome, herror]
        rw [scanActs, event?_log_append, event?_complain, List.append_nil, Event.ofScan, houtcome]
      · exact (List.append_nil _).symm
      · rw [hcaret]
        exact hmet
      · rw [hcaret]
        exact ht
  | @printed count code s s' t acts h herror hrest ih =>
      have hwatched : s.next?.2.caret.Watched :=
        Scanner.preserved_apply Caret.preserved_watched hs .next
      obtain ⟨ts, told, last, hevents, htell, hend⟩ := ih rfl hwatched
      have houtcome : Event.ofOutcome (some t) = .scanned t := by
        simp [Event.ofOutcome, herror]
      refine ⟨t :: ts, _, last, ?_,
        hrest.tell_append [t] hwatched Scanner.isSome_failedAt_next? htell, ?_⟩
      · rw [scanActs, event?_log_append, Event.ofScan, houtcome, List.filterMap_cons_none rfl,
          hevents]
        simp
      · rw [(hgenuine hheld).queue_of_next?_some h]
        exact hend.cons t

/-! ### Runs over a script -/

variable {events : Script}

/-- The events of a run over a script. -/
theorem exists_events_ofScript (i : Invocation) (events : Script) :
    ∃ (ts : List Token) (s' : Scanner) (told last : List Event),
      (i.printTokens (.ofScript events)).acts.filterMap Act.event? =
        .tokenizing i.sourceName :: (told ++ last) ∧
      Event.Tell none s'.caret ts told ∧ s'.caret.Watched ∧ s'.caret.ending = events.ending ∧
      i.Closes 0 (i.printTokens (.ofScript events)).exitCode s'.caret
        (Scanner.ofSource (.ofScript events)).queue ts last := by
  have hwatched := Caret.watched_ofSource events
  obtain ⟨acts, s', hacts, -, -, hruns⟩ := i.exists_runs_ofScript events
  obtain ⟨ts, told, last, hevents, htell, hend⟩ := hruns.exists_events rfl hwatched
  refine ⟨ts, s', _, last, ?_, hruns.tell_append [] hwatched nofun htell,
    hruns.preserved Caret.preserved_watched hwatched,
    hruns.preserved (Caret.preserved_ending _) (Scanner.reached_ofScript events).ending_eq, hend⟩
  rw [hacts, openingActs, event?_log_append, hevents]
  simp [Scanner.ofSource]

/-- The events of a run over a script that has tokens. -/
theorem events_of_ok {ts : List Token} (i : Invocation)
    (h : (Source.ofScript events).tokens = .ok ts) :
    (i.printTokens (.ofScript events)).acts.filterMap Act.event? =
      .tokenizing i.sourceName ::
        (ts.map .scanned ++ [.exhausted, .done i.sourceName ts.length]) := by
  obtain ⟨hending, rfl⟩ := Source.eq_tokens_of_ok h
  obtain ⟨us, s', told, last, hevents, ⟨front, back, rfl, rfl⟩, hwatched, hsame, hend⟩ :=
    i.exists_events_ofScript events
  have hquiet : s'.caret.failedAt = none := by
    have hnone := Caret.fault?_of_clean (hsame.trans hending)
    rw [← Option.not_isSome_iff_eq_none, hwatched.isSome_eq, hnone]
    decide
  have hqueue : (Scanner.ofSource (.ofScript events)).queue = _ := Source.drain_of_clean hending
  rcases hend with ⟨-, hus, rfl⟩ | ⟨t, rest, cause, hcode, -⟩
  · rw [hevents, Event.ofRead_of_none _ hquiet, ← hqueue, hus]
    simp
  · exact nomatch hcode.symm.trans (i.printTokens_of_ok h).1

/-- The events of a run over a script that has an error instead. -/
theorem events_of_error {e : ScanError} (i : Invocation)
    (h : (Source.ofScript events).tokens = .error e) :
    ∃ front back p, Cut.tokens .start (Utf8.decode events.bytes) = front ++ back ∧
      p.LeadsTo e.position ∧
      (i.printTokens (.ofScript events)).acts.filterMap Act.event? =
        .tokenizing i.sourceName ::
          (front.map .scanned ++ .readFailed p e.cause.reason ::
            (back.map .scanned ++ [.reportingFailure e.position])) := by
  obtain ⟨u, hdrain, hu, hcode, -⟩ := i.printTokens_of_error h
  obtain ⟨us, s', told, last, hevents, ⟨front, back, rfl, rfl⟩, hwatched, -, hend⟩ :=
    i.exists_events_ofScript events
  rcases hend with ⟨hcode', -⟩ | ⟨t, rest, cause, -, hqueue, hmet, ht, rfl⟩
  · exact nomatch hcode'.symm.trans hcode
  · have herror : t.error.isSome := by
      rw [ht]
      rfl
    obtain rfl := Scanner.eq_nil_of_error hqueue herror
    obtain ⟨htokens, hlast⟩ := List.append_inj' (hdrain.symm.trans hqueue) rfl
    obtain rfl := List.singleton_inj.1 hlast
    obtain rfl : e = ⟨.sourceRead cause.message, s'.caret.position⟩ := by
      rw [ht] at hu
      exact (Option.some.inj hu).symm
    obtain ⟨p, hp⟩ : ∃ p, s'.caret.failedAt = some p := by
      rw [← Option.isSome_iff_exists, hwatched.isSome_eq, hmet]
      rfl
    refine ⟨front, back, p, htokens, hwatched.leadsTo p hp, ?_⟩
    rw [hevents, Event.ofRead_of_some hp hmet, ht]
    simp [ScanError.Cause.reason, Token.failure]

/-! ### The log and the output -/

/-- What is printed stands on lines of its own. -/
theorem newline_not_mem_printed (i : Invocation) (events : Script) :
    ∀ text ∈ (i.printTokens (.ofScript events)).printed, '\n' ∉ text.toList := by
  cases htokens : (Source.ofScript events).tokens with
  | ok ts =>
      obtain ⟨-, rfl⟩ := Source.eq_tokens_of_ok htokens
      rw [(i.printTokens_of_ok htokens).2.1, List.forall_mem_map]
      exact fun t ht => i.newline_not_mem_tokenLine ht
  | error e =>
      obtain ⟨-, -, -, -, hprinted, -⟩ := i.printTokens_of_error htokens
      rw [hprinted, List.forall_mem_map]
      exact fun t ht => i.newline_not_mem_tokenLine ht

/-- **The log of a run agrees with what is printed.**  Where all events are shown, a token is logged
for each line that is printed, in the same order.  If all goes well, it is logged behind them that
nothing is left, and last how many lines were printed.  If the source fails, this is noticed once,
behind some of the printed tokens, and in front of the others where it was met by looking ahead;
last of all it is logged that the fault is being reported, at the place of the error, to which the
place of the failed read leads. -/
theorem log_agrees {f : Filter} (hf : ∀ event, f.shows event = true) (i : Invocation)
    (events : Script) :
    let line := fun t : Token =>
      if i.valuesOnly then t.value
      else s!"{t.position.line}:{t.position.column} {t.kind.name} {Quoted.quote t.value}"
    let o := (Request.run i).outcome fun _ => .ok (.ofScript events)
    (o.stdout = String.join (o.printed.map (· ++ "\n")) ∧
      ∀ text ∈ o.printed, '\n' ∉ text.toList) ∧
    (∀ ts, (Source.ofScript events).tokens = .ok ts →
      o.printed = ts.map line ∧
        o.log f = .tokenizing i.sourceName ::
          (ts.map .scanned ++ [.exhausted, .done i.sourceName o.printed.length])) ∧
    ∀ e, (Source.ofScript events).tokens = .error e →
      ∃ (front back : List Token) (t : Token) (p : Position),
        (Scanner.ofSource (.ofScript events)).drain.1 = front ++ back ++ [t] ∧
        t.error = some e ∧ o.printed = (front ++ back).map line ∧
        o.log f = .tokenizing i.sourceName ::
          (front.map .scanned ++ .readFailed p e.cause.reason ::
            (back.map .scanned ++ [.reportingFailure e.position])) ∧
        p.LeadsTo e.position ∧
        o.complaints = [s!"Error: {e.cause.name} ({e.cause.advice.text})",
          s!"-> {i.sourceName}:{e.position.text}"] := by
  intro line o
  have hlog : o.log f = o.acts.filterMap Act.event? := by
    rw [Outcome.log_eq]
    exact List.filter_eq_self.2 fun event _ => hf event
  refine ⟨⟨o.stdout_eq, i.newline_not_mem_printed events⟩, ?_, ?_⟩
  · intro ts hts
    have hprinted : o.printed = ts.map line := (i.printTokens_of_ok hts).2.1
    refine ⟨hprinted, ?_⟩
    rw [hlog, hprinted, List.length_map]
    exact i.events_of_ok hts
  · intro e he
    obtain ⟨t, hdrain, ht, -, hprinted, hcomplaints, -⟩ := i.printTokens_of_error he
    obtain ⟨front, back, p, htokens, hlead, hevents⟩ := i.events_of_error he
    rw [htokens] at hdrain hprinted
    exact ⟨front, back, t, p, hdrain, ht, hprinted, hlog.trans hevents, hlead,
      hcomplaints.trans (i.errorLines_eq e)⟩

/-- A file that fails behind an equals sign, and a standard input that does not fail. -/
theorem log_agrees_of_lookAhead :
    let i : Invocation := { path? := some "main.src" }
    let events : Script := [.bytes [0x61, 0x0a, 0x3d], .fault (.described .other "disk on fire")]
    let clean : Script := [.bytes [0x2b, 0x61]]
    let f : Filter := ⟨fun _ => true⟩
    let o := (Request.run i).outcome fun _ => .ok (.ofScript events)
    let o' := (Request.run {}).outcome fun _ => .ok (.ofScript clean)
    (∀ event, f.shows event = true) ∧
      (Source.ofScript events).tokens = .error ⟨.sourceRead "disk on fire", ⟨2, 2⟩⟩ ∧
      (∃ (front back : List Token) (p : Position),
        front ++ back = [⟨.identifier, ⟨1, 1⟩, "a", none⟩, ⟨.assignment, ⟨2, 1⟩, "=", none⟩] ∧
        o.printed = ["1:1 Identifier \"a\"", "2:1 Assignment \"=\""] ∧
        o.log f = .tokenizing "main.src" ::
          (front.map .scanned ++ .readFailed p "disk on fire" ::
            (back.map .scanned ++ [.reportingFailure ⟨2, 2⟩])) ∧
        p.LeadsTo ⟨2, 2⟩) ∧
      (Source.ofScript clean).tokens =
        .ok [⟨.operator, ⟨1, 1⟩, "+", none⟩, ⟨.identifier, ⟨1, 2⟩, "a", none⟩] ∧
      o'.printed = ["1:1 Operator \"+\"", "1:2 Identifier \"a\""] ∧
      o'.log f = [.tokenizing "<stdin>", .scanned ⟨.operator, ⟨1, 1⟩, "+", none⟩,
        .scanned ⟨.identifier, ⟨1, 2⟩, "a", none⟩, .exhausted, .done "<stdin>" 2] := by
  intro i events clean f o o'
  have hf : ∀ event, f.shows event = true := fun _ => rfl
  have herror : (Source.ofScript events).tokens = .error ⟨.sourceRead "disk on fire", ⟨2, 2⟩⟩ := by
    rw [Source.tokens_of_failed rfl]
    decide +kernel
  have hok : (Source.ofScript clean).tokens =
      .ok [⟨.operator, ⟨1, 1⟩, "+", none⟩, ⟨.identifier, ⟨1, 2⟩, "a", none⟩] := by
    rw [Source.tokens_of_clean rfl]
    decide +kernel
  have hdrain : (Scanner.ofSource (.ofScript events)).drain.1 =
      [⟨.identifier, ⟨1, 1⟩, "a", none⟩, ⟨.assignment, ⟨2, 1⟩, "=", none⟩] ++
        [.failure "disk on fire" ⟨2, 2⟩] := by
    rw [Source.drain_eq]
    decide +kernel
  obtain ⟨front, back, t, p, hsplit, -, hprinted, hlog, hlead, -⟩ :=
    (log_agrees hf i events).2.2 _ herror
  obtain ⟨hprinted', hlog'⟩ := (log_agrees hf {} clean).2.1 _ hok
  obtain ⟨htokens, -⟩ := List.append_inj' (hsplit.symm.trans hdrain) rfl
  refine ⟨hf, herror, ⟨front, back, p, htokens, ?_, hlog, hlead⟩, hok,
    hprinted'.trans (by decide +kernel), ?_⟩
  · rw [hprinted, htokens]
    decide +kernel
  · rw [hlog', hprinted']
    rfl

end Invocation

end TokenStream
