/-
What is printed agrees with the tokens of the source.

A run does not collect tokens before it prints them.  It prints a line as soon as a token has been
found, and when a source fails, all that was found before has long been printed.  Still everything
that can be seen of a run is told by the tokens of its source: **a line for each token, in order,
and behind them either nothing or the two lines about the error**, with an exit code that says which
of the two it was.  Of the source nothing is read any more once it has failed.

A run is described as a relation, with one constructor for each thing that can happen when a token
is asked for.  Events are acts too, but they neither print nor complain.

* `Outcome.printed`, `Outcome.complaints` — the lines of an outcome, log lines apart;
* `Invocation.Runs`, `Invocation.exists_runs` — a run with the scanner that it leaves, and its acts
  performed one by one;
* `Invocation.Runs.of_clean`, `Invocation.Runs.of_failed` — **a run over the tokens to come**;
* `Scanner.exists_call_of_error` — a report is found when the failing call was the last one;
* `Invocation.printTokens_of_ok`, `Invocation.printTokens_of_error` — a run over a script, by what
  its tokens are;
* `Invocation.run_agrees` — **what is seen of a run**.
-/

import TokenStream.Command.Outcome
import TokenStream.Proofs.Failure
import TokenStream.Proofs.Quoting
import TokenStream.Proofs.Stopping

set_option relaxedAutoImplicit false
set_option autoImplicit false

namespace TokenStream

/-! ### Lines -/

/-- The line that an act prints. -/
def Act.printed? : Act → Option String
  | print line => some line
  | _ => none

/-- The line with which an act tells the user about a problem. -/
def Act.complaint? : Act → Option String
  | complain line => some line
  | _ => none

namespace Outcome

/-- The lines that are printed. -/
def printed (o : Outcome) : List String := o.acts.filterMap Act.printed?

/-- The lines that tell the user about a problem. -/
def complaints (o : Outcome) : List String := o.acts.filterMap Act.complaint?

/-- Acts without a line add nothing to a text. -/
theorem join_map_elim (acts : List Act) (line? : Act → Option String) :
    String.join (acts.map fun act => (line? act).elim "" (· ++ "\n")) =
      String.join ((acts.filterMap line?).map (· ++ "\n")) := by
  induction acts with
  | nil => rfl
  | cons act acts ih =>
      cases hline : line? act with
      | none =>
          rw [List.map_cons, String.join_cons, ih, hline, List.filterMap_cons_none hline]
          exact String.empty_append
      | some line =>
          rw [List.map_cons, String.join_cons, ih, hline, List.filterMap_cons_some hline,
            List.map_cons, String.join_cons]
          rfl

theorem stdout_eq (o : Outcome) : o.stdout = String.join (o.printed.map (· ++ "\n")) := by
  rw [stdout, printed, ← join_map_elim]
  congr 2
  funext act
  cases act <;> rfl

/-- A line for each token makes a text of lines. -/
theorem stdout_of_printed {o : Outcome} {line : Token → String} {ts : List Token}
    (h : o.printed = ts.map line) : o.stdout = String.join (ts.map fun t => line t ++ "\n") := by
  rw [stdout_eq, h, List.map_map]
  rfl

/-- Where no event is shown, only the complaints are left. -/
theorem stderr_of_quiet {f : Filter} (h : ∀ event, f.shows event = false) (o : Outcome) :
    o.stderr f = String.join (o.complaints.map (· ++ "\n")) := by
  rw [stderr, complaints, ← join_map_elim]
  congr 2
  funext act
  cases act with
  | print line | complain line => rfl
  | log event => exact if_neg (by simp [h])

end Outcome

namespace Invocation

variable {i : Invocation}

/-! ### Events print nothing -/

section

variable (events : List Event) (lines : List String) (acts : List Act)

theorem printed?_log_append :
    (events.map Act.log ++ acts).filterMap Act.printed? = acts.filterMap Act.printed? := by
  simp [List.filterMap_map, Function.comp_def, Act.printed?]

theorem complaint?_log_append :
    (events.map Act.log ++ acts).filterMap Act.complaint? = acts.filterMap Act.complaint? := by
  simp [List.filterMap_map, Function.comp_def, Act.complaint?]

theorem printed?_complain : (lines.map Act.complain).filterMap Act.printed? = [] := by
  simp [List.filterMap_map, Function.comp_def, Act.printed?]

theorem complaint?_complain : (lines.map Act.complain).filterMap Act.complaint? = lines := by
  simp [List.filterMap_map, Function.comp_def, Act.complaint?]

end

/-! ### Runs -/

/-- A run from a scanner, where `count` tokens were printed before: what is done, the exit code, and
the scanner that is left. -/
inductive Runs (i : Invocation) : Nat → Scanner → List Act → Nat → Scanner → Prop
  /-- No token is left. -/
  | done {count : Nat} {s : Scanner} (h : s.next?.1 = none) :
      Runs i count s
        (scanActs s.caret s.next?.2.caret none ++ [.log (.done i.sourceName count)]) 0 s.next?.2
  /-- The token carries an error, and nothing is done behind it. -/
  | failed {count : Nat} {s : Scanner} {t : Token} {e : ScanError} (h : s.next?.1 = some t)
      (herror : t.error = some e) :
      Runs i count s
        (scanActs s.caret s.next?.2.caret (some t) ++ (i.errorLines e).map .complain) 1 s.next?.2
  /-- The token is printed, and the run goes on behind it. -/
  | printed {count code : Nat} {s s' : Scanner} {t : Token} {acts : List Act}
      (h : s.next?.1 = some t) (herror : t.error = none)
      (hrest : Runs i (count + 1) s.next?.2 acts code s') :
      Runs i count s
        (scanActs s.caret s.next?.2.caret (some t) ++ .print (i.tokenLine t) :: acts) code s'

variable {count code : Nat} {s s' : Scanner} {acts : List Act} {ts : List Token}

/-- A turn that ends the run is all of it. -/
theorem Runs.of_turn (h : i.turn count s = ⟨acts, some code, s'⟩) :
    i.Runs count s acts code s' := by
  unfold turn at h
  split at h
  · rename_i left hnext
    obtain ⟨rfl, hcode, rfl⟩ := Turn.mk.inj h
    obtain rfl := Option.some.inj hcode
    have hruns : i.Runs count s _ 0 _ := .done (congrArg Prod.fst hnext)
    rwa [hnext] at hruns
  · rename_i t left hnext
    split at h
    · rename_i e herror
      obtain ⟨rfl, hcode, rfl⟩ := Turn.mk.inj h
      obtain rfl := Option.some.inj hcode
      have hruns : i.Runs count s _ 1 _ := .failed (congrArg Prod.fst hnext) herror
      rwa [hnext] at hruns
    · exact nomatch (Turn.mk.inj h).2.1

/-- A turn that does not end the run goes in front. -/
theorem Runs.cons_turn {rest : List Act} {left : Scanner} (h : i.turn count s = ⟨acts, none, s'⟩)
    (hrest : i.Runs (count + 1) s' rest code left) : i.Runs count s (acts ++ rest) code left := by
  obtain ⟨t, hnext, herror, rfl⟩ := turn_eq_none_iff.1 h
  have hrest' : i.Runs (count + 1) s.next?.2 rest code left := by rwa [hnext]
  have hruns := hrest'.printed (congrArg Prod.fst hnext) herror
  rw [hnext] at hruns
  rwa [List.append_assoc]

section

variable {σ : Type} (perform : σ → Act → σ) (state : σ)

theorem performOnto_of_end (h : i.turn count s = ⟨acts, some code, s'⟩) :
    i.performOnto perform count state s = (acts.foldl perform state, code) := by
  rw [performOnto.eq_def]
  split <;> simp_all

theorem performOnto_of_token (h : i.turn count s = ⟨acts, none, s'⟩) :
    i.performOnto perform count state s =
      i.performOnto perform (count + 1) (acts.foldl perform state) s' := by
  rw [performOnto.eq_def]
  split <;> simp_all

end

/-- **The acts are those of a run**, whatever performing them does to a state. -/
theorem exists_runs (i : Invocation) (count : Nat) (s : Scanner) :
    ∃ acts code s', i.Runs count s acts code s' ∧
      ∀ {σ : Type} (perform : σ → Act → σ) (state : σ),
        i.performOnto perform count state s = (acts.foldl perform state, code) := by
  match hturn : i.turn count s with
  | ⟨acts, some code, s'⟩ =>
      exact ⟨acts, code, s', .of_turn hturn, fun perform state =>
        performOnto_of_end perform state hturn⟩
  | ⟨acts, none, s'⟩ =>
      obtain ⟨rest, code, left, hrest, hperform⟩ := i.exists_runs (count + 1) s'
      refine ⟨acts ++ rest, code, left, hrest.cons_turn hturn, ?_⟩
      intro σ perform state
      rw [performOnto_of_token perform state hturn, hperform, List.foldl_append]
termination_by s.remaining
decreasing_by exact remaining_turn_lt hturn

/-- **A run over tokens without errors** prints them all. -/
theorem Runs.of_clean (h : i.Runs count s acts code s') (hs : s.Genuine) (hqueue : s.queue = ts)
    (hts : ∀ t ∈ ts, t.error = none) :
    code = 0 ∧ acts.filterMap Act.printed? = ts.map i.tokenLine ∧
      acts.filterMap Act.complaint? = [] := by
  induction h generalizing ts with
  | @done count s h =>
      obtain rfl : ts = [] := hqueue.symm.trans (hs.queue_of_next?_none h)
      refine ⟨rfl, ?_, ?_⟩
      · rw [scanActs, printed?_log_append]
        rfl
      · rw [scanActs, complaint?_log_append]
        rfl
  | @failed count s t e h herror =>
      have hmem : t ∈ ts := by
        rw [← hqueue, hs.queue_of_next?_some h]
        exact List.mem_cons_self
      rw [hts t hmem] at herror
      exact nomatch herror
  | @printed count code s s' t acts h herror hrest ih =>
      obtain rfl : ts = t :: s.next?.2.queue := hqueue.symm.trans (hs.queue_of_next?_some h)
      obtain ⟨hcode, hprinted, hcomplaints⟩ :=
        ih (Scanner.genuine_take s) rfl (List.forall_mem_cons.1 hts).2
      refine ⟨hcode, ?_, ?_⟩
      · rw [scanActs, printed?_log_append, List.filterMap_cons, hprinted]
        rfl
      · rw [scanActs, complaint?_log_append, List.filterMap_cons, hcomplaints]
        rfl

/-- **A run over tokens that end with a report** prints the tokens in front of it.  It tells about
the error last, and asks for no token behind the report. -/
theorem Runs.of_failed {t : Token} {e : ScanError} (h : i.Runs count s acts code s')
    (hs : s.Genuine) (hqueue : s.queue = ts ++ [t]) (ht : t.error = some e)
    (hts : ∀ t ∈ ts, t.error = none) :
    code = 1 ∧ acts.filterMap Act.printed? = ts.map i.tokenLine ∧
      (∃ before, acts = before ++ (i.errorLines e).map .complain ∧
        before.filterMap Act.complaint? = []) ∧
      (s.after (List.replicate ts.length .next)).next? = (some t, s') := by
  induction h generalizing ts with
  | @done count s h =>
      exact absurd (hqueue.symm.trans (hs.queue_of_next?_none h)) (by simp)
  | @failed count s u e' h herror =>
      have hcons := hqueue.symm.trans (hs.queue_of_next?_some h)
      cases ts with
      | nil =>
          obtain rfl := (List.cons.inj hcons).1
          obtain rfl := Option.some.inj (ht.symm.trans herror)
          refine ⟨rfl, ?_, ⟨_, rfl, ?_⟩, Prod.ext h rfl⟩
          · rw [scanActs, printed?_log_append, printed?_complain]
            rfl
          · rw [scanActs, ← List.append_nil (List.map _ _), complaint?_log_append]
            rfl
      | cons first ts =>
          obtain rfl := (List.cons.inj hcons).1
          rw [hts _ List.mem_cons_self] at herror
          exact nomatch herror
  | @printed count code s s' u acts h herror hrest ih =>
      have hcons := hqueue.symm.trans (hs.queue_of_next?_some h)
      cases ts with
      | nil =>
          obtain rfl := (List.cons.inj hcons).1
          rw [ht] at herror
          exact nomatch herror
      | cons first ts =>
          obtain ⟨rfl, hrest'⟩ := List.cons.inj hcons
          obtain ⟨hcode, hprinted, ⟨before, rfl, hbefore⟩, hleft⟩ :=
            ih (Scanner.genuine_take s) hrest'.symm (List.forall_mem_cons.1 hts).2
          have hsplit : scanActs s.caret s.next?.2.caret (some first) ++
              .print (i.tokenLine first) :: (before ++ (i.errorLines e).map .complain) =
              (scanActs s.caret s.next?.2.caret (some first) ++
                .print (i.tokenLine first) :: before) ++ (i.errorLines e).map .complain := by
            rw [List.append_assoc, List.cons_append]
          refine ⟨hcode, ?_, ⟨_, hsplit, ?_⟩, hleft⟩
          · rw [scanActs, printed?_log_append, List.filterMap_cons, hprinted]
            rfl
          · rw [scanActs, complaint?_log_append, List.filterMap_cons, hbefore]
            rfl

/-! ### One line for each token -/

theorem toList_tokenLine (hi : i.valuesOnly = false) (t : Token) :
    (i.tokenLine t).toList = t.position.text.toList ++
      ' ' :: (t.kind.name.toList ++ ' ' :: (Quoted.quote t.value).toList) := by
  have hparts : i.tokenLine t =
      t.position.text ++ " " ++ t.kind.name ++ " " ++ Quoted.quote t.value := by
    rw [tokenLine, hi]
    rfl
  simp [hparts]

/-- With its value between quotes, a token is printed on one line. -/
theorem newline_not_mem_tokenLine_of_quoted (hi : i.valuesOnly = false) (t : Token) :
    '\n' ∉ (i.tokenLine t).toList := by
  rw [toList_tokenLine hi]
  simp only [List.mem_append, List.mem_cons, not_or]
  exact ⟨t.position.newline_not_mem_text, by decide, t.kind.newline_not_mem_name, by decide,
    Quoted.newline_not_mem_quote t.value⟩

/-- **No token of a text is printed with a line break.** -/
theorem newline_not_mem_tokenLine {t : Token} {cs : List Char} (ht : t ∈ Cut.tokens .start cs) :
    '\n' ∉ (i.tokenLine t).toList := by
  cases hi : i.valuesOnly with
  | false => exact newline_not_mem_tokenLine_of_quoted hi t
  | true =>
      have hproper := Cut.isProper_of_mem_tokens cs (Nat.le_refl 1) (Nat.le_refl 1) t ht
      have hvalue := (Token.isProper_iff.1 hproper).2.2.2
      rw [tokenLine, if_pos hi]
      intro hmem
      exact absurd (Token.not_blank_of_isValueOf hvalue _ hmem) (by decide)

/-- Every error comes with advice. -/
theorem errorLines_eq (i : Invocation) (e : ScanError) :
    i.errorLines e = [s!"Error: {e.cause.name} ({e.cause.advice.text})",
      s!"-> {i.sourceName}:{e.position.text}"] := by
  obtain ⟨⟨reason⟩, position⟩ := e
  rfl

end Invocation

/-! ### Nothing is read behind a failing call -/

/-- **A report is found when the failing call was the last one.** -/
theorem Scanner.exists_call_of_error {events : Script} {ops : List Op} {op : Op} (hop : op ≠ .drain)
    (herror : (((ofSource (.ofScript events)).after ops).apply op).1.first.error.isSome) :
    ∃ k cause, events.call k = .fault cause ∧ cause.isInterrupted = false ∧
      ((ofSource (.ofScript events)).after (ops ++ [op])).reads = k + 1 := by
  have hs := genuine_ofSource (.ofScript events)
  have hend : (((ofSource (.ofScript events)).after ops).apply op).1.first.isEnd = false := by
    rw [Token.isEnd, Option.isNone_eq_false_iff.2 herror, Bool.and_false]
  obtain ⟨behind, hafter⟩ := (hs.after ops).queue_eq_cons hend
  have hmem : (((ofSource (.ofScript events)).after ops).apply op).1.first ∈
      (ofSource (.ofScript events)).queue := by
    rw [← hs.taken_append_queue ops, hafter]
    exact List.mem_append_right _ List.mem_cons_self
  obtain ⟨hlast, cause, hcause⟩ := endsAt_of_error hmem herror
  -- the caret has come to the end of the text, where the fault has been met
  obtain ⟨e, hrests⟩ := (rests_ofSource (.ofScript events)).after ops
  obtain ⟨e', hcaret, hends⟩ := hrests.endsAt_first hop hend
  obtain rfl := hends.unique hlast
  have hreached := (reached_ofScript events).after (ops ++ [op])
  have hplayed := preserved_after (Caret.preserved_played events) (Caret.played_ofScript events)
    (s := ofSource (.ofScript events)) (ops ++ [op])
  rw [after_append] at hreached hplayed ⊢
  have htext := hcaret.stands.text_eq
  rw [Source.bytes_ofScript, List.drop_length] at htext
  have hmet := hreached.sound.fault?_of_text_nil htext
  rw [hreached.ending_eq, hcause] at hmet
  obtain ⟨k, hk, hcall, hinterrupted⟩ :=
    (hplayed.fault?_eq_some_iff hreached.ending_eq).1 hmet
  have hlastCall := hplayed.of_ends hk (by simp [hcall, ReadEvent.ends, hinterrupted])
  exact ⟨k, cause, hcall, hinterrupted, hlastCall.2⟩

/-! ### Runs over a script -/

/-- What is yielded when the tokens of a source are asked for, by the answer. -/
theorem Source.eq_tokens_of_ok {s : Source} {ts : List Token} (h : s.tokens = .ok ts) :
    s.ending = .clean ∧ ts = Cut.tokens .start (Utf8.decode s.bytes) := by
  cases hending : s.ending with
  | clean => exact ⟨rfl, Except.ok.inj (h.symm.trans (tokens_of_clean hending))⟩
  | failed cause => exact nomatch h.symm.trans (tokens_of_failed hending)

theorem Source.eq_error_of_tokens {s : Source} {e : ScanError} (h : s.tokens = .error e) :
    ∃ cause, s.ending = .failed cause ∧
      e = ⟨.sourceRead cause.message, .behind (Utf8.decode s.bytes)⟩ := by
  rw [← Position.start_after]
  cases hending : s.ending with
  | clean => exact nomatch h.symm.trans (tokens_of_clean hending)
  | failed cause =>
      exact ⟨cause, rfl, Except.error.inj (h.symm.trans (tokens_of_failed hending))⟩

namespace Invocation

variable {events : Script}

/-- A run over a script begins with events, and goes on from a fresh scanner. -/
theorem exists_runs_ofScript (i : Invocation) (events : Script) :
    ∃ acts s', (i.printTokens (.ofScript events)).acts =
        i.openingActs (.ofSource (.ofScript events)) ++ acts ∧
      (i.printTokens (.ofScript events)).printed = acts.filterMap Act.printed? ∧
      (i.printTokens (.ofScript events)).complaints = acts.filterMap Act.complaint? ∧
      i.Runs 0 (.ofSource (.ofScript events)) acts
        (i.printTokens (.ofScript events)).exitCode s' := by
  obtain ⟨acts, code, s', hruns, hperform⟩ := i.exists_runs 0 (.ofSource (.ofScript events))
  have hrun : i.printTokens (.ofScript events) =
      ⟨i.openingActs (.ofSource (.ofScript events)) ++ acts, code⟩ := by
    simp [printTokens, run, performRun, hperform]
  have hsplit := congrArg Outcome.acts hrun
  refine ⟨acts, s', hsplit, ?_, ?_, by rwa [hrun]⟩
  · rw [Outcome.printed, hsplit, openingActs, printed?_log_append]
  · rw [Outcome.complaints, hsplit, openingActs, complaint?_log_append]

/-- **A run over a script that has tokens.** -/
theorem printTokens_of_ok {ts : List Token} (i : Invocation)
    (h : (Source.ofScript events).tokens = .ok ts) :
    (i.printTokens (.ofScript events)).exitCode = 0 ∧
      (i.printTokens (.ofScript events)).printed = ts.map i.tokenLine ∧
      (i.printTokens (.ofScript events)).complaints = [] := by
  obtain ⟨hending, rfl⟩ := Source.eq_tokens_of_ok h
  obtain ⟨acts, s', -, hprinted, hcomplaints, hruns⟩ := i.exists_runs_ofScript events
  have hqueue : (Scanner.ofSource (.ofScript events)).queue = _ :=
    Source.drain_of_clean hending
  obtain ⟨hcode, hlines, hnone⟩ := hruns.of_clean (Scanner.genuine_ofSource _) hqueue
    fun t ht => Cut.error_of_mem_tokens ht
  exact ⟨hcode, hprinted.trans hlines, hcomplaints.trans hnone⟩

/-- **A run over a script that has an error instead.**  The complaints are the last acts, and the
failing call was the last one. -/
theorem printTokens_of_error {e : ScanError} (i : Invocation)
    (h : (Source.ofScript events).tokens = .error e) :
    ∃ t, (Scanner.ofSource (.ofScript events)).drain.1 =
        Cut.tokens .start (Utf8.decode events.bytes) ++ [t] ∧ t.error = some e ∧
      (i.printTokens (.ofScript events)).exitCode = 1 ∧
      (i.printTokens (.ofScript events)).printed =
        (Cut.tokens .start (Utf8.decode events.bytes)).map i.tokenLine ∧
      (i.printTokens (.ofScript events)).complaints = i.errorLines e ∧
      (∃ before, (i.printTokens (.ofScript events)).acts =
        before ++ (i.errorLines e).map .complain) ∧
      ∃ acts s', (i.printTokens (.ofScript events)).acts =
          i.openingActs (.ofSource (.ofScript events)) ++ acts ∧
        i.Runs 0 (.ofSource (.ofScript events)) acts 1 s' ∧
        ∃ k cause, events.call k = .fault cause ∧ cause.isInterrupted = false ∧
          s'.reads = k + 1 := by
  obtain ⟨cause, hending, rfl⟩ := Source.eq_error_of_tokens h
  obtain ⟨acts, s', hsplit, hprinted, hcomplaints, hruns⟩ := i.exists_runs_ofScript events
  have hqueue : (Scanner.ofSource (.ofScript events)).queue = _ :=
    Source.drain_of_failed hending
  obtain ⟨hcode, hlines, ⟨before, hbefore, hnone⟩, hlast⟩ :=
    hruns.of_failed (Scanner.genuine_ofSource _) hqueue rfl fun t ht => Cut.error_of_mem_tokens ht
  refine ⟨_, hqueue, rfl, hcode, hprinted.trans hlines, ?_, ?_, acts, s', hsplit, hcode ▸ hruns, ?_⟩
  · rw [hcomplaints, hbefore, List.filterMap_append, hnone, complaint?_complain, List.nil_append]
  · refine ⟨i.openingActs (.ofSource (.ofScript events)) ++ before, ?_⟩
    rw [hsplit, hbefore, List.append_assoc]
  · -- the report was the last token that was asked for
    generalize List.replicate _ Scanner.Op.next = nexts at hlast
    have hstep : ((Scanner.ofSource (.ofScript events)).after nexts).apply .next =
        (.yielded (some _), s') := congrArg (·.map Scanner.Reply.yielded id) hlast
    have hreport : (((Scanner.ofSource (.ofScript events)).after nexts).apply
        .next).1.first.error.isSome := by
      rw [hstep]
      rfl
    have hleft : (Scanner.ofSource (.ofScript events)).after (nexts ++ [.next]) = s' := by
      rw [Scanner.after_append]
      exact congrArg Prod.snd hstep
    obtain ⟨k, met, hcall, hinterrupted, hreads⟩ :=
      Scanner.exists_call_of_error (by decide) hreport
    exact ⟨k, met, hcall, hinterrupted, hleft ▸ hreads⟩

/-- **What is seen of a run agrees with the tokens of its source.**  If the source cannot be opened,
one line says so.  If it has tokens, each of them is printed on a line of its own, in order.  If it
has an error instead, each token in front of the report is printed; then the user is told the name
of the error, the advice and the place, and nothing else is done or read.  The exit code is zero
only if all went well. -/
theorem run_agrees (i : Invocation) :
    let line := fun t : Token =>
      if i.valuesOnly then t.value
      else s!"{t.position.line}:{t.position.column} {t.kind.name} {Quoted.quote t.value}"
    let text := fun ts : List Token => String.join (ts.map fun t => line t ++ "\n")
    (∀ e : SystemError,
      let o := (Request.run i).outcome fun _ => .error e
      o.exitCode = 1 ∧ o.stdout = "" ∧
        o.complaints = [s!"Error: failed to open {i.sourceName}: {e.message}"]) ∧
    ∀ events : Script,
      let s := Scanner.ofSource (.ofScript events)
      let o := (Request.run i).outcome fun _ => .ok (.ofScript events)
      (∀ ts, (Source.ofScript events).tokens = .ok ts →
        o.exitCode = 0 ∧ o.stdout = text ts ∧ (∀ t ∈ ts, '\n' ∉ (line t).toList) ∧
          o.complaints = []) ∧
      ∀ e, (Source.ofScript events).tokens = .error e →
        ∃ ts t, s.drain.1 = ts ++ [t] ∧ t.error = some e ∧
          o.exitCode = 1 ∧ o.stdout = text ts ∧
          (∀ u ∈ ts, u.error = none ∧ '\n' ∉ (line u).toList) ∧
          o.complaints = [s!"Error: {e.cause.name} ({e.cause.advice.text})",
            s!"-> {i.sourceName}:{e.position.text}"] ∧
          (∃ before, o.acts = before ++ o.complaints.map .complain) ∧
          ∃ acts s', o.acts = i.openingActs s ++ acts ∧ i.Runs 0 s acts 1 s' ∧
            ∃ k cause, events.call k = .fault cause ∧ cause.isInterrupted = false ∧
              s'.reads = k + 1 := by
  intro line text
  have htext : ∀ (o : Outcome) (ts : List Token), o.printed = ts.map i.tokenLine →
      o.stdout = text ts := by
    intro o ts hprinted
    rw [Outcome.stdout_eq, hprinted, List.map_map]
    rfl
  refine ⟨?_, ?_⟩
  · intro e o
    exact ⟨rfl, htext o [] rfl, rfl⟩
  · intro events s o
    refine ⟨?_, ?_⟩
    · intro ts hts
      obtain ⟨hcode, hprinted, hnone⟩ := i.printTokens_of_ok hts
      refine ⟨hcode, htext o ts hprinted, ?_, hnone⟩
      intro t ht
      obtain ⟨-, rfl⟩ := Source.eq_tokens_of_ok hts
      exact i.newline_not_mem_tokenLine ht
    · intro e he
      obtain ⟨t, hdrain, ht, hcode, hprinted, htold, ⟨before, hbefore⟩, hlast⟩ :=
        i.printTokens_of_error he
      have hcomplaints : o.complaints = i.errorLines e := htold
      refine ⟨_, t, hdrain, ht, hcode, htext o _ hprinted, ?_,
        hcomplaints.trans (i.errorLines_eq e), ⟨before, ?_⟩, hlast⟩
      · intro u hu
        exact ⟨Cut.error_of_mem_tokens hu, i.newline_not_mem_tokenLine hu⟩
      · rw [hcomplaints]
        exact hbefore

/-- A file that fails behind an equals sign, which the look behind it notices, and a standard input
that ends with a carriage return. -/
theorem run_agrees_of_lookAhead :
    let i : Invocation := { path? := some "main.src" }
    let events : Script := [.bytes [0x61, 0x0a, 0x3d], .fault (.described .other "disk on fire"),
      .bytes [0x62]]
    let o := (Request.run i).outcome fun _ => .ok (.ofScript events)
    let values := (Request.run { valuesOnly := true }).outcome fun _ =>
      .ok (.ofBytes [0x2b, 0x61, 0x0d])
    (Source.ofScript events).tokens = .error ⟨.sourceRead "disk on fire", ⟨2, 2⟩⟩ ∧
      o.exitCode = 1 ∧ o.stdout = "1:1 Identifier \"a\"\n2:1 Assignment \"=\"\n" ∧
      o.stderr .silent = "Error: SourceRead (Reading the source failed: disk on fire, " ++
        "tokens after this point are missing)\n-> main.src:2:2\n" ∧
      (Source.ofBytes [0x2b, 0x61, 0x0d]).tokens =
        .ok [⟨.operator, ⟨1, 1⟩, "+", none⟩, ⟨.identifier, ⟨1, 2⟩, "a\r", none⟩] ∧
      values.exitCode = 0 ∧ values.stdout = "+\na\r\n" ∧ values.stderr .silent = "" := by
  intro i events o values
  have hquiet : ∀ event, Filter.silent.shows event = false := fun _ => rfl
  have herror : (Source.ofScript events).tokens = .error ⟨.sourceRead "disk on fire", ⟨2, 2⟩⟩ := by
    rw [Source.tokens_of_failed rfl]
    decide +kernel
  have hok : (Source.ofBytes [0x2b, 0x61, 0x0d]).tokens =
      .ok [⟨.operator, ⟨1, 1⟩, "+", none⟩, ⟨.identifier, ⟨1, 2⟩, "a\r", none⟩] := by
    rw [Source.tokens_of_clean rfl]
    decide +kernel
  have hdrain : (Scanner.ofSource (.ofScript events)).drain.1 =
      [⟨.identifier, ⟨1, 1⟩, "a", none⟩, ⟨.assignment, ⟨2, 1⟩, "=", none⟩] ++
        [.failure "disk on fire" ⟨2, 2⟩] := by
    rw [Source.drain_eq]
    decide +kernel
  obtain ⟨ts, t, hsplit, -, hcode, hstdout, -, hcomplaints, -⟩ :=
    ((run_agrees i).2 events).2 _ herror
  obtain ⟨hcode', hstdout', -, hcomplaints'⟩ :=
    ((run_agrees { valuesOnly := true }).2 [.bytes [0x2b, 0x61, 0x0d]]).1 _ hok
  obtain ⟨rfl, -⟩ := List.append_inj' (hdrain.symm.trans hsplit) rfl
  refine ⟨herror, hcode, hstdout.trans (by decide +kernel), ?_, hok, hcode',
    hstdout'.trans (by decide +kernel), ?_⟩
  · rw [Outcome.stderr_of_quiet hquiet, hcomplaints]
    decide +kernel
  · have hnone : values.complaints = [] := hcomplaints'
    rw [Outcome.stderr_of_quiet hquiet, hnone]
    rfl

end Invocation

end TokenStream
