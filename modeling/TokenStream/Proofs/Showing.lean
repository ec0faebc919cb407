/-
The log only adds lines.

A filter is asked about every event while the run goes on, and what it says decides whether a line
is written.  **It decides nothing else.**  Two runs over the same source that print alike write to
their consoles in step: after every act their outputs are the same, and so are the lines beside them
that are not of the log, whatever their filters say about the events.  In the end they have the same
exit code.

Where no filter is set, or the one that is set is refused, the program writes the filter itself,
from the level of the command line.  A higher level then shows more events in the same places, and
shows none less.  The level only concerns targets that begin with the name of the library.  The
program itself has another name, though that one begins like it, and stays at its warnings.

* `Act.event?`, `Outcome.shown`, `Outcome.log` — the events of an outcome that a filter shows;
* `Invocation.performRun_rel` — **what holds in step with every act holds of two whole runs**;
* `Invocation.performRun_congr` — what a run does not depend on;
* `Console.Matches`, `Console.Matches.perform` — consoles that are the same but for the log, and one
  act on them;
* `Console.sublist_perform` — one act under a filter that lets more through;
* `Invocation.runOn_eq` — what is on the console is what can be seen of the outcome;
* `FilterReader.Selects.exists_standard`, `Filter.Follows.shows_standard_iff` — the filter that the
  program writes itself;
* `FilterReader.plain` — a reader for plain lists of directives;
* `Invocation.logging_is_free` — **what logging can change**.
-/

import TokenStream.Command.Console
import TokenStream.Proofs.Printing

set_option relaxedAutoImplicit false
set_option autoImplicit false

namespace TokenStream

/-! ### What a filter shows of an outcome -/

namespace Act

/-- Whether an act shows on the side of the output, under a filter. -/
def isShown (f : Filter) : Act → Bool
  | print _ => false
  | complain _ => true
  | log event => f.shows event

/-- The event of an act. -/
def event? : Act → Option Event
  | log event => some event
  | _ => none

end Act

namespace Outcome

/-- The acts that show on the side of the output, under a filter. -/
def shown (o : Outcome) (f : Filter) : List Act := o.acts.filter (Act.isShown f)

/-- The events that a filter shows. -/
def log (o : Outcome) (f : Filter) : List Event := (o.shown f).filterMap Act.event?

/-- The events that are shown are those of the acts that the filter lets through. -/
theorem log_eq (o : Outcome) (f : Filter) :
    o.log f = (o.acts.filterMap Act.event?).filter f.shows := by
  rw [log, shown, List.filterMap_filter, List.filter_filterMap]
  refine List.filterMap_congr ?_
  intro act _
  cases act with
  | print line | complain line => rfl
  | log event => rfl

end Outcome

/-! ### What acts add to a console -/

/-- The notice that an act leaves on a console. -/
def Act.notice? (f : Filter) : Act → Option Notice
  | print _ => none
  | complain line => some (.problem line)
  | log event => if f.shows event then some (.logged event) else none

/-- The event of a notice. -/
def Notice.event? : Notice → Option Event
  | problem _ => none
  | logged event => some event

/-- A problem is noticed under every filter. -/
theorem Act.problem?_notice? (f : Filter) (act : Act) :
    (act.notice? f).bind Notice.problem? = act.complaint? := by
  cases act with
  | print line | complain line => rfl
  | log event =>
      rw [notice?]
      split <;> rfl

/-- An event is noticed if the filter shows it. -/
theorem Act.event?_notice? (f : Filter) (act : Act) :
    (act.notice? f).bind Notice.event? = act.event?.filter f.shows := by
  cases act with
  | print line | complain line => rfl
  | log event =>
      rw [notice?, event?]
      split
      · rename_i hshows
        exact (Option.filter_some_pos hshows).symm
      · rename_i hhidden
        exact (Option.filter_some_neg (Bool.eq_false_iff.2 hhidden)).symm

/-- What is written on the side of the output are the lines of the notices. -/
theorem Outcome.stderr_eq (o : Outcome) (f : Filter) :
    o.stderr f = String.join
      ((o.acts.filterMap (Act.notice? f)).map fun notice => notice.line ++ "\n") := by
  have hlines : (o.acts.filterMap (Act.notice? f)).map (fun notice => notice.line ++ "\n") =
      (o.acts.filterMap fun act => (act.notice? f).map Notice.line).map (· ++ "\n") := by
    rw [← List.map_filterMap, List.map_map]
    rfl
  rw [hlines, ← join_map_elim, stderr]
  congr 2
  funext act
  cases act with
  | print line | complain line => rfl
  | log event => cases hshows : f.shows event <;> simp [Act.notice?, hshows, Notice.line]

namespace Console

variable {c c' : Console} {f f' : Filter}

/-- **An act adds its line to the output**, whatever the filter says. -/
theorem stdout_perform (f : Filter) (c : Console) (act : Act) :
    (c.perform f act).stdout = c.stdout ++ act.printed?.elim "" (· ++ "\n") := by
  cases act with
  | print line => rfl
  | complain line => exact String.append_empty.symm
  | log event =>
      rw [perform]
      split <;> exact String.append_empty.symm

/-- **An act adds its notice**, if it leaves one. -/
theorem notices_perform (f : Filter) (c : Console) (act : Act) :
    (c.perform f act).notices.toList = c.notices.toList ++ (act.notice? f).toList := by
  cases act with
  | print line => exact (List.append_nil _).symm
  | complain line => exact Array.toList_push
  | log event =>
      rw [perform, Act.notice?]
      split
      · exact Array.toList_push
      · exact (List.append_nil _).symm

theorem stdout_foldl (f : Filter) (acts : List Act) (c : Console) :
    (acts.foldl (perform f) c).stdout =
      c.stdout ++ String.join (acts.map fun act => act.printed?.elim "" (· ++ "\n")) := by
  induction acts generalizing c with
  | nil => exact String.append_empty.symm
  | cons act acts ih =>
      rw [List.foldl_cons, ih, stdout_perform, List.map_cons, String.join_cons,
        String.append_assoc]

theorem notices_foldl (f : Filter) (acts : List Act) (c : Console) :
    (acts.foldl (perform f) c).notices.toList =
      c.notices.toList ++ acts.filterMap (Act.notice? f) := by
  induction acts generalizing c with
  | nil => exact (List.append_nil _).symm
  | cons act acts ih =>
      rw [List.foldl_cons, ih, notices_perform, List.append_assoc]
      cases hnotice : act.notice? f with
      | none => rw [List.filterMap_cons_none hnotice]; rfl
      | some notice => rw [List.filterMap_cons_some hnotice]; rfl

/-! ### Consoles in step -/

/-- The same has been written on both consoles, the log apart. -/
structure Matches (c c' : Console) : Prop where
  stdout_eq : c.stdout = c'.stdout
  problems_eq : c.problems = c'.problems

theorem problems_perform (f : Filter) (c : Console) (act : Act) :
    (c.perform f act).problems = c.problems ++ act.complaint?.toList := by
  rw [problems, problems, notices_perform, List.filterMap_append, ← Act.problem?_notice? f]
  cases act.notice? f with
  | none => rfl
  | some notice => cases notice <;> rfl

/-- **One act, under any two filters**, on consoles that are the same but for the log. -/
theorem Matches.perform (h : c.Matches c') (f f' : Filter) (act : Act) :
    (c.perform f act).Matches (c'.perform f' act) where
  stdout_eq := by rw [stdout_perform, stdout_perform, h.stdout_eq]
  problems_eq := by rw [problems_perform, problems_perform, h.problems_eq]

/-- **One act, under a filter and one that lets more through**, on consoles of which the second
shows more. -/
theorem sublist_perform (hf : ∀ event, f.shows event = true → f'.shows event = true)
    (h : c.notices.toList.Sublist c'.notices.toList) (act : Act) :
    (c.perform f act).notices.toList.Sublist (c'.perform f' act).notices.toList := by
  rw [notices_perform, notices_perform]
  refine h.append ?_
  cases act with
  | print line | complain line => exact List.Sublist.refl _
  | log event =>
      rw [Act.notice?, Act.notice?]
      split
      · rename_i hshows
        rw [if_pos (hf event hshows)]
      · exact List.nil_sublist _

end Console

/-! ### Runs in step -/

namespace Invocation

section

variable {σ τ : Type} (perform : σ → Act → σ)

/-- A run performs the acts of its outcome, in order. -/
theorem performRun_eq (i : Invocation) (state : σ) (source : Except SystemError Source) :
    i.performRun perform state source =
      ((i.run source).acts.foldl perform state, (i.run source).exitCode) := by
  cases source with
  | error e => rfl
  | ok source =>
      obtain ⟨acts, code, -, -, hperform⟩ := i.exists_runs 0 (.ofSource source)
      simp [run, performRun, hperform]

variable {perform} {perform' : τ → Act → τ} {R : σ → τ → Prop}

/-- **What is kept up by every act is kept up by a run**, and the exit code does not depend on how
acts are performed. -/
theorem performRun_rel (hstep : ∀ {a b} (act : Act), R a b → R (perform a act) (perform' b act))
    {a : σ} {b : τ} (h : R a b) (i : Invocation) (source : Except SystemError Source) :
    R (i.performRun perform a source).1 (i.performRun perform' b source).1 ∧
      (i.performRun perform a source).2 = (i.performRun perform' b source).2 := by
  rw [performRun_eq, performRun_eq]
  exact ⟨List.foldl_rel h fun act _ a b => hstep act, rfl⟩

end

section

variable {i i' : Invocation} {σ : Type} (perform : σ → Act → σ)

theorem turn_congr (hname : i.sourceName = i'.sourceName) (hline : i.tokenLine = i'.tokenLine) :
    i.turn = i'.turn := by
  funext count s
  simp only [turn, errorLines, hname, hline]

theorem performOnto_congr (h : i.turn = i'.turn) (count : Nat) (state : σ) (s : Scanner) :
    i.performOnto perform count state s = i'.performOnto perform count state s := by
  fun_induction performOnto perform i count state s with
  | case1 count state s acts code s' hturn => rw [performOnto_of_end perform state (h ▸ hturn)]
  | case2 count state s acts s' hturn ih => rw [ih, performOnto_of_token perform state (h ▸ hturn)]

/-- A run depends on what is read and on what is printed for a token, and on nothing else that was
asked for. -/
theorem performRun_congr (hpath : i.path? = i'.path?) (hvalues : i.valuesOnly = i'.valuesOnly)
    (state : σ) (source : Except SystemError Source) :
    i.performRun perform state source = i'.performRun perform state source := by
  have hname : i.sourceName = i'.sourceName := congrArg (·.getD "<stdin>") hpath
  have hline : i.tokenLine = i'.tokenLine := by
    funext t
    rw [tokenLine, tokenLine, hvalues]
  cases source with
  | error e => rw [performRun, performRun, hname]
  | ok source =>
      rw [performRun, performRun, openingActs, openingActs, hname,
        performOnto_congr perform (turn_congr hname hline)]

end

/-- **What is on the console in the end is what can be seen of the outcome.** -/
theorem runOn_eq (i : Invocation) (f : Filter) (source : Except SystemError Source) :
    (i.runOn f source).1.stdout = (i.run source).stdout ∧
      (i.runOn f source).1.stderr = (i.run source).stderr f ∧
      (i.runOn f source).1.problems = (i.run source).complaints ∧
      (i.runOn f source).1.notices.toList.filterMap Notice.event? = (i.run source).log f ∧
      (i.runOn f source).2 = (i.run source).exitCode := by
  have hnotices : (i.runOn f source).1.notices.toList =
      (i.run source).acts.filterMap (Act.notice? f) := by
    rw [runOn, performRun_eq, Console.notices_foldl]
    rfl
  refine ⟨?_, ?_, ?_, ?_, ?_⟩
  · rw [runOn, performRun_eq, Console.stdout_foldl, Outcome.join_map_elim, Outcome.stdout_eq]
    exact String.empty_append
  · rw [Console.stderr, hnotices, Outcome.stderr_eq]
  · rw [Console.problems, hnotices, List.filterMap_filterMap, Outcome.complaints]
    exact List.filterMap_congr fun act _ => act.problem?_notice? f
  · rw [hnotices, List.filterMap_filterMap, Outcome.log_eq, List.filter_filterMap]
    exact List.filterMap_congr fun act _ => act.event?_notice? f
  · rw [runOn, performRun_eq]

end Invocation

/-! ### The filter that the program writes itself -/

/-- The program writes two directives, one for the library and one for all events. -/
theorem FilterReader.Selects.exists_standard {r : FilterReader} (h : r.Selects) (level : Level) :
    ∃ f, r.ofText (Filter.standardText level) = some f ∧
      f.Follows [{ target := "tokenizer", level }, { level := .warn }] := by
  have htext : Filter.standardText level =
      ",".intercalate ["tokenizer" ++ "=" ++ level.name, "warn"] := by
    cases level <;> rfl
  rw [htext]
  refine h [({ target := "tokenizer", level }, "tokenizer" ++ "=" ++ level.name),
    ({ level := .warn }, "warn")] (by simp) (show ["tokenizer", ""].Nodup by decide) ?_
  intro entry hentry
  rcases List.mem_pair.1 hentry with rfl | rfl
  · exact .under (by decide) (by decide +kernel) level.ofName?_name
  · exact .all (by decide +kernel)

/-- Where one directive decides, its level does. -/
theorem Filter.Follows.shows_iff {f : Filter} {ds : List Directive} {d : Directive} {event : Event}
    (h : f.Follows ds) (hd : d ∈ ds) (hdecides : d.Decides ds event)
    (hunique : ∀ d' ∈ ds, d'.Decides ds event → d' = d) :
    f.shows event = true ↔ event.level.rank ≤ d.level.rank := by
  rw [h event]
  constructor
  · rintro ⟨d', hd', hdecides', hlevel⟩
    rwa [← hunique d' hd' hdecides']
  · intro hlevel
    exact ⟨d, hd, hdecides, hlevel⟩

/-- The level decides about the events of the library, and nothing but warnings is shown of all
else. -/
theorem Filter.Follows.shows_standard_iff {f : Filter} {level : Level}
    (h : f.Follows [{ target := "tokenizer", level }, { level := .warn }]) (event : Event) :
    f.shows event = true ↔
      event.level.rank ≤
        (if "tokenizer".toList <+: event.target.toList then level else Level.warn).rank := by
  have hall : Directive.Covers { level := .warn } event := List.nil_prefix
  split
  · rename_i hlibrary
    -- both directives are about the event, and the one for the library has the longer target
    refine h.shows_iff List.mem_cons_self ⟨hlibrary, ?_⟩ ?_
    · exact List.forall_mem_cons.2
        ⟨fun _ => Nat.le_refl _, List.forall_mem_singleton.2 fun _ => Nat.zero_le _⟩
    · refine List.forall_mem_cons.2 ⟨fun _ => rfl, List.forall_mem_singleton.2 fun hdecides => ?_⟩
      exact absurd (hdecides.2 _ List.mem_cons_self hlibrary)
        (show ¬ "tokenizer".length ≤ "".length by decide)
  · rename_i hother
    refine h.shows_iff (List.mem_cons_of_mem _ List.mem_cons_self) ⟨hall, ?_⟩ ?_
    · refine List.forall_mem_cons.2 ⟨fun hcovers => absurd hcovers hother, ?_⟩
      exact List.forall_mem_singleton.2 fun _ => Nat.le_refl _
    · refine List.forall_mem_cons.2 ⟨fun hdecides => absurd hdecides.1 hother, ?_⟩
      exact List.forall_mem_singleton.2 fun _ => rfl

/-- A higher level shows all that a lower one shows. -/
theorem Filter.Follows.shows_mono {f f' : Filter} {level level' : Level}
    (h : f.Follows [{ target := "tokenizer", level }, { level := .warn }])
    (h' : f'.Follows [{ target := "tokenizer", level := level' }, { level := .warn }])
    (hlevel : level.rank ≤ level'.rank) (event : Event) (hshows : f.shows event = true) :
    f'.shows event = true := by
  rw [h.shows_standard_iff] at hshows
  rw [h'.shows_standard_iff]
  split at hshows
  · rename_i hlibrary
    rw [if_pos hlibrary]
    exact Nat.le_trans hshows hlevel
  · rename_i hother
    rwa [if_neg hother]

/-- What the program itself says for information only is not shown, be the level what it may. -/
theorem Filter.Follows.hides_info {f : Filter} {level : Level}
    (h : f.Follows [{ target := "tokenizer", level }, { level := .warn }]) {event : Event}
    (htarget : event.target = "tokenize") (hinfo : event.level = .info) :
    f.shows event = false := by
  rw [← Bool.not_eq_true, h.shows_standard_iff, htarget, hinfo]
  -- the name of the library is longer than the name of the program
  rw [if_neg (by decide)]
  decide

/-! ### What logging can change -/

/-- A run gets its filter: the one that is set, or, if none is or it is refused, the one that the
program writes. -/
theorem FilterReader.exists_initial {r : FilterReader} (hreturns : r.Returns)
    (hunset : r.RefusesUnset) (hselects : r.Selects) (setting? : Option String) (level : Level) :
    ∃ f, r.initial setting? level = some f ∧
      (setting? = none ∨ r.ofSetting setting? = .refused →
        f.Follows [{ target := "tokenizer", level }, { level := .warn }]) := by
  obtain ⟨standard, hstandard, hfollows⟩ := hselects.exists_standard level
  cases hreading : r.ofSetting setting? with
  | accepted f =>
      refine ⟨f, by rw [initial, hreading], ?_⟩
      rintro (rfl | hrefused)
      · exact nomatch hreading.symm.trans hunset
      · exact nomatch hrefused
  | refused => exact ⟨standard, by rw [initial, hreading, hstandard], fun _ => hfollows⟩
  | aborted => exact absurd hreading (hreturns setting?)

/-! ### A reader for plain lists -/

/-- Reads a directive: a level, or a target and a level with an equals sign between them. -/
def Directive.ofChars? (cs : List Char) : Option Directive :=
  match cs.splitOn '=' with
  | [word] => (Level.ofName? (String.ofList word)).map fun level => { level }
  | [target, word] =>
      if target ≠ [] ∧ target.all isNamePart then
        (Level.ofName? (String.ofList word)).map fun level =>
          { target := String.ofList target, level }
      else none
  | _ => none

/-- A filter that follows directives. -/
def Filter.ofDirectives (ds : List Directive) : Filter :=
  ⟨fun event => decide (∃ d ∈ ds, d.Decides ds event ∧ event.level.rank ≤ d.level.rank)⟩

theorem Filter.follows_ofDirectives (ds : List Directive) : (ofDirectives ds).Follows ds :=
  fun _ => decide_eq_true_iff

/-- A reader that knows nothing but plain lists of directives. -/
def FilterReader.plain : FilterReader where
  ofSetting setting? :=
    match setting?.bind fun text => (text.toList.splitOn ',').mapM Directive.ofChars? with
    | some ds => .accepted (.ofDirectives ds)
    | none => .refused
  ofText text := some (.ofDirectives ((text.toList.splitOn ',').filterMap Directive.ofChars?))

/-- The words for the levels consist of letters. -/
theorem Level.not_mem_of_ofName? {word : String} {level : Level} (h : ofName? word = some level)
    {mark : Char} (hmark : mark = ',' ∨ mark = '=') : mark ∉ word.toList := by
  intro hmem
  have hlower : mark ∈ word.toLower.toList := by
    change mark ∈ (word.map Char.toLower).toList
    rw [String.toList_map]
    refine List.mem_map.2 ⟨mark, hmem, ?_⟩
    rcases hmark with rfl | rfl <;> rfl
  unfold ofName? at h
  split at h <;> first
    | contradiction
    | rename_i hname
      rw [hname] at hlower
      rcases hmark with rfl | rfl <;> exact absurd hlower (by decide)

namespace Directive

variable {d : Directive} {text : String}

theorem Writes.not_mem_comma (h : d.Writes text) : ',' ∉ text.toList := by
  cases h with
  | all h => exact Level.not_mem_of_ofName? h (.inl rfl)
  | under htarget hname h =>
      rw [String.toList_append, String.toList_append, List.mem_append, List.mem_append]
      rintro ((hmem | hmem) | hmem)
      · exact absurd (List.all_eq_true.1 hname _ hmem) (by decide)
      · exact absurd hmem (by decide)
      · exact Level.not_mem_of_ofName? h (.inl rfl) hmem

/-- A written directive is read back. -/
theorem Writes.ofChars? (h : d.Writes text) : Directive.ofChars? text.toList = some d := by
  cases h with
  | all h =>
      have hmark : ∀ cs ∈ [text.toList], '=' ∉ cs :=
        List.forall_mem_singleton.2 (Level.not_mem_of_ofName? h (.inr rfl))
      have hsplit := List.splitOn_intercalate '=' hmark (List.cons_ne_nil _ _)
      rw [List.intercalate_singleton] at hsplit
      rw [Directive.ofChars?, hsplit]
      simp [h]
  | @under target level word htarget hname h =>
      have hmark : ∀ cs ∈ [target.toList, word.toList], '=' ∉ cs := by
        refine List.forall_mem_cons.2 ⟨?_, List.forall_mem_singleton.2 ?_⟩
        · exact fun hmem => absurd (List.all_eq_true.1 hname _ hmem) (by decide)
        · exact Level.not_mem_of_ofName? h (.inr rfl)
      have htext : (target ++ "=" ++ word).toList =
          ['='].intercalate [target.toList, word.toList] := by
        simp
      rw [Directive.ofChars?, htext, List.splitOn_intercalate '=' hmark (List.cons_ne_nil _ _)]
      simp only [String.ofList_toList]
      rw [if_pos ⟨by simpa using htarget, hname⟩, h, Option.map_some]

end Directive

namespace FilterReader

theorem plain_returns : plain.Returns := by
  intro setting?
  rw [plain]
  dsimp only
  split <;> exact nofun

theorem plain_refusesUnset : plain.RefusesUnset := rfl

theorem plain_selects : plain.Selects := by
  intro written hne _ hwrites
  have hmark : ∀ cs ∈ written.map (·.2.toList), ',' ∉ cs := by
    intro cs hcs
    obtain ⟨entry, hentry, rfl⟩ := List.mem_map.1 hcs
    exact (hwrites entry hentry).not_mem_comma
  have htext : (",".intercalate (written.map (·.2))).toList =
      [','].intercalate (written.map (·.2.toList)) := by
    rw [String.toList_intercalate, List.map_map]
    rfl
  have hread : (written.map (·.2.toList)).filterMap Directive.ofChars? = written.map (·.1) := by
    rw [List.filterMap_map]
    exact List.filterMap_eq_map_iff_forall_eq_some.2 fun entry hentry =>
      (hwrites entry hentry).ofChars?
  refine ⟨.ofDirectives (written.map (·.1)), ?_, Filter.follows_ofDirectives _⟩
  rw [plain]
  dsimp only
  rw [htext, List.splitOn_intercalate ',' hmark (by simpa using hne), hread]

end FilterReader

namespace Invocation

/-- **Logging changes nothing but the log.**  For runs over the same source that print alike,
neither the level nor the setting of a filter makes a difference for the exit code, for what is
printed or for the lines beside it that are not of the log.  If the filter is not set, or is
refused, a higher level shows all that a lower one shows, in the same order, and no level shows what
the program itself says for information only. -/
theorem logging_is_free {reader : FilterReader} (hreturns : reader.Returns)
    (hunset : reader.RefusesUnset) (hselects : reader.Selects) {i i' : Invocation}
    (hpath : i.path? = i'.path?) (hvalues : i.valuesOnly = i'.valuesOnly)
    (source : Except SystemError Source) (setting? setting?' : Option String) :
    ∃ (c c' : Console) (exitCode : Nat),
      (Request.run i).execute reader setting? (fun _ => source) = some (c, exitCode) ∧
      (Request.run i').execute reader setting?' (fun _ => source) = some (c', exitCode) ∧
      c.stdout = c'.stdout ∧ c.problems = c'.problems ∧
      (setting? = none ∨ reader.ofSetting setting? = .refused →
        setting?' = none ∨ reader.ofSetting setting?' = .refused →
        (i.level.rank ≤ i'.level.rank → c.notices.toList.Sublist c'.notices.toList) ∧
        ∀ event, .logged event ∈ c.notices →
          ¬(event.target = "tokenize" ∧ event.level = .info)) := by
  obtain ⟨f, hf, hstandard⟩ := reader.exists_initial hreturns hunset hselects setting? i.level
  obtain ⟨f', hf', hstandard'⟩ := reader.exists_initial hreturns hunset hselects setting?' i'.level
  -- the second run is a run of the first invocation, under the filter of the second one
  have hcongr : i'.runOn f' source = i.runOn f' source :=
    (performRun_congr (Console.perform f') hpath hvalues {} source).symm
  obtain ⟨hmatches, hcode⟩ := performRun_rel (R := Console.Matches)
    (fun act h => h.perform f f' act) ⟨rfl, rfl⟩ i source
  refine ⟨(i.runOn f source).1, (i.runOn f' source).1, (i.runOn f source).2, ?_, ?_,
    hmatches.stdout_eq, hmatches.problems_eq, ?_⟩
  · rw [Request.execute, hf, Option.map_some]
  · rw [Request.execute, hf', Option.map_some, hcongr]
    exact congrArg some (Prod.ext rfl hcode.symm)
  · intro hset hset'
    refine ⟨?_, ?_⟩
    · intro hlevel
      have hmore := (hstandard hset).shows_mono (hstandard' hset') hlevel
      exact (performRun_rel (R := fun c c' : Console => c.notices.toList.Sublist c'.notices.toList)
        (fun act h => Console.sublist_perform hmore h act) (.refl _) i source).1
    · rintro event hmem ⟨htarget, hinfo⟩
      have hlog := (i.runOn_eq f source).2.2.2.1
      have hevent : event ∈ (i.run source).log f :=
        hlog ▸ List.mem_filterMap.2 ⟨_, hmem.val, rfl⟩
      rw [Outcome.log_eq, List.mem_filter,
        (hstandard hset).hides_info htarget hinfo] at hevent
      exact nomatch hevent.2

/-- A failing file, read with the lowest level that shows the failure and with the highest one,
where one filter is not set and the other one is refused. -/
theorem logging_is_free_of_refused :
    let reader := FilterReader.plain
    let i : Invocation := { path? := some "main.src", level := .warn }
    let i' : Invocation := { path? := some "main.src", level := .trace }
    let events : Script := [.bytes [0x61, 0x0a, 0x3d], .fault (.described .other "disk on fire")]
    reader.Returns ∧ reader.RefusesUnset ∧ reader.Selects ∧
      i.path? = i'.path? ∧ i.valuesOnly = i'.valuesOnly ∧
      reader.ofSetting (some "]") = .refused ∧ i.level.rank ≤ i'.level.rank ∧
      ∃ (c c' : Console) (exitCode : Nat),
        (Request.run i).execute reader none (fun _ => .ok (.ofScript events)) =
          some (c, exitCode) ∧
        (Request.run i').execute reader (some "]") (fun _ => .ok (.ofScript events)) =
          some (c', exitCode) ∧
        exitCode = 1 ∧ c.stdout = c'.stdout ∧ c.problems = c'.problems ∧
        c.problems = ["Error: SourceRead (Reading the source failed: disk on fire, " ++
          "tokens after this point are missing)", "-> main.src:2:2"] ∧
        c.notices.toList.Sublist c'.notices.toList ∧
        ∀ event, .logged event ∈ c.notices →
          ¬(event.target = "tokenize" ∧ event.level = .info) := by
  intro reader i i' events
  have hrefused : reader.ofSetting (some "]") = .refused := by
    have hread : ("]".toList.splitOn ',').mapM Directive.ofChars? = none := by decide +kernel
    simp only [reader, FilterReader.plain, Option.bind_some, hread]
  have herror : (Source.ofScript events).tokens = .error ⟨.sourceRead "disk on fire", ⟨2, 2⟩⟩ := by
    rw [Source.tokens_of_failed rfl]
    decide +kernel
  obtain ⟨-, -, -, hcode, -, htold, -⟩ := i.printTokens_of_error herror
  obtain ⟨c, c', exitCode, hrun, hrun', hstdout, hproblems, hlog⟩ :=
    logging_is_free FilterReader.plain_returns FilterReader.plain_refusesUnset
      FilterReader.plain_selects (show i.path? = i'.path? from rfl)
      (show i.valuesOnly = i'.valuesOnly from rfl) (.ok (.ofScript events)) none (some "]")
  obtain ⟨hsublist, hquiet⟩ := hlog (.inl rfl) (.inr hrefused)
  obtain ⟨f, -, hon⟩ : ∃ f, reader.initial none i.level = some f ∧
      i.runOn f (.ok (.ofScript events)) = (c, exitCode) :=
    Option.map_eq_some_iff.1 hrun
  obtain ⟨-, -, htold', -, hcode'⟩ := i.runOn_eq f (.ok (.ofScript events))
  rw [hon] at htold' hcode'
  exact ⟨FilterReader.plain_returns, FilterReader.plain_refusesUnset, FilterReader.plain_selects,
    rfl, rfl, hrefused, by decide, c, c', exitCode, hrun, hrun', hcode'.trans hcode, hstdout,
    hproblems, htold'.trans (htold.trans (by decide +kernel)), hsublist (by decide), hquiet⟩

end Invocation

end TokenStream
