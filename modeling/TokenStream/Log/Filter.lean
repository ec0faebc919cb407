/-
Which events are shown, and how that is written.

A *filter* decides about every event whether it is shown.  Filters are written as texts, and reading
such a text is not the business of this program but of the library that keeps its log.  The program
is given a **reader** for filters, which can accept a text, refuse it, or come to no answer at all.
It asks the reader for the filter that the surroundings set and, if that is refused, for the one
that it writes itself, from the level of the command line.

Three things are said of a reader, each under its own name.  Every text gets an answer
(`FilterReader.Returns`); there is no filter where none is set (`FilterReader.RefusesUnset`); and a
text of directives between commas is understood as those directives (`FilterReader.Selects`).  A
directive is a level for the events whose target begins with a given text, or for all events, and
**of the directives about an event the one with the longest target decides**.

* `Filter`, `Directive`, `Filter.Follows` — filters, directives, and filters given by directives;
* `Directive.Writes` — the written form of a directive;
* `FilterReader`, with what is said of one;
* `Filter.standardText`, `FilterReader.initial` — the filter that the program writes itself, and the
  filter of a run.
-/

import TokenStream.Log.Event

set_option relaxedAutoImplicit false
set_option autoImplicit false

namespace TokenStream

/-- Whether an event is shown. -/
structure Filter where
  shows : Event → Bool

/-- A filter that shows nothing. -/
def Filter.silent : Filter := ⟨fun _ => false⟩

/-- The most verbose level that is shown of the events whose target begins with the given text. -/
structure Directive where
  /-- The beginning of the target; all targets begin with the empty text. -/
  target : String := ""
  level : Level
  deriving DecidableEq, Repr

namespace Directive

/-- The directive is about the event. -/
def Covers (d : Directive) (e : Event) : Prop := d.target.toList <+: e.target.toList

instance (d : Directive) (e : Event) : Decidable (d.Covers e) :=
  inferInstanceAs (Decidable (d.target.toList <+: e.target.toList))

/-- Whether a character can stand in a written target. -/
def isNamePart (c : Char) : Bool := c.isAlphanum || c == '_' || c == ':'

/-- The text is a written form of the directive: a level on its own, or behind a target. -/
inductive Writes : Directive → String → Prop
  | all {level : Level} {word : String} (h : Level.ofName? word = some level) :
      Writes { level } word
  | under {target : String} {level : Level} {word : String} (htarget : target ≠ "")
      (hname : target.toList.all isNamePart = true) (h : Level.ofName? word = some level) :
      Writes { target, level } (target ++ "=" ++ word)

/-- The directive is about the event, and of those that are, none has a longer target. -/
def Decides (d : Directive) (ds : List Directive) (e : Event) : Prop :=
  d.Covers e ∧ ∀ d' ∈ ds, d'.Covers e → d'.target.length ≤ d.target.length

instance (d : Directive) (ds : List Directive) (e : Event) : Decidable (d.Decides ds e) :=
  inferInstanceAs (Decidable (_ ∧ _))

end Directive

namespace Filter

/-- An event is shown if the directive that decides about it has a level that is verbose enough; an
event that no directive is about is not shown. -/
def Follows (f : Filter) (ds : List Directive) : Prop :=
  ∀ e : Event, f.shows e = true ↔ ∃ d ∈ ds, d.Decides ds e ∧ e.level.rank ≤ d.level.rank

/-- The filter that the program writes itself: the library shows its events up to `level`,
everything else its warnings. -/
def standardText (level : Level) : String := s!"tokenizer={level.name},warn"

end Filter

/-! ### Readers -/

/-- What comes of reading the filter that the surroundings set. -/
inductive Reading where
  | accepted (filter : Filter)
  | refused
  /-- There is no answer. -/
  | aborted

/-- What reads filters. -/
structure FilterReader where
  /-- Reads the filter that the surroundings set, if they set one. -/
  ofSetting : Option String → Reading
  /-- Reads a text, without what cannot be read of it; `none` if there is no answer. -/
  ofText : String → Option Filter

namespace FilterReader

/-- Every setting gets an answer. -/
def Returns (r : FilterReader) : Prop := ∀ setting?, r.ofSetting setting? ≠ .aborted

/-- Where no filter is set, none is read. -/
def RefusesUnset (r : FilterReader) : Prop := r.ofSetting none = .refused

/-- A text of directives with different targets, between commas, is read as these directives. -/
def Selects (r : FilterReader) : Prop :=
  ∀ written : List (Directive × String), written ≠ [] → (written.map (·.1.target)).Nodup →
    (∀ entry ∈ written, entry.1.Writes entry.2) →
      ∃ f, r.ofText (",".intercalate (written.map (·.2))) = some f ∧
        f.Follows (written.map (·.1))

/-- The filter of a run: the one that is set, or the program's own if that is refused. -/
def initial (r : FilterReader) (setting? : Option String) (level : Level) : Option Filter :=
  match r.ofSetting setting? with
  | .accepted f => some f
  | .refused => r.ofText (Filter.standardText level)
  | .aborted => none

end FilterReader

end TokenStream
