/-
Values that are read again.

A run that prints values only prints a line for each token, and nothing on it tells the kind or the
place of the token.  The kind is not lost.  **A value on a line of its own is one token again, of the
same kind**: the line break behind it is a blank, before which every token may end, and no token
goes on behind a blank.  That goes for words with symbols or carriage returns in them, and for the
symbols that touched each other before.

So the output of such a run is a text whose tokens are those of the run, the first of them on the
first line, and so on, each in the first column.  A run over that text prints it again.

* `Outcome.textOf`, `Outcome.toList_stdout` — what is printed, as a text of lines;
* `Cut.tokens_lines`, `Source.tokens_of_lines` — **the tokens of values on lines**;
* `Invocation.exitCode_eq_zero_iff`, `Invocation.toList_stdout_of_ok` — runs that go well;
* `Invocation.values_reread` — **what a run prints, read again**.
-/

import TokenStream.Proofs.Printing
import TokenStream.Proofs.Recoding

set_option relaxedAutoImplicit false
set_option autoImplicit false

namespace TokenStream

/-! ### Lines -/

namespace Outcome

/-- The text of lines, each of which is ended by a line break. -/
def textOf (lines : List String) : List Char := lines.flatMap fun line => line.toList ++ ['\n']

@[simp] theorem textOf_nil : textOf [] = [] := rfl

@[simp] theorem textOf_cons (line : String) (lines : List String) :
    textOf (line :: lines) = line.toList ++ '\n' :: textOf lines := by
  rw [textOf, List.flatMap_cons, List.append_assoc]
  rfl

/-- What is printed is a text of lines. -/
theorem toList_stdout (o : Outcome) : o.stdout.toList = textOf o.printed := by
  rw [stdout_eq, String.toList_join, List.flatMap_map, textOf]
  simp

end Outcome

/-! ### Values on lines -/

/-- Tokens one below the other, in the first column. -/
def Token.stacked (line : Nat) (ts : List Token) : List Token :=
  ts.mapIdx fun k t => { t with position := ⟨line + k, 1⟩ }

@[simp] theorem Token.stacked_cons (line : Nat) (t : Token) (ts : List Token) :
    stacked line (t :: ts) = { t with position := ⟨line, 1⟩ } :: stacked (line + 1) ts := by
  simp only [stacked, List.mapIdx_cons, Nat.add_zero, Nat.add_assoc, Nat.add_comm 1]

/-- Stacking moves tokens and leaves their values alone. -/
theorem Token.map_value_stacked (line : Nat) (ts : List Token) :
    (stacked line ts).map (·.value) = ts.map (·.value) := by
  induction ts generalizing line with
  | nil => rfl
  | cons t ts ih => rw [stacked_cons, List.map_cons, List.map_cons, ih]

/-- **Each line holds one token**, the one whose value was written there. -/
theorem Cut.tokens_lines {ts : List Token} (h : ∀ t ∈ ts, t.isProper = true) {line : Nat}
    (hline : 1 ≤ line) :
    tokens ⟨line, 1⟩ (Outcome.textOf (ts.map (·.value))) = Token.stacked line ts := by
  induction ts generalizing line with
  | nil => exact tokens_nil _
  | cons t ts ih =>
      obtain ⟨ht, hts⟩ := List.forall_mem_cons.1 h
      obtain ⟨herror, -, -, hvalue⟩ := Token.isProper_iff.1 ht
      have hproper : Token.isProper { t with position := ⟨line, 1⟩ } = true :=
        Token.isProper_iff.2 ⟨herror, hline, Nat.le_refl 1, hvalue⟩
      have hbreak : isBlank '\n' = true := rfl
      have htoken := tokens_value_append hproper
        (t.kind.endsBefore_blank hbreak (Outcome.textOf (ts.map (·.value))))
      rw [tokens_blank _ _ hbreak] at htoken
      rw [List.map_cons, Outcome.textOf_cons, Token.stacked_cons, ← ih hts (Nat.le_add_left 1 line)]
      exact htoken

/-- A source that ends cleanly with values on lines has their tokens. -/
theorem Source.tokens_of_lines {ts : List Token} (h : ∀ t ∈ ts, t.isProper = true)
    {events : Script} (hclean : events.ending = .clean)
    (hbytes : events.bytes = Utf8.encode (Outcome.textOf (ts.map (·.value)))) :
    (ofScript events).tokens = .ok (Token.stacked 1 ts) := by
  have htokens := Cut.tokens_lines h (Nat.le_refl 1)
  rw [tokens_of_clean (s := ofScript events) hclean, bytes_ofScript, hbytes, Utf8.decode_encode]
  exact congrArg Except.ok htokens

namespace Invocation

variable {i : Invocation} {events : Script}

/-! ### Runs that go well -/

/-- A run over a script goes well exactly if the script ends cleanly. -/
theorem exitCode_eq_zero_iff (i : Invocation) (events : Script) :
    (i.printTokens (.ofScript events)).exitCode = 0 ↔ events.ending = .clean := by
  constructor
  · intro hcode
    cases htokens : (Source.ofScript events).tokens with
    | ok ts => exact (Source.eq_tokens_of_ok htokens).1
    | error e =>
        obtain ⟨-, -, -, hfailed, -⟩ := i.printTokens_of_error htokens
        rw [hfailed] at hcode
        exact nomatch hcode
  · intro hclean
    exact (i.printTokens_of_ok (Source.tokens_of_clean hclean)).1

/-- A run that prints values only prints the values of the tokens. -/
theorem toList_stdout_of_ok (hi : i.valuesOnly = true) {ts : List Token}
    (h : (Source.ofScript events).tokens = .ok ts) :
    (i.printTokens (.ofScript events)).stdout.toList = Outcome.textOf (ts.map (·.value)) := by
  have hline : i.tokenLine = (·.value) := funext fun t => if_pos hi
  rw [Outcome.toList_stdout, (i.printTokens_of_ok h).2.1, hline]

/-- **What a run prints, read again.**  A run that prints values only goes well exactly if its source
ends cleanly.  Then the bytes that it printed, however they are delivered, have the tokens of the
source, with the same kinds and values, one on each line; and a run over them that prints values
only goes well and prints the same. -/
theorem values_reread (hi : i.valuesOnly = true) (events : Script) :
    let o := (Request.run i).outcome fun _ => .ok (.ofScript events)
    (o.exitCode = 0 ↔ events.ending = .clean) ∧
      (o.exitCode = 0 → ∃ ts, (Source.ofScript events).tokens = .ok ts ∧
        ∀ again : Script, again.ending = .clean → again.bytes = o.stdout.toUTF8.data.toList →
          (Source.ofScript again).tokens =
              .ok (ts.mapIdx fun k t => { t with position := ⟨1 + k, 1⟩ }) ∧
            ∀ j : Invocation, j.valuesOnly = true →
              let o' := (Request.run j).outcome fun _ => .ok (.ofScript again)
              o'.exitCode = 0 ∧ o'.stdout = o.stdout) := by
  intro o
  refine ⟨i.exitCode_eq_zero_iff events, ?_⟩
  intro hcode
  have hclean : events.ending = .clean := (i.exitCode_eq_zero_iff events).1 hcode
  have hts : (Source.ofScript events).tokens =
      .ok (Cut.tokens .start (Utf8.decode events.bytes)) := Source.tokens_of_clean hclean
  have hproper := Cut.isProper_of_mem_tokens (p := .start) (Utf8.decode events.bytes)
    (Nat.le_refl 1) (Nat.le_refl 1)
  refine ⟨_, hts, ?_⟩
  intro again hagain hbytes
  have hstdout : o.stdout.toList = _ := toList_stdout_of_ok hi hts
  rw [← Utf8.encode_toList, hstdout] at hbytes
  have htokens := Source.tokens_of_lines hproper hagain hbytes
  refine ⟨htokens, ?_⟩
  intro j hj o'
  refine ⟨(j.exitCode_eq_zero_iff again).2 hagain, ?_⟩
  have hstdout' : o'.stdout.toList = _ := toList_stdout_of_ok hj htokens
  rw [Token.map_value_stacked, ← hstdout] at hstdout'
  exact String.toList_inj.1 hstdout'

/-- Symbols that touched each other, a word with a symbol and a carriage return in it, and one of
malformed bytes. -/
theorem values_reread_of_malformed :
    let i : Invocation := { path? := some "main.src", valuesOnly := true }
    let j : Invocation := { level := .trace, valuesOnly := true }
    let events : Script := [.bytes [0x2b, 0x3d, 0x3d, 0x3d, 0x61, 0x3d, 0x0d],
      .fault (.ofKind .interrupted), .bytes [0x20, 0xe2, 0x82, 0x09, 0x3d]]
    let again : Script := [.bytes [0x2b, 0x0a, 0x3d, 0x3d, 0x0a, 0x3d, 0x0a, 0x61, 0x3d, 0x0d, 0x0a,
      0xef, 0xbf], .bytes [0xbd, 0xef, 0xbf, 0xbd, 0x0a, 0x3d, 0x0a]]
    let o := (Request.run i).outcome fun _ => .ok (.ofScript events)
    let o' := (Request.run j).outcome fun _ => .ok (.ofScript again)
    i.valuesOnly = true ∧ j.valuesOnly = true ∧ o.exitCode = 0 ∧ again.ending = .clean ∧
      o.stdout = "+\n==\n=\na=\r\n\uFFFD\uFFFD\n=\n" ∧
      again.bytes = o.stdout.toUTF8.data.toList ∧
      (Source.ofScript again).tokens = .ok [⟨.operator, ⟨1, 1⟩, "+", none⟩,
        ⟨.equality, ⟨2, 1⟩, "==", none⟩, ⟨.assignment, ⟨3, 1⟩, "=", none⟩,
        ⟨.identifier, ⟨4, 1⟩, "a=\r", none⟩, ⟨.identifier, ⟨5, 1⟩, "\uFFFD\uFFFD", none⟩,
        ⟨.assignment, ⟨6, 1⟩, "=", none⟩] ∧
      o'.exitCode = 0 ∧ o'.stdout = o.stdout := by
  intro i j events again o o'
  have htokens : (Source.ofScript events).tokens = .ok [⟨.operator, ⟨1, 1⟩, "+", none⟩,
      ⟨.equality, ⟨1, 2⟩, "==", none⟩, ⟨.assignment, ⟨1, 4⟩, "=", none⟩,
      ⟨.identifier, ⟨1, 5⟩, "a=\r", none⟩, ⟨.identifier, ⟨1, 9⟩, "\uFFFD\uFFFD", none⟩,
      ⟨.assignment, ⟨1, 12⟩, "=", none⟩] := by
    rw [Source.tokens_of_clean rfl]
    decide +kernel
  have hstdout : o.stdout = "+\n==\n=\na=\r\n\uFFFD\uFFFD\n=\n" := by
    have hlines : o.stdout.toList = _ := toList_stdout_of_ok rfl htokens
    rw [← String.toList_inj, hlines]
    decide +kernel
  have hbytes : again.bytes = o.stdout.toUTF8.data.toList := by
    rw [hstdout]
    decide +kernel
  obtain ⟨hiff, hgood⟩ := values_reread (i := i) rfl events
  have hcode : o.exitCode = 0 := hiff.2 rfl
  obtain ⟨ts, hts, hagain⟩ := hgood hcode
  obtain ⟨hsame, hrerun⟩ := hagain again rfl hbytes
  obtain rfl := Except.ok.inj (htokens.symm.trans hts)
  obtain ⟨hcode', hstdout'⟩ := hrerun j rfl
  exact ⟨rfl, rfl, hcode, rfl, hstdout, hbytes, hsame, hcode', hstdout'⟩

end Invocation

end TokenStream
