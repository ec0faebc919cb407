/-
What a failing source changes.

A fault can be met long before the scanner comes to the end of the text: by a look at the character
behind an equals sign, by a caret that has just been made, or in the middle of a character, whose
bytes are then handed back and decoded after all.  None of this shows.  A failing source yields
**exactly the tokens that the same bytes yield with a clean end**, then one report of the fault at
the place behind the text, and then nothing.

* `Source.drain_of_clean`, `Source.drain_of_failed` — what a scanner yields, by the ending;
* `Script.drain_append_report` — **the two endings compared**.
-/

import TokenStream.Proofs.Reading

set_option relaxedAutoImplicit false
set_option autoImplicit false

namespace TokenStream

/-! ### One source -/

namespace Source

/-- A source that ends cleanly yields the tokens of its text. -/
theorem drain_of_clean {s : Source} (h : s.ending = .clean) :
    (Scanner.ofSource s).drain.1 = Cut.tokens .start (Utf8.decode s.bytes) := by
  rw [drain_eq, h]
  exact List.append_nil _

/-- A source that fails yields the tokens of its text, and the report behind it. -/
theorem drain_of_failed {s : Source} {cause : Fault} (h : s.ending = .failed cause) :
    (Scanner.ofSource s).drain.1 =
      Cut.tokens .start (Utf8.decode s.bytes) ++
        [.failure cause.message (.behind (Utf8.decode s.bytes))] := by
  rw [drain_eq, h, Position.start_after]
  rfl

end Source

/-! ### Two sources with the same bytes -/

namespace Script

/-- **A failing source yields what the same bytes with a clean end yield, and then one report of the
fault**, which stands behind the text and is also the answer when all tokens are asked for. -/
theorem drain_append_report {failing clean : Script} {cause : Fault}
    (hfailing : failing.ending = .failed cause) (hclean : clean.ending = .clean)
    (hbytes : failing.bytes = clean.bytes) :
    let place := Position.behind (Utf8.decode failing.bytes)
    let failed := Scanner.drain (.ofSource (.ofScript failing))
    let ended := Scanner.drain (.ofSource (.ofScript clean))
    failed.1 =
        ended.1 ++ [⟨.unknown, place, "", some ⟨.sourceRead cause.message, place⟩⟩] ∧
      failed.2.next?.1 = none ∧
      (Source.ofScript failing).tokens = .error ⟨.sourceRead cause.message, place⟩ ∧
      (Source.ofScript clean).tokens = .ok ended.1 := by
  intro place failed ended
  -- both runs are compared with the tokens of the text
  have hended : ended.1 = Cut.tokens .start (Utf8.decode failing.bytes) := by
    rw [hbytes]
    exact Source.drain_of_clean hclean
  refine ⟨?_, Source.next?_drain _, ?_, ?_⟩
  · rw [hended]
    exact Source.drain_of_failed hfailing
  · have htokens := Source.tokens_of_failed (s := .ofScript failing) hfailing
    rwa [Position.start_after] at htokens
  · rw [Source.tokens_of_clean (s := .ofScript clean) hclean, hended, hbytes]
    rfl

/-- A fault in the middle of a character, met by the look behind an equals sign. -/
theorem drain_append_report_of_lookAhead :
    let failing : Script := [.bytes [0x61, 0x0a, 0x3d], .fault (.ofKind .interrupted),
      .bytes [0xe2, 0x82], .fault (.described .other "boom"), .bytes [0x62]]
    let clean : Script := [.bytes [0x61, 0x0a, 0x3d, 0xe2, 0x82]]
    failing.ending = .failed (.described .other "boom") ∧ clean.ending = .clean ∧
      failing.bytes = clean.bytes ∧
      (Scanner.drain (.ofSource (.ofScript failing))).1 =
        (Scanner.drain (.ofSource (.ofScript clean))).1 ++
          [⟨.unknown, ⟨2, 4⟩, "", some ⟨.sourceRead "boom", ⟨2, 4⟩⟩⟩] ∧
      (Source.ofScript failing).tokens = .error ⟨.sourceRead "boom", ⟨2, 4⟩⟩ := by
  intro failing clean
  have hfailing : failing.ending = .failed (.described .other "boom") := rfl
  have hclean : clean.ending = .clean := rfl
  have hbytes : failing.bytes = clean.bytes := rfl
  have hplace : Position.behind (Utf8.decode clean.bytes) = ⟨2, 4⟩ := by
    change Position.behind (Utf8.decode [0x61, 0x0a, 0x3d, 0xe2, 0x82]) = ⟨2, 4⟩
    decide +kernel
  obtain ⟨hdrain, -, htokens, -⟩ := drain_append_report hfailing hclean hbytes
  rw [hbytes, hplace] at hdrain htokens
  exact ⟨hfailing, hclean, hbytes, hdrain, htokens⟩

end Script

end TokenStream
