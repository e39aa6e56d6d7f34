import ReversePolish.Proofs.Session
import ReversePolish.Proofs.StringLiteral
import ReversePolish.Proofs.Utf8

/-!
Text that is written as a string literal is printed as it was written.

A character that is neither a quote nor a backslash stands for its own bytes, so the bytes of the
literal are those of the text. They go through a number, which keeps all of them but zeros at the
end, and a text has a zero there only if its last character is zero. What is printed is cut into
characters again where it was put together.
-/

namespace ReversePolish

namespace StringItem

/-- A text without quotes and backslashes is a sequence of plain characters. -/
lemma exists_plain {cs : List Char} (h : ∀ c ∈ cs, c ≠ '"' ∧ c ≠ '\\') :
    ∃ items, texts items = cs ∧ allBytes items = cs.flatMap String.utf8EncodeChar := by
  induction cs with
  | nil => exact ⟨[], rfl, rfl⟩
  | cons c cs ih =>
    obtain ⟨hquote, hbackslash⟩ := h c List.mem_cons_self
    obtain ⟨items, htexts, hbytes⟩ := ih fun d hd => h d (List.mem_cons_of_mem c hd)
    refine ⟨.plain c hquote hbackslash :: items, ?_, ?_⟩
    · rw [← htexts]
      rfl
    · rw [List.flatMap_cons, ← hbytes]
      rfl

lemma literal_eq {items : List StringItem} {text : String} (h : texts items = text.toList) :
    literal items = "\"" ++ text ++ "\"" := by
  rw [← String.toList_inj, literal, h]
  simp

end StringItem

namespace Console

open StringItem (allBytes literal)

namespace Session

variable {s : Session} {fuel : Nat} {t : Token} {outputs : List Output} {after : Engine}

lemma exists_runToken_of_ok (hs : s.halted = none)
    (h : s.engine.accept (·.run fuel ·) t = some ⟨.ok outputs, after⟩) :
    ∃ log, s.runToken fuel t =
      Session.writeOutputs { s with engine := after, log := log } t outputs := by
  obtain ⟨log, hrun⟩ := exists_runToken hs fuel t
  rw [h] at hrun
  exact ⟨log, hrun⟩

lemma writeOutputs_bytes (hs : s.halted = none) (bytes : List UInt8) :
    s.writeOutputs (.command .bytes) [.bytes bytes] =
      { s with output := .text "\n" :: .bytes bytes :: s.output } := by
  change writeOutput .bytes s (.bytes bytes) = _
  unfold writeOutput
  rw [if_neg (by simp [hs])]
  rfl

/--
A literal with the command to show bytes writes its bytes and a line feed, and does nothing else.
-/
lemma exists_runLine_literal (hs : s.halted = none) (fuel : Nat) (items : List StringItem) :
    ∃ log, s.runLine (fuel + 2) (literal items ++ " &") =
      { s with
        output := .text "\n" :: .bytes ((allBytes items).rdropWhile (· = 0)) :: s.output
        log := log } := by
  have hpush : s.engine.accept (·.run (fuel + 2) ·) (.number (Token.packed items)) =
      some ⟨.ok [], s.engine.pushed [.number (Token.packed items)]⟩ :=
    Engine.accept_of_push (by simp) (by simp)
  obtain ⟨log, hfirst⟩ := exists_runToken_of_ok hs hpush
  let next : Session :=
    { s with engine := s.engine.pushed [.number (Token.packed items)], log := log }
  have hshow : next.engine.accept (·.run (fuel + 2) ·) (.command .bytes) =
      some ⟨.ok [.bytes ((allBytes items).rdropWhile (· = 0))], s.engine⟩ := by
    rw [← Output.unpacked_pack]
    exact Engine.run_bytes_pushed s.engine fuel (Token.packed items)
  have hnext : next.halted = none := hs
  obtain ⟨log', hsecond⟩ := exists_runToken_of_ok hnext hshow
  refine ⟨log', ?_⟩
  rw [runLine, if_neg (by simp [hs]), Token.ofSource_literal]
  change (s.runToken (fuel + 2) (.number (Token.packed items))).runToken (fuel + 2)
    (.command .bytes) = _
  rw [hfirst]
  exact hsecond.trans (writeOutputs_bytes (s := { s with log := log' }) hs _)

end Session

/--
**Text is printed as it was written.** A line that consists of a text between quotes and the command
to show bytes writes just this text and a line feed, if the text has neither quotes nor backslashes
in it and does not end with the character zero. Nothing is reported, the session goes on, and the
engine is as it was.
-/
theorem text_printed_as_written (s : Session) (hs : s.halted = none) (fuel : Nat) (text : String)
    (hplain : ∀ c ∈ text.toList, c ≠ '"' ∧ c ≠ '\\') (hlast : text.toList.getLast? ≠ some '\x00') :
    (∃ chunks : List Chunk,
      (s.runLine (fuel + 2) ("\"" ++ text ++ "\" &")).output = chunks.reverse ++ s.output ∧
      String.join (chunks.map Chunk.toText) = text ++ "\n") ∧
    (s.runLine (fuel + 2) ("\"" ++ text ++ "\" &")).reports = s.reports ∧
    (s.runLine (fuel + 2) ("\"" ++ text ++ "\" &")).engine = s.engine ∧
    (s.runLine (fuel + 2) ("\"" ++ text ++ "\" &")).halted = none := by
  obtain ⟨items, htexts, hbytes⟩ := StringItem.exists_plain hplain
  have hline : "\"" ++ text ++ "\" &" = literal items ++ " &" := by
    have hsplit : "\" &" = "\"" ++ " &" := rfl
    rw [StringItem.literal_eq htexts, hsplit]
    exact String.append_assoc.symm
  -- the number keeps all bytes of the text
  have hkept : (allBytes items).rdropWhile (· = 0) = Utf8.encode text := by
    have hend := Utf8.getLast?_encode hlast
    rw [hbytes, ← Utf8.encode, List.rdropWhile_eq_self_iff]
    intro hne hzero
    rw [List.getLast?_eq_some_getLast hne] at hend
    exact hend (congrArg some (of_decide_eq_true hzero))
  obtain ⟨log, hrun⟩ := Session.exists_runLine_literal hs fuel items
  rw [hline, hrun, hkept]
  refine ⟨⟨[.bytes (Utf8.encode text), .text "\n"], rfl, ?_⟩, rfl, rfl, hs⟩
  simp [Chunk.toText, Utf8.decodeLossy_encode, String.join]

/-- A session with a function, an unfinished call of it on the stack, and a report. -/
def busySession : Session :=
  (Session.new .standard .warning).runLine 10 "$0 $1 + sum|2 5 sum x ="

def wideText : String := "a\x00é\n€😀"

/-- The session prints the text and is left with what it had. -/
theorem wide_text_printed_as_written :
    (busySession.halted = none ∧ busySession.reports.length = 1 ∧
      busySession.engine.stack.size = 3) ∧
    ((∀ c ∈ wideText.toList, c ≠ '"' ∧ c ≠ '\\') ∧ wideText.toList.getLast? ≠ some '\x00') ∧
    (∃ chunks : List Chunk, (busySession.runLine 2 ("\"" ++ wideText ++ "\" &")).output =
        chunks.reverse ++ busySession.output ∧
      String.join (chunks.map Chunk.toText) = wideText ++ "\n") ∧
    (busySession.runLine 2 ("\"" ++ wideText ++ "\" &")).reports = busySession.reports ∧
    (busySession.runLine 2 ("\"" ++ wideText ++ "\" &")).engine = busySession.engine := by
  have hbusy : busySession.halted = none ∧ busySession.reports.length = 1 ∧
      busySession.engine.stack.size = 3 := by
    have hread : Token.ofSource "$0 $1 + sum|2 5 sum x =" = .ok [.arg 0, .arg 1,
        .op (.binary .add), .command (.declare "sum" 2), .number 5, .name "sum", .name "x",
        .command .emit] := by
      decide +kernel
    rw [busySession, Session.runLine, hread]
    exact ⟨rfl, rfl, rfl⟩
  have hplain : ∀ c ∈ wideText.toList, c ≠ '"' ∧ c ≠ '\\' := by
    have hall : wideText.toList.all (fun c => c ≠ '"' && c ≠ '\\') = true := by decide +kernel
    simpa [List.all_eq_true] using hall
  have hlast : wideText.toList.getLast? ≠ some '\x00' := by decide +kernel
  obtain ⟨houtput, hreports, hengine, -⟩ :=
    text_printed_as_written busySession hbusy.1 0 wideText hplain hlast
  exact ⟨hbusy, ⟨hplain, hlast⟩, houtput, hreports, hengine⟩

end Console

end ReversePolish
