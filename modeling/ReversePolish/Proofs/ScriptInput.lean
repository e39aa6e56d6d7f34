import Mathlib.Data.List.Forall2
import ReversePolish.Proofs.CommandLine
import ReversePolish.Proofs.LineEnds
import ReversePolish.Proofs.Recovery
import ReversePolish.Proofs.Utf8

/-!
A script does the same from a file and from the input.

The lines of a file come without the line feeds that end them, and the lines of an input with them.
A line feed at the end of a line does not matter to its tokens, so two sessions that get the two
kinds of lines go on in step. They part only in how they report a string literal whose line ends in
a lone backslash. A file has more kinds of line ends, though, and a text with one of these has other
lines there.
-/

namespace ReversePolish

/-! ### Lines -/

namespace Text

variable {cs : List Char} {ends ends' : Char → Bool} {keep : Bool}

lemma unifyLineEnds_eq (h : '\r' ∉ cs) : unifyLineEnds cs = cs := by
  fun_induction unifyLineEnds cs with
  | case1 => rfl
  | case2 => simp at h
  | case3 cs ih => simp at h
  | case4 c cs _ _ ih =>
    rw [List.mem_cons, not_or] at h
    rw [if_neg (Ne.symm h.1), ih h.2]

lemma cutLines_congr (h : ∀ c ∈ cs, ends c = ends' c) :
    cutLines ends keep cs = cutLines ends' keep cs := by
  induction cs with
  | nil => rfl
  | cons c cs ih =>
    rw [cutLines, cutLines, h c (by simp), ih fun d hd => h d (List.mem_cons_of_mem _ hd)]

/-- A line that is cut with and without what ends it. -/
lemma forall₂_cutLines (cs : List Char) :
    List.Forall₂ (fun line line' => line' = line ∨ line' = line ++ ['\n'])
      (cutLines (· = '\n') false cs) (cutLines (· = '\n') true cs) := by
  induction cs with
  | nil => exact .nil
  | cons c cs ih =>
    by_cases hc : c = '\n'
    · simp only [cutLines, hc, decide_true, if_true]
      exact .cons (.inr rfl) ih
    · simp only [cutLines, hc, decide_false, if_false, Bool.false_eq_true]
      generalize cutLines (· = '\n') false cs = lines at ih
      generalize cutLines (· = '\n') true cs = lines' at ih
      cases ih with
      | nil => exact .cons (.inl rfl) .nil
      | cons hline hlines =>
        refine .cons ?_ hlines
        rcases hline with rfl | rfl
        · exact .inl rfl
        · exact .inr rfl

/-- Where only line feeds end lines, a script and an input have the same lines. -/
lemma forall₂_lines {s : String}
    (h : ∀ c ∈ s.toList, c = '\r' ∨ endsScriptLine c = true → c = '\n') :
    List.Forall₂ (fun line line' => line' = line ∨ line' = line ++ "\n")
      (scriptLines s.toList) (inputLines s) := by
  have hreturn : '\r' ∉ s.toList := fun hr => absurd (h _ hr (.inl rfl)) (by decide)
  have hends : ∀ c ∈ s.toList, endsScriptLine c = decide (c = '\n') := by
    intro c hc
    by_cases hn : c = '\n'
    · subst hn
      rfl
    · rw [decide_eq_false hn]
      exact Bool.eq_false_iff.mpr fun he => hn (h c hc (.inr he))
  rw [scriptLines, inputLines, unifyLineEnds_eq hreturn, cutLines_congr hends,
    List.forall₂_map_left_iff, List.forall₂_map_right_iff]
  refine (forall₂_cutLines s.toList).imp fun line line' hline => ?_
  rcases hline with rfl | rfl
  · exact .inl rfl
  · exact .inr (by simp [String.ofList_append])

end Text

namespace Console

/-! ### Sessions in step -/

namespace Session

def errorReport (error : Error) : String := "error: " ++ error.message ++ "\n"

/--
Two reports that are equal, or of a lone backslash at the end of a line without and with its end.
-/
def SameReport (report report' : String) : Prop :=
  report = report' ∨ ∃ error error' : Error, error.Dangling error' ∧
    report = errorReport error ∧ report' = errorReport error'

variable {fuel : Nat} {s s' : Session} {line line' : String}

/--
Two sessions that do the same, log no more than warnings, and give the same reports one by one.
-/
structure InStep (s s' : Session) : Prop extends Alike s s' where
  level : s.level = .warning
  level' : s'.level = .warning
  log : s.log = s'.log
  reports : List.Forall₂ SameReport s.reports s'.reports

/-- A session that logs warnings only does not log what its tokens do. -/
lemma runToken_quiet (fuel : Nat) (h : s.level = .warning) (t : Token) :
    (s.runToken fuel t).log = s.log ∧ (s.runToken fuel t).level = .warning := by
  have hdebug : s.level.logs .debug = false := by rw [h]; rfl
  unfold runToken
  split
  · exact ⟨rfl, h⟩
  · rcases s.engine.accept (·.run fuel ·) t with _ | ⟨error | outputs, after⟩
    · exact ⟨rfl, h⟩
    · simp only [journal, recover, note, hdebug, Bool.false_eq_true, if_false]
      split
      · exact ⟨rfl, h⟩
      · split
        · exact ⟨rfl, h⟩
        · exact ⟨rfl, h⟩
    · -- what is written is written onto the session, which keeps the rest
      have honto :=
        writeOutputs_onto t outputs { s with engine := after } { s with engine := after }
      have hsame : Session.onto { s with engine := after } { s with engine := after } =
        { s with engine := after } := rfl
      rw [hsame] at honto
      simp only [journal, hdebug, Bool.false_eq_true, if_false]
      rw [honto]
      exact ⟨rfl, h⟩

lemma InStep.runToken (h : InStep s s') (t : Token) :
    InStep (s.runToken fuel t) (s'.runToken fuel t) := by
  obtain ⟨halike, new, hnew, hnew'⟩ := h.toAlike.runToken fuel t
  obtain ⟨hlog, hlevel⟩ := runToken_quiet fuel h.level t
  obtain ⟨hlog', hlevel'⟩ := runToken_quiet fuel h.level' t
  refine ⟨halike, hlevel, hlevel', by rw [hlog, hlog', h.log], ?_⟩
  rw [hnew, hnew']
  exact List.rel_append (List.forall₂_same.mpr fun _ _ => .inl rfl) h.reports

lemma InStep.runTokens (h : InStep s s') (ts : List Token) :
    InStep (ts.foldl (Session.runToken fuel) s) (ts.foldl (Session.runToken fuel) s') := by
  induction ts generalizing s s' with
  | nil => exact h
  | cons t ts ih => exact ih (h.runToken t)

lemma InStep.report (h : InStep s s') {report report' : String}
    (hreport : SameReport report report') :
    InStep (s.report report) (s'.report report') :=
  ⟨⟨h.engine, h.output, h.halted⟩, h.level, h.level', h.log, .cons hreport h.reports⟩

/-- Lines that are the same but for a line feed keep sessions in step. -/
lemma InStep.runLine (h : InStep s s') (hline : line' = line ∨ line' = line ++ "\n") :
    InStep (s.runLine fuel line) (s'.runLine fuel line') := by
  have hread : Token.ofSource line' = Token.ofSource line ∨ ∃ error error', Token.ofSource line =
      .error error ∧ Token.ofSource line' = .error error' ∧ error.Dangling error' := by
    rcases hline with rfl | rfl
    · exact .inl rfl
    · exact Token.ofSource_newline line
  unfold Session.runLine
  rw [h.halted]
  split
  · exact h
  · rcases hread with heq | ⟨error, error', hread, hread', hdangling⟩
    · rw [heq]
      split
      · next ts _ => exact h.runTokens ts
      · split
        · exact h.report (.inl rfl)
        · exact ⟨⟨h.engine, h.output, rfl⟩, h.level, h.level', h.log, h.reports⟩
    · -- the one case in which the line feed shows
      have hreport : SameReport (errorReport error) (errorReport error') :=
        .inr ⟨error, error', hdangling, rfl, rfl⟩
      obtain ⟨i, j, rfl, rfl⟩ := hdangling
      rw [hread, hread']
      exact h.report hreport

lemma InStep.writeSize (h : InStep s s') : InStep s.writeSize s'.writeSize := by
  unfold Session.writeSize
  rw [h.halted, h.engine]
  split
  · exact h
  · exact ⟨⟨h.engine, congrArg (List.cons _) h.output, h.halted⟩, h.level, h.level', h.log,
      h.reports⟩

lemma InStep.runLines {lines lines' : List String} (h : InStep s s')
    (hlines : List.Forall₂ (fun line line' => line' = line ∨ line' = line ++ "\n") lines lines')
    (showStack : Bool) :
    InStep (s.runLines fuel showStack lines) (s'.runLines fuel showStack lines') := by
  induction hlines generalizing s s' with
  | nil => exact h
  | cons hline _ ih =>
    rw [runLines_cons, runLines_cons]
    refine ih ?_
    unfold passLine
    split
    · exact (h.runLine hline).writeSize
    · exact h.runLine hline

lemma runLines_congr {lines lines' : List String} (showStack : Bool)
    (h : List.Forall₂ (fun line line' => Token.ofSource line = Token.ofSource line') lines lines') :
    s.runLines fuel showStack lines = s.runLines fuel showStack lines' := by
  induction h generalizing s with
  | nil => rfl
  | cons hline _ ih =>
    rw [runLines_cons, runLines_cons, ih]
    simp only [passLine, runLine, hline]

end Session

/-! ### Runs -/

/-- Two transcripts that differ at most in reports of lone backslashes. -/
structure Transcript.Matches (tr tr' : Transcript) : Prop where
  ending : tr.ending = tr'.ending
  output : tr.output = tr'.output
  log : tr.log = tr'.log
  reports : ∃ reports reports',
    tr.reports = String.join reports ∧ tr'.reports = String.join reports' ∧
      List.Forall₂ Session.SameReport reports reports'

inductive Result.Matches : Result → Result → Prop
  | ran {tr tr' : Transcript} (h : tr.Matches tr') : Matches (.ran tr) (.ran tr')
  | same (r : Result) : Matches r r

/-- The transcript of a session that goes through lines from its beginning. -/
def transcriptOf (fuel : Nat) (limits : Limits) (showStack : Bool) (lines : List String) :
    Transcript :=
  .ofSession ((Session.new limits .warning).runLines fuel showStack lines)
    ((Session.new limits .warning).runLines fuel showStack lines).ending

variable {w : World} {file text : String}

lemma runScripts_file {fuel : Nat} {o : Options} {limits : Limits} {lines : List String}
    (hinput : o.readInput = false) (hscript : w.script (plainPath file) = .ok lines) :
    runScripts w fuel o (.new limits .warning) [file] =
      transcriptOf fuel limits o.showStack lines := by
  have hnote : ∀ line, (Session.new limits .warning).note .info line = .new limits .warning :=
    fun line => rfl
  rw [runScripts]
  simp only [hnote, hscript, runScripts, hinput, Bool.false_eq_true, if_false, ite_self]
  rfl

/-- A file and an input are run line by line, with the same limits. -/
lemma run_eq_transcriptOf {o : Options} {limits : Limits} (fuel : Nat) (choices : List Choice)
    (hfile : file.toList.head? ≠ some '-')
    (hcontents : w.contents (plainPath file) = .ok (Utf8.encode text))
    (ho : Options.ofArguments (choices.flatMap Choice.arguments) = .ok o)
    (hlimits : o.findLimits w.defaults = .ok limits) :
    run { w with input := "" } fuel (file :: "--no-stdin" :: choices.flatMap Choice.arguments) =
        .ran (transcriptOf fuel limits o.showStack (Text.scriptLines text.toList)) ∧
      run { w with input := text } fuel (choices.flatMap Choice.arguments) =
        .ran (transcriptOf fuel limits o.showStack (Text.inputLines text)) := by
  obtain ⟨hfiles, hinput, hlevel⟩ := Options.ofArguments_choices choices ho
  have honly : Options.ofArguments (file :: "--no-stdin" :: choices.flatMap Choice.arguments) =
      .ok (o.only file) := by
    rw [Options.ofArguments_only hfile, ho]
    rfl
  have hwarning : o.findLevel = .ok .warning := by rw [Options.findLevel, hlevel]
  have hscript : World.script { w with input := "" } (plainPath file) =
      .ok (Text.scriptLines text.toList) := by
    simp only [World.script, hcontents, Utf8.decode_encode]
  constructor
  · rw [run_eq_ran (w := { w with input := "" }) honly hwarning hlimits]
    exact congrArg Result.ran (runScripts_file rfl hscript)
  · rw [run_eq_ran (w := { w with input := text }) ho hwarning hlimits, hfiles, runScripts,
      if_pos hinput]
    rfl

/-- Without options or limits there is nothing to run, and the complaint is the same. -/
lemma run_eq_run {choices : List Choice} (fuel : Nat) (hfile : file.toList.head? ≠ some '-')
    (h : ∀ o limits, Options.ofArguments (choices.flatMap Choice.arguments) = .ok o →
      o.findLimits w.defaults ≠ .ok limits) :
    run { w with input := "" } fuel (file :: "--no-stdin" :: choices.flatMap Choice.arguments) =
      run { w with input := text } fuel (choices.flatMap Choice.arguments) := by
  have honly := Options.ofArguments_only hfile choices
  rcases ho : Options.ofArguments (choices.flatMap Choice.arguments) with stop | o
  · rw [ho] at honly
    rw [run, run, ho, honly]
    cases stop <;> rfl
  · rw [ho] at honly
    obtain ⟨-, -, hlevel⟩ := Options.ofArguments_choices choices ho
    have hwarning : o.findLevel = .ok .warning := by rw [Options.findLevel, hlevel]
    have hwarning' : (o.only file).findLevel = .ok .warning := hwarning
    rcases hlimits : o.findLimits w.defaults with stop | limits
    · have hlimits' : (o.only file).findLimits w.defaults = .error stop := hlimits
      rw [run, run, ho, honly]
      simp only [Except.map, hwarning, hwarning', hlimits, hlimits']
      cases stop <;> rfl
    · exact absurd hlimits (h o limits ho)

lemma transcriptOf_matches {lines lines' : List String} (fuel : Nat) (limits : Limits)
    (showStack : Bool)
    (h : List.Forall₂ (fun line line' => line' = line ∨ line' = line ++ "\n") lines lines') :
    (transcriptOf fuel limits showStack lines).Matches
      (transcriptOf fuel limits showStack lines') := by
  have hnew : Session.InStep (.new limits .warning) (.new limits .warning) :=
    ⟨.refl _, rfl, rfl, rfl, .nil⟩
  have hstep : Session.InStep ((Session.new limits .warning).runLines fuel showStack lines)
    ((Session.new limits .warning).runLines fuel showStack lines') := hnew.runLines h showStack
  refine ⟨?_, congrArg List.reverse hstep.output, ?_, _, _, rfl, rfl,
    List.rel_reverse hstep.reports⟩
  · simp only [transcriptOf, Transcript.ofSession, Session.ending, hstep.halted]
  · simp only [transcriptOf, Transcript.ofSession, hstep.log]

/-- Where no line feed is escaped, no line feed matters. -/
lemma forall₂_ofSource {lines lines' : List String}
    (h : List.Forall₂ (fun line line' => line' = line ∨ line' = line ++ "\n") lines lines')
    (hread : ∀ line ∈ lines', ∀ i,
      Token.ofSource line ≠ .error (.source (.invalidEscape (.char '\n')) (some i))) :
    List.Forall₂ (fun line line' => Token.ofSource line = Token.ofSource line') lines lines' := by
  refine ((List.forall₂_and_left _ _).mpr ⟨hread, h.flip⟩).flip.imp fun line line' hline => ?_
  obtain ⟨hread, rfl | rfl⟩ := hline
  · rfl
  · rcases Token.ofSource_newline line with heq | ⟨_, _, -, hread', i, j, -, rfl⟩
    · exact heq.symm
    · exact absurd hread' (hread j)

/--
**A script does the same from a file and from the input.** Take a text in which lines end at line
feeds only, a file that holds its bytes, and any choices of how lines are run. The run of the file
alone and the run of the text as the input end alike, write the same and log the same, or complain
alike about the command line. Their reports are the same one by one, but for lines that end in a
lone backslash within a string literal: the file has an unterminated literal there, and the input an
escaped line feed. Without such lines the two runs do not differ at all.
-/
theorem script_runs_from_file_as_from_input (w : World) (fuel : Nat) (file text : String)
    (choices : List Choice) (hfile : file.toList.head? ≠ some '-')
    (hcontents : w.contents (plainPath file) = .ok (Utf8.encode text))
    (hends : ∀ c ∈ text.toList, c = '\r' ∨ Text.endsScriptLine c = true → c = '\n') :
    let fromFile := run { w with input := "" } fuel
      (file :: "--no-stdin" :: choices.flatMap Choice.arguments)
    let fromInput := run { w with input := text } fuel (choices.flatMap Choice.arguments)
    fromFile.Matches fromInput ∧
    ((∀ line ∈ Text.inputLines text, ∀ i,
        Token.ofSource line ≠ .error (.source (.invalidEscape (.char '\n')) (some i))) →
      fromFile = fromInput) := by
  intro fromFile fromInput
  -- a command line without options or limits ends both runs before a line is read
  by_cases hruns : ∃ o limits, Options.ofArguments (choices.flatMap Choice.arguments) = .ok o ∧
      o.findLimits w.defaults = .ok limits
  · obtain ⟨o, limits, ho, hlimits⟩ := hruns
    have hlines := Text.forall₂_lines hends
    obtain ⟨hfromFile, hfromInput⟩ := run_eq_transcriptOf fuel choices hfile hcontents ho hlimits
    have hfromFile : fromFile = _ := hfromFile
    have hfromInput : fromInput = _ := hfromInput
    rw [hfromFile, hfromInput]
    refine ⟨.ran (transcriptOf_matches fuel limits o.showStack hlines), fun hread => ?_⟩
    rw [transcriptOf, transcriptOf,
      Session.runLines_congr o.showStack (forall₂_ofSource hlines hread)]
  · have hsame : fromFile = fromInput :=
      run_eq_run fuel hfile fun o limits ho hlimits => hruns ⟨o, limits, ho, hlimits⟩
    exact ⟨hsame ▸ .same fromFile, fun _ => hsame⟩

def holding (text : String) : World := ⟨.standard, fun _ => .ok (Utf8.encode text), ""⟩

/-- Lines that end in a comment, in the middle of a string literal, and at the end of the text. -/
def openEnds : String := "1 2 ;3\n\"x\n+ = \\"

/-- A text whose first line ends in a backslash that escapes nothing. -/
def loneBackslash : String := "\"\\\n"

def formFeed : String := "1\x0c2"

/-- Whether line feeds are all that ends lines can be found out character by character. -/
lemma lineFeeds_of_all {s : String}
    (h : s.toList.all (fun c => c == '\n' || !(c == '\r' || Text.endsScriptLine c)) = true) :
    ∀ c ∈ s.toList, c = '\r' ∨ Text.endsScriptLine c = true → c = '\n' := by
  intro c hc hends
  have hchar := List.all_eq_true.mp h c hc
  rcases hends with rfl | hends
  · cases hchar
  · simpa [hends] using hchar

/-- The two runs of a text do not differ, and those of the other differ in a report only. -/
theorem openEnds_runs_from_file_as_from_input :
    ("s".toList.head? ≠ some '-' ∧
      (∀ c ∈ openEnds.toList, c = '\r' ∨ Text.endsScriptLine c = true → c = '\n') ∧
      (∀ line ∈ Text.inputLines openEnds, ∀ i,
        Token.ofSource line ≠ .error (.source (.invalidEscape (.char '\n')) (some i))) ∧
      run (holding openEnds) 10 ["s", "--no-stdin", "--workers", "2", "--show-stack"] =
        run { holding openEnds with input := openEnds } 10 ["--workers", "2", "--show-stack"]) ∧
    (∀ c ∈ loneBackslash.toList, c = '\r' ∨ Text.endsScriptLine c = true → c = '\n') ∧
      (run (holding loneBackslash) 10 ["s", "--no-stdin"]).Matches
        (run { holding loneBackslash with input := loneBackslash } 10 []) := by
  have hfile : "s".toList.head? ≠ some '-' := by decide
  have hends : ∀ c ∈ openEnds.toList, c = '\r' ∨ Text.endsScriptLine c = true → c = '\n' :=
    lineFeeds_of_all (by decide +kernel)
  have hends' : ∀ c ∈ loneBackslash.toList, c = '\r' ∨ Text.endsScriptLine c = true → c = '\n' :=
    lineFeeds_of_all (by decide +kernel)
  have hlines : Text.inputLines openEnds = ["1 2 ;3\n", "\"x\n", "+ = \\"] := by decide +kernel
  have hread : ∀ line ∈ Text.inputLines openEnds, ∀ i,
      Token.ofSource line ≠ .error (.source (.invalidEscape (.char '\n')) (some i)) := by
    have hfirst : Token.ofSource "1 2 ;3\n" = .ok [.number 1, .number 2] := by decide +kernel
    have hsecond : Token.ofSource "\"x\n" = .error (.source .unterminatedString (some 0)) := by
      decide +kernel
    have hthird : Token.ofSource "+ = \\" = .ok [.op (.binary .add), .command .emit,
      .op (.binary .floorDiv)] := by decide +kernel
    intro line hline i
    rw [hlines] at hline
    simp only [List.mem_cons, List.not_mem_nil, or_false] at hline
    rcases hline with rfl | rfl | rfl
    · simp [hfirst]
    · simp [hsecond]
    · simp [hthird]
  have hsame := script_runs_from_file_as_from_input (holding openEnds) 10 "s" openEnds
    [.workers "2", .showStack] hfile rfl hends
  have hmatches := script_runs_from_file_as_from_input (holding loneBackslash) 10 "s" loneBackslash
    [] hfile rfl hends'
  exact ⟨⟨hfile, hends, hread, hsame.2 hread⟩, hends', hmatches.1⟩

/--
A lone backslash is reported in two ways. And a form feed ends a line in a file only, so that the
stack is shown once more.
-/
theorem lone_backslash_and_form_feed_told_apart :
    (∃ tr tr', run (holding loneBackslash) 10 ["s", "--no-stdin"] = .ran tr ∧
      run { holding loneBackslash with input := loneBackslash } 10 [] = .ran tr' ∧
      tr.reports = "error: Unterminated string literal at index 0\n" ∧
      tr'.reports = "error: Invalid escape sequence \\\n at index 1\n") ∧
    ∃ tr tr', run (holding formFeed) 10 ["s", "--no-stdin", "--show-stack"] = .ran tr ∧
      run { holding formFeed with input := formFeed } 10 ["--show-stack"] = .ran tr' ∧
      tr.outputText = "1 elements in stack\n2 elements in stack\n" ∧
      tr'.outputText = "2 elements in stack\n" := by
  have hfile : "s".toList.head? ≠ some '-' := by decide
  have hnone : Options.ofArguments [] = .ok .standard := by
    simp [Options.ofArguments, Options.classifyAll, Options.read, bind, Except.bind]
  have hshow : Options.ofArguments ["--show-stack"] =
      .ok { Options.standard with showStack := true } := by
    have hlook : Options.classifyAll ["--show-stack"] =
        .ok [.switch "--show-stack" .showStack none] := by decide +kernel
    rw [Options.ofArguments, hlook]
    simp only [Options.read_showStack, Options.read]
    rfl
  constructor
  · obtain ⟨hrun, hrun'⟩ :=
      run_eq_transcriptOf (w := holding loneBackslash) 10 [] hfile rfl hnone rfl
    exact ⟨_, _, hrun, hrun', by decide +kernel, by decide +kernel⟩
  · obtain ⟨hrun, hrun'⟩ :=
      run_eq_transcriptOf (w := holding formFeed) 10 [.showStack] hfile rfl hshow rfl
    exact ⟨_, _, hrun, hrun', by decide +kernel, by decide +kernel⟩

end Console

end ReversePolish
