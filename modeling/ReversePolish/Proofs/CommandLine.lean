import ReversePolish.Console.Options
import ReversePolish.Proofs.Grouping

/-!
Command lines with and without a file.

The switches that say how lines are run are read one after the other, and none of them looks at the
files or at whether there is an input. So a command line that names one file, leaves the input out
and goes on with such switches is read like the switches alone, faults included, apart from the file
and the input.
-/

namespace ReversePolish.Console

inductive Choice
  | depth (text : String)
  | workers (text : String)
  | showStack

def Choice.arguments : Choice → List String
  | .depth text => ["--max-depth", text]
  | .workers text => ["--workers", text]
  | .showStack => ["--show-stack"]

namespace Options

variable {o : Options} {p p' : Progress} {s : Switch} {file spelling text : String}
  {arguments rest : List Argument}

def only (file : String) (o : Options) : Options := { o with files := [file], readInput := false }

/-- What has been read, had there been one file and no input before it. -/
def Progress.only (file : String) (p : Progress) : Progress :=
  ⟨p.options.only file, true, p.refused⟩

/-- What has been read names no files, and says nothing of the input and the level. -/
structure Progress.Keeps (p p' : Progress) : Prop where
  files : p'.options.files = p.options.files
  readInput : p'.options.readInput = p.options.readInput
  level : p'.options.level = p.options.level
  refused : p'.refused = p.refused

lemma Progress.Keeps.trans {p'' : Progress} (h : p.Keeps p') (h' : p'.Keeps p'') : p.Keeps p'' :=
  ⟨h'.files.trans h.files, h'.readInput.trans h.readInput, h'.level.trans h.level,
    h'.refused.trans h.refused⟩

/-! ### Argument by argument -/

/-- Arguments that are read in the same way whatever files have been named. -/
def Indifferent (arguments : List Argument) : Prop :=
  ∀ file p, read (p.only file) arguments = (read p arguments).map (Progress.only file) ∧
    ∀ p', read p arguments = .ok p' → p.Keeps p'

lemma indifferent_nil : Indifferent [] := by
  intro file p
  rw [read, read]
  refine ⟨rfl, fun p' h => ?_⟩
  cases h
  exact ⟨rfl, rfl, rfl, rfl⟩

lemma read_showStack (rest : List Argument) : read p (.switch spelling .showStack none :: rest) =
    read { p with options := p.options.turnOn .showStack } rest := by
  rw [read.eq_def]
  rfl

lemma Indifferent.showStack (h : Indifferent rest) :
    Indifferent (.switch spelling .showStack none :: rest) := by
  intro file p
  rw [read_showStack, read_showStack]
  obtain ⟨hread, hkeeps⟩ := h file { p with options := p.options.turnOn .showStack }
  have hturn : p.Keeps { p with options := p.options.turnOn .showStack } := ⟨rfl, rfl, rfl, rfl⟩
  exact ⟨hread, fun p' hp' => hturn.trans (hkeeps p' hp')⟩

lemma assign_only (hs : s = .depth ∨ s = .workers) (file text : String) (o : Options) :
    (o.only file).assign s text = (o.assign s text).map (only file) := by
  rcases hvalue : integerSetting s text with stop | value
  · rcases hs with rfl | rfl <;> simp [assign, hvalue, bind, Except.bind, Except.map]
  · rcases hs with rfl | rfl <;> simp [assign, hvalue, bind, Except.bind, Except.map, only]

lemma assign_keeps (hs : s = .depth ∨ s = .workers) (h : p.options.assign s text = .ok o) :
    p.Keeps { p with options := o } := by
  rcases hs with rfl | rfl
  · obtain ⟨value, -, h⟩ := bind_eq_ok h
    cases h
    exact ⟨rfl, rfl, rfl, rfl⟩
  · obtain ⟨value, -, h⟩ := bind_eq_ok h
    cases h
    exact ⟨rfl, rfl, rfl, rfl⟩

lemma read_limit (hs : s = .depth ∨ s = .workers) (text : String) (rest : List Argument) :
    read p (.switch spelling s none :: .plain text :: rest) =
      p.options.assign s text >>= fun o => read { p with options := o } rest := by
  rw [read.eq_def]
  rcases hs with rfl | rfl <;> rfl

lemma read_missing (hs : s = .depth ∨ s = .workers)
    (h : ∀ text rest', rest ≠ .plain text :: rest') :
    read p (.switch spelling s none :: rest) = .error (.fault (.missingValue s)) := by
  rw [read.eq_def]
  rcases rest with _ | ⟨argument, rest⟩
  · rcases hs with rfl | rfl <;> rfl
  · cases argument with
    | plain text => exact absurd rfl (h text rest)
    | _ => rcases hs with rfl | rfl <;> rfl

lemma Indifferent.limit (hs : s = .depth ∨ s = .workers)
    (h : ∀ text rest', rest = .plain text :: rest' → Indifferent rest') :
    Indifferent (.switch spelling s none :: rest) := by
  intro file p
  by_cases hvalue : ∃ text rest', rest = .plain text :: rest'
  · obtain ⟨text, rest', rfl⟩ := hvalue
    rw [read_limit hs, read_limit hs]
    have honly := assign_only hs file text p.options
    rcases hassign : p.options.assign s text with stop | o
    · rw [hassign] at honly
      exact ⟨by rw [Progress.only, honly]; rfl, fun p' hp' => by cases hp'⟩
    · rw [hassign] at honly
      obtain ⟨hread, hkeeps⟩ := h text rest' rfl file { p with options := o }
      refine ⟨?_, fun p' hp' => (assign_keeps hs hassign).trans (hkeeps p' hp')⟩
      rw [Progress.only, honly]
      exact hread
  · -- a limit without a value is a fault, whatever has been read before
    have hmissing : ∀ text rest', rest ≠ .plain text :: rest' :=
      fun text rest' heq => hvalue ⟨text, rest', heq⟩
    rw [read_missing hs hmissing, read_missing hs hmissing]
    exact ⟨rfl, fun p' hp' => by cases hp'⟩

/-! ### Whole command lines -/

lemma classifyAll_cons_eq_ok {texts : List String} (htext : text ≠ "--")
    (h : classifyAll (text :: texts) = .ok arguments) : ∃ argument rest,
      classify text = .ok argument ∧ classifyAll texts = .ok rest ∧
        arguments = argument :: rest := by
  rw [classifyAll, if_neg htext] at h
  obtain ⟨argument, hargument, h⟩ := bind_eq_ok h
  obtain ⟨rest, hrest, h⟩ := bind_eq_ok h
  cases h
  exact ⟨argument, rest, hargument, hrest, rfl⟩

/-- A limit is followed by its value, or by nothing that could be one. -/
lemma Indifferent.limit_of_classifyAll {texts : List String} (hs : s = .depth ∨ s = .workers)
    (hspelling : spelling ≠ "--") (hclassify : classify spelling = .ok (.switch spelling s none))
    (h : ∀ arguments, classifyAll texts = .ok arguments → Indifferent arguments)
    (hread : classifyAll (spelling :: text :: texts) = .ok arguments) : Indifferent arguments := by
  obtain ⟨argument, rest, hargument, hrest, rfl⟩ := classifyAll_cons_eq_ok hspelling hread
  rw [hclassify] at hargument
  cases hargument
  refine .limit hs fun text' rest' hvalue => ?_
  subst hvalue
  by_cases hseparator : text = "--"
  · -- a separator is no value
    rw [classifyAll, if_pos hseparator] at hrest
    cases hrest
  · obtain ⟨_, _, -, hrest', heq⟩ := classifyAll_cons_eq_ok hseparator hrest
    cases heq
    exact h _ hrest'

lemma indifferent_choices (choices : List Choice)
    (h : classifyAll (choices.flatMap Choice.arguments) = .ok arguments) :
    Indifferent arguments := by
  induction choices generalizing arguments with
  | nil =>
    cases h
    exact indifferent_nil
  | cons choice choices ih =>
    rw [List.flatMap_cons] at h
    cases choice with
    | depth text =>
      exact .limit_of_classifyAll (.inl rfl) (by decide) (by decide +kernel) (fun _ => ih) h
    | workers text =>
      exact .limit_of_classifyAll (.inr rfl) (by decide) (by decide +kernel) (fun _ => ih) h
    | showStack =>
      have hclassify : classify "--show-stack" = .ok (.switch "--show-stack" .showStack none) := by
        decide +kernel
      obtain ⟨argument, rest, hargument, hrest, rfl⟩ := classifyAll_cons_eq_ok (by decide) h
      rw [hclassify] at hargument
      cases hargument
      exact (ih hrest).showStack

lemma classify_file (h : file.toList.head? ≠ some '-') : classify file = .ok (.plain file) := by
  simp [classify, h]

lemma classifyAll_only (h : file.toList.head? ≠ some '-') (texts : List String) :
    classifyAll (file :: "--no-stdin" :: texts) = (classifyAll texts).map fun arguments =>
      .plain file :: .switch "--no-stdin" .noInput none :: arguments := by
  have hfile : file ≠ "--" := by
    rintro rfl
    exact h rfl
  have hinput : classify "--no-stdin" = .ok (.switch "--no-stdin" .noInput none) := by
    decide +kernel
  have hne : "--no-stdin" ≠ "--" := by decide
  rw [classifyAll, if_neg hfile, classify_file h, classifyAll, if_neg hne, hinput]
  cases classifyAll texts <;> rfl

/-- A file and no input are noted before the rest is read. -/
lemma read_only (file : String) (arguments : List Argument) :
    read ⟨standard, false, []⟩ (.plain file :: .switch "--no-stdin" .noInput none :: arguments) =
      read (Progress.only file ⟨standard, false, []⟩) arguments := by
  have hfile : read ⟨standard, false, []⟩
      (.plain file :: .switch "--no-stdin" .noInput none :: arguments) =
        read ⟨{ standard with files := [file] }, true, []⟩
          (.switch "--no-stdin" .noInput none :: arguments) := by
    rw [read.eq_def]
    simp [Argument.isPlain, Argument.file?]
  rw [hfile, read.eq_def]
  rfl

/-- Naming a file and leaving out the input does that, and nothing else. -/
lemma ofArguments_only (h : file.toList.head? ≠ some '-') (choices : List Choice) :
    ofArguments (file :: "--no-stdin" :: choices.flatMap Choice.arguments) =
      (ofArguments (choices.flatMap Choice.arguments)).map (only file) := by
  rw [ofArguments, ofArguments, classifyAll_only h]
  rcases hread : classifyAll (choices.flatMap Choice.arguments) with fault | arguments
  · rfl
  · simp only [Except.map]
    rw [read_only, (indifferent_choices choices hread file ⟨standard, false, []⟩).1]
    rcases read ⟨standard, false, []⟩ arguments with stop | p
    · rfl
    · by_cases hrefused : p.refused = []
      · simp [Except.map, Progress.only, hrefused, bind, Except.bind]
      · simp [Except.map, Progress.only, hrefused, bind, Except.bind]

lemma ofArguments_choices (choices : List Choice)
    (h : ofArguments (choices.flatMap Choice.arguments) = .ok o) :
    o.files = [] ∧ o.readInput = true ∧ o.level = .unset := by
  rw [ofArguments] at h
  rcases hread : classifyAll (choices.flatMap Choice.arguments) with fault | arguments
  · rw [hread] at h
    cases h
  · rw [hread] at h
    obtain ⟨p, hp, h⟩ := bind_eq_ok h
    split at h <;> cases h
    obtain ⟨hfiles, hinput, hlevel, -⟩ := (indifferent_choices choices hread "" _).2 p hp
    exact ⟨hfiles, hinput, hlevel⟩

end Options

end ReversePolish.Console
