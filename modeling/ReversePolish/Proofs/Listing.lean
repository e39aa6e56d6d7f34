import Mathlib.Data.List.Forall2
import ReversePolish.Proofs.Tiling
import ReversePolish.Proofs.Writes

/-!
A listing shows what the other commands act on.

The listing goes down the stack by itself, and where splitting would fail it shows what is left as
one more line. Up to there both find the same expressions, and the line of each is the text of its
tree.

With arities below zero the lines are still those of the expressions that splitting finds, but not
all of these have a tree.
-/

namespace ReversePolish

/-! ### Lines -/

namespace Token

lemma displays_ne_nil {ts : List Token} {displays : List String} (hts : ts ≠ [])
    (h : ts.mapM display? = some displays) : displays ≠ [] := by
  cases ts with
  | nil => exact absurd rfl hts
  | cons t ts =>
    rintro rfl
    simp [List.mapM_cons, Option.bind_eq_some_iff] at h

lemma join?_append {ts us : List Token} {text : String} (hts : ts ≠ []) (hus : us ≠ [])
    (h : join? (ts ++ us) = some text) :
    ∃ line rest, join? ts = some line ∧ join? us = some rest ∧ text = line ++ " " ++ rest := by
  obtain ⟨displays, hdisplays, rfl⟩ := Option.map_eq_some_iff.mp h
  simp only [List.mapM_append, Option.bind_eq_bind, Option.bind_eq_some_iff, Option.pure_def,
    Option.some.injEq] at hdisplays
  obtain ⟨ds, hds, es, hes, rfl⟩ := hdisplays
  refine ⟨_, _, by rw [join?, hds]; rfl, by rw [join?, hes]; rfl, ?_⟩
  exact String.intercalate_append_of_ne_nil (displays_ne_nil hts hds) (displays_ne_nil hus hes)

abbrev Lines (runs : List (List Token)) (lines : List String) : Prop :=
  List.Forall₂ (fun run line => join? run = some line) runs lines

/-- The text of several runs is made of their texts, if none of them is empty. -/
lemma exists_lines {runs : List (List Token)} {text : String} (hne : ∀ run ∈ runs, run ≠ [])
    (h : join? runs.flatten = some text) :
    ∃ lines, Lines runs lines ∧ String.intercalate " " lines = text := by
  induction runs generalizing text with
  | nil =>
    cases h
    exact ⟨[], .nil, rfl⟩
  | cons run runs ih =>
    obtain ⟨hrun, hruns⟩ := List.forall_mem_cons.mp hne
    rw [List.flatten_cons] at h
    cases runs with
    | nil =>
      rw [List.flatten_nil, List.append_nil] at h
      exact ⟨[text], .cons h .nil, String.intercalate_singleton⟩
    | cons run' runs =>
      have hbelow : (run' :: runs).flatten ≠ [] := by simp [hruns run' List.mem_cons_self]
      obtain ⟨line, rest, hline, hrest, rfl⟩ := join?_append hrun hbelow h
      obtain ⟨lines, hlines, rfl⟩ := ih hruns hrest
      have hsome : lines ≠ [] := by
        rintro rfl
        cases hlines
      exact ⟨line :: lines, .cons hline hlines, String.intercalate_cons_of_ne_nil hsome⟩

end Token

/-! ### Trees -/

namespace Grouping

variable {arities : Arities} {arity : Int} {count : Nat} {stack : List Token}
  {runs : List (List Token)} {lines : List String}

def Shows (arities : Arities) (arity : Int) (run : List Token) (line : String) : Prop :=
  ∃ e, build arities arity run = .ok e ∧ e.text? = some line

lemma shows_of_build {run : List Token} {line : String} (hline : Token.join? run = some line)
    (h : ∃ e, build arities arity run = .ok e) : Shows arities arity run line := by
  obtain ⟨e, he⟩ := h
  refine ⟨e, he, ?_⟩
  rw [Expr.text?_eq, (build_eq_ok_iff.mp he).1, hline]

/-- Without arities below zero, all that is taken off a stack has trees. -/
lemma forall₂_shows {rest : List Token} (hnatural : ∀ t ∈ stack, arities.Natural t)
    (harg : ∀ i, .arg i ∈ stack → i < arity)
    (h : takeRuns arities count stack = .ok (runs, rest)) (hlines : Token.Lines runs lines) :
    List.Forall₂ (Shows arities arity) runs lines := by
  have hbuilds : ∀ run ∈ runs, ∃ e, build arities arity run = .ok e := by
    intro run hrun
    have hcomplete := complete_of_takeRuns h hnatural run hrun
    exact hcomplete.build_eq_ok_iff.mpr fun i hi => harg i (mem_of_takeRuns h hrun hi)
  clear h
  induction hlines with
  | nil => exact .nil
  | cons hline _ ih =>
    obtain ⟨hbuild, hbuilds⟩ := List.forall_mem_cons.mp hbuilds
    exact .cons (shows_of_build hline hbuild) (ih hbuilds)

end Grouping

/-! ### What a listing goes through -/

namespace Stack

open ReversePolish.Grouping

variable {s : Stack} {arities : Arities} {count : Nat} {stack : List Token}
  {runs : List (List Token)} {texts : List String}

lemma lines_eq_ok (h : Token.Lines runs texts) : lines runs = .ok texts := by
  induction h with
  | nil => rfl
  | cons hline _ ih => simp only [lines, hline, ih, bind, Except.bind]

lemma listing_eq_ok (h : listedRuns arities s.size s.tokens = .ok runs)
    (hlines : Token.Lines runs texts) : s.listing arities = .ok texts := by
  simp only [listing, h, bind, Except.bind]
  exact lines_eq_ok hlines

/--
A listing of tokens that are not commands shows what splitting finds. If splitting fails, it shows
what splitting finds before, and then what is left.
-/
lemma listedRuns_cases (hc : ∀ c, .command c ∉ stack) (hle : stack.length ≤ count) :
    (∃ runs, takeRuns arities count stack = .ok (runs, []) ∧
      listedRuns arities count stack = .ok runs) ∨
    ∃ runs rest, takeRuns arities count stack = .error (.shortage .incomplete) ∧
      takeRuns arities runs.length stack = .ok (runs, rest) ∧ rest ≠ [] ∧
      topRun arities rest = .error (.shortage .incomplete) ∧
      listedRuns arities count stack = .ok (runs ++ [rest.reverse]) := by
  induction count generalizing stack with
  | zero =>
    obtain rfl : stack = [] := List.length_eq_zero_iff.mp (Nat.le_zero.mp hle)
    exact .inl ⟨[], rfl, rfl⟩
  | succ count ih =>
    cases stack with
    | nil => exact .inl ⟨[], rfl, rfl⟩
    | cons t stack =>
      rcases htop : topRun arities (t :: stack) with error | ⟨run, below⟩
      -- the scan runs out of tokens here, so what is left is the fragment
      · obtain rfl := takeRun_eq_error hc htop
        refine .inr ⟨[], t :: stack, ?_, rfl, List.cons_ne_nil t stack, htop, ?_⟩
        · simp only [takeRuns, htop, bind, Except.bind]
        · simp only [listedRuns, htop, List.nil_append]
      -- one more expression, and below it whichever of the two holds there
      · have hlt := length_below_lt htop
        rcases ih (fun c hc' => hc c (mem_of_below htop hc')) (by omega) with
          ⟨runs, hruns, hlisted⟩ | ⟨runs, rest, herror, hruns, hne, hrest, hlisted⟩
        · refine .inl ⟨run :: runs, ?_, ?_⟩
          · simp only [takeRuns, htop, hruns, bind, Except.bind]
          · simp only [listedRuns, htop, hlisted, bind, Except.bind]
        · refine .inr ⟨run :: runs, rest, ?_, ?_, hne, hrest, ?_⟩
          · simp only [takeRuns, htop, herror, bind, Except.bind]
          · simp only [List.length_cons, takeRuns, htop, hruns, bind, Except.bind]
          · simp only [listedRuns, htop, hlisted, bind, Except.bind, List.cons_append]

/-- A stack is what is left at the bottom and the runs taken off it, the last of them first. -/
lemma toList_of_takeRuns {rest : List Token}
    (h : takeRuns arities count s.tokens = .ok (runs, rest)) :
    s.toList = rest.reverse ++ runs.reverse.flatten := by
  have hstack : s.tokens = s.toList.reverse := (List.reverse_reverse s.tokens).symm
  rw [hstack] at h
  exact tokens_of_takeRuns h

lemma slices_of_split (h : takeRuns arities s.size s.tokens = .ok (runs, [])) :
    (spans s.size runs).map (fun span => Index.slice s.toList span.1 span.2) = runs := by
  have htokens : s.toList = runs.reverse.flatten := toList_of_takeRuns h
  have hsize : s.size = s.toList.length := List.length_reverse.symm
  have hslices := slice_spans [] [] runs
  rwa [List.nil_append, List.append_nil, ← htokens, ← hsize] at hslices

/-! ### What the lines show -/

/-- The lines show the expressions into which the stack can be split. -/
structure ShowsSplit (s : Stack) (arities : Arities) (runs : List (List Token))
    (texts : List String) : Prop where
  /-- Each line is the text of one span. -/
  spans : List.Forall₂
    (fun span line => Token.join? (Index.slice s.toList span.1 span.2) = some line)
    (spans s.size runs) texts
  /-- Unless an arity on the stack is below zero, it is the text of the tree of the span. -/
  trees : (∀ t ∈ s.tokens, arities.Natural t) → ∀ arity, (∀ i, .arg i ∈ s.tokens → i < arity) →
    List.Forall₂ (fun span line => Shows arities arity (Index.slice s.toList span.1 span.2) line)
      (Grouping.spans s.size runs) texts

/-- The lines show the expressions on top of a stack that cannot be split, and what is left. -/
structure ShowsFragment (s : Stack) (arities : Arities) (runs : List (List Token))
    (fragment : List Token) (tops : List String) (last : String) : Prop where
  tokens : s.toList = fragment ++ runs.reverse.flatten
  /-- The expressions on top are those that are split off. -/
  split : split arities (some runs.length) s.tokens = .ok runs
  above : Token.Lines runs tops
  trees : (∀ t ∈ s.tokens, arities.Natural t) → ∀ arity, (∀ i, .arg i ∈ s.tokens → i < arity) →
    List.Forall₂ (Shows arities arity) runs tops
  ne_nil : fragment ≠ []
  below : Token.join? fragment = some last
  /-- A scan of the fragment runs out of tokens. -/
  incomplete : topRun arities fragment.reverse = .error (.shortage .incomplete)
  start : (s.size : Int) ≤ Index.bound →
    start arities s.toList fragment.length = .error (.shortage .incomplete)

lemma showsSplit_of_takeRuns (h : takeRuns arities s.size s.tokens = .ok (runs, []))
    (hlines : Token.Lines runs texts) : s.ShowsSplit arities runs texts := by
  have hslices := slices_of_split h
  refine ⟨?_, fun hnatural arity harg => ?_⟩
  · rw [← hslices] at hlines
    exact List.forall₂_map_left_iff.mp hlines
  · have hshows := forall₂_shows hnatural harg h hlines
    rw [← hslices] at hshows
    exact List.forall₂_map_left_iff.mp hshows

lemma showsFragment_of_takeRuns {rest : List Token} {tops : List String} {last : String}
    (h : takeRuns arities runs.length s.tokens = .ok (runs, rest)) (hne : rest ≠ [])
    (hrest : topRun arities rest = .error (.shortage .incomplete)) (htops : Token.Lines runs tops)
    (hlast : Token.join? rest.reverse = some last) :
    s.ShowsFragment arities runs rest.reverse tops last := by
  have htokens := toList_of_takeRuns h
  have hfragment : rest.reverse ≠ [] := by simpa using hne
  rw [← List.reverse_reverse rest] at hrest
  refine ⟨htokens, ?_, htops, fun hnatural arity harg => ?_, hfragment, hlast, hrest,
    fun hbound => ?_⟩
  · exact split_some_eq_ok_iff.mpr ⟨(Int.toNat_natCast _).symm, _, h⟩
  · exact forall₂_shows hnatural harg h htops
  · have hsize : s.size = s.toList.length := List.length_reverse.symm
    rw [hsize, htokens] at hbound
    rw [htokens]
    exact start_append_eq_error hfragment hbound hrest

/--
The lines of a listing are the texts of what it goes through, and together they are the whole text.
-/
lemma exists_listing {text : String} (hc : ∀ c, .command c ∉ s.tokens)
    (htext : Token.join? s.toList = some text) :
    ∃ texts, s.listing arities = .ok texts ∧ String.intercalate " " texts.reverse = text ∧
      ((∃ runs, takeRuns arities s.size s.tokens = .ok (runs, []) ∧ Token.Lines runs texts) ∨
      ∃ runs rest tops last,
        takeRuns arities s.size s.tokens = .error (.shortage .incomplete) ∧
        texts = tops ++ [last] ∧ s.ShowsFragment arities runs rest tops last) := by
  rcases listedRuns_cases hc (Nat.le_refl s.size) with ⟨runs, hruns, hlisted⟩ |
    ⟨runs, rest, herror, hruns, hrest, hfails, hlisted⟩
  · have hne := (takeRuns_eq_ok hruns).2
    have htokens : s.toList = runs.reverse.flatten := toList_of_takeRuns hruns
    rw [htokens] at htext
    obtain ⟨lines, hlines, hjoined⟩ :=
      Token.exists_lines (fun run hrun => hne run (List.mem_reverse.mp hrun)) htext
    have hlines' := List.forall₂_reverse_iff.mpr hlines
    rw [List.reverse_reverse] at hlines'
    refine ⟨lines.reverse, listing_eq_ok hlisted hlines', ?_, .inl ⟨runs, hruns, hlines'⟩⟩
    rwa [List.reverse_reverse]
  · have hne := (takeRuns_eq_ok hruns).2
    have htokens : s.toList = (rest.reverse :: runs.reverse).flatten := toList_of_takeRuns hruns
    have hruns' : ∀ run ∈ rest.reverse :: runs.reverse, run ≠ [] := List.forall_mem_cons.mpr
      ⟨by simpa using hrest, fun run hrun => hne run (List.mem_reverse.mp hrun)⟩
    rw [htokens] at htext
    obtain ⟨lines, hlines, hjoined⟩ := Token.exists_lines hruns' htext
    -- from the bottom up, the fragment comes first
    cases hlines with
    | @cons _ last _ tops hlast htops =>
      have htops' := List.forall₂_reverse_iff.mpr htops
      rw [List.reverse_reverse] at htops'
      have hlisting := listing_eq_ok hlisted (List.rel_append htops' (.cons hlast .nil))
      exact ⟨tops.reverse ++ [last], hlisting, by simpa using hjoined, .inr ⟨runs, rest.reverse,
        tops.reverse, last, herror, rfl,
        showsFragment_of_takeRuns hruns hrest hfails htops' hlast⟩⟩

/-- What is listed is output as text, and its lines are those of all that is evaluated. -/
lemma engine_shows {e : Engine} (hlisting : e.stack.listing e.table.arityOf = .ok texts)
    (hlines : ∀ runs, Grouping.split e.table.arityOf none e.stack.tokens = .ok runs →
      Token.Lines runs texts) :
    (∀ fuel, e.run fuel .list = some ⟨.ok (texts.map .text), e⟩) ∧
      ∀ es, e.entries = .ok es → List.Forall₂ (fun x line => x.text? = some line) es texts := by
  refine ⟨fun fuel => ?_, fun es hes => ?_⟩
  · simp only [Engine.run, Engine.runBy, hlisting]
  · obtain ⟨runs, hruns, hbuild⟩ := bind_eq_ok hes
    have hshown := hlines runs hruns
    rw [← (Engine.of_buildAll_eq_ok hbuild).1] at hshown
    simpa only [List.forall₂_map_left_iff, Expr.text?_eq] using hshown

/--
**A listing shows what the other commands act on.** Tokens that are not commands and can all be
written are always listed. From the last line to the first, the lines are the text of the whole
stack. If the stack can be split, they show the expressions it is split into; if not, then all but
the last show those on top, and the last what is left at the bottom. The listing of an engine is
what its command outputs, and its lines are the texts of the entries that are all evaluated.
-/
theorem listing_shows_expressions (s : Stack) (arities : Arities) (text : String)
    (hcommands : ∀ c, .command c ∉ s.tokens) (htext : Token.join? s.toList = some text) :
    ∃ texts, s.listing arities = .ok texts ∧ String.intercalate " " texts.reverse = text ∧
      (∀ runs, split arities none s.tokens = .ok runs → s.ShowsSplit arities runs texts) ∧
      (∀ error, split arities none s.tokens = .error error →
        ∃ runs fragment tops last, texts = tops ++ [last] ∧
          s.ShowsFragment arities runs fragment tops last) ∧
      ∀ e : Engine, e.stack = s → e.table.arityOf = arities →
        (∀ fuel, e.run fuel .list = some ⟨.ok (texts.map .text), e⟩) ∧
        ∀ es, e.entries = .ok es → List.Forall₂ (fun x line => x.text? = some line) es texts := by
  obtain ⟨texts, hlisting, hjoined, hcases⟩ := exists_listing hcommands htext
  have hsplit : ∀ runs, split arities none s.tokens = .ok runs →
      takeRuns arities s.size s.tokens = .ok (runs, []) ∧ Token.Lines runs texts := by
    intro runs hruns
    have hall : takeRuns arities s.size s.tokens = .ok (runs, []) := splitAll_eq_ok hruns
    rcases hcases with ⟨runs', hruns', hlines⟩ | ⟨_, _, _, _, herror, -⟩
    · rw [hall] at hruns'
      cases hruns'
      exact ⟨hall, hlines⟩
    · rw [hall] at herror
      cases herror
  refine ⟨texts, hlisting, hjoined, fun runs hruns => ?_, fun error herror => ?_, ?_⟩
  · exact showsSplit_of_takeRuns (hsplit runs hruns).1 (hsplit runs hruns).2
  · rcases hcases with ⟨runs, hruns, -⟩ | ⟨runs, fragment, tops, last, -, htexts, hshows⟩
    · have hok : split arities none s.tokens = .ok runs := by
        have hall : takeRuns arities s.tokens.length s.tokens = .ok (runs, []) := hruns
        simp only [split, splitAll, hall, bind, Except.bind]
      rw [hok] at herror
      cases herror
    · exact ⟨runs, fragment, tops, last, htexts, hshows⟩
  · rintro e rfl rfl
    exact engine_shows hlisting fun runs hruns => (hsplit runs hruns).2

/-- A whole call with an argument that is far off, and below it one that lacks an argument. -/
def lacking : Stack := .ofTokens [.name "pair", .arg 3, .number 1, .name "pair", .number 2]

def summing : Engine :=
  ⟨.standard, .ofTokens [.op (.binary .add), .number 2, .number 7, .number (1 / 2)], .empty⟩

theorem lacking_summing_listing_shows_expressions :
    (lacking.listing pairing = .ok ["1 $3 pair", "2 pair"] ∧
      split pairing none lacking.tokens = .error (.shortage .incomplete) ∧
      ∃ runs fragment, lacking.toList = fragment ++ runs.reverse.flatten ∧
        List.Forall₂ (Shows pairing 4) runs ["1 $3 pair"] ∧
        Token.join? fragment = some "2 pair" ∧
        start pairing lacking.toList fragment.length = .error (.shortage .incomplete)) ∧
    summing.run 0 .list = some ⟨.ok [.text "7 2 +", .text "1/2"], summing⟩ ∧
      ∀ es, summing.entries = .ok es →
        List.Forall₂ (fun x line => x.text? = some line) es ["7 2 +", "1/2"] := by
  have hlacking : lacking.listing pairing = .ok ["1 $3 pair", "2 pair"] := by decide +kernel
  have hsplit : split pairing none lacking.tokens = .error (.shortage .incomplete) := by
    decide +kernel
  have hsumming : summing.stack.listing summing.table.arityOf = .ok ["7 2 +", "1/2"] := by
    decide +kernel
  refine ⟨⟨hlacking, hsplit, ?_⟩, ?_⟩
  · obtain ⟨texts, hlisting, -, -, hfails, -⟩ := listing_shows_expressions lacking pairing
      "2 pair 1 $3 pair" (by simp [lacking, ofTokens]) (by decide +kernel)
    obtain ⟨runs, fragment, tops, last, htexts, hshows⟩ := hfails _ hsplit
    rw [hlacking] at hlisting
    have hparts : ["1 $3 pair"] ++ ["2 pair"] = tops ++ [last] :=
      (Except.ok.inj hlisting).trans htexts
    obtain ⟨rfl, hlast'⟩ := List.append_inj' hparts rfl
    cases hlast'
    have hnatural : ∀ t ∈ lacking.tokens, pairing.Natural t := by
      rintro t ht n a rfl ha
      obtain rfl : n = "pair" := by simpa [lacking, ofTokens] using ht
      cases ha
      decide
    have habove : ∀ i, .arg i ∈ lacking.tokens → i < 4 := by simp [lacking, ofTokens]
    exact ⟨runs, fragment, hshows.tokens, hshows.trees hnatural 4 habove, hshows.below,
      hshows.start (by decide)⟩
  · obtain ⟨texts, hlisting, -, -, -, hengine⟩ := listing_shows_expressions summing.stack
      summing.table.arityOf "1/2 7 2 +" (by simp [summing, ofTokens]) (by decide +kernel)
    rw [hsumming] at hlisting
    cases hlisting
    obtain ⟨hrun, hentries⟩ := hengine summing rfl rfl
    exact ⟨hrun 0, hentries⟩

/--
Where a name takes less than no arguments, splitting finds an expression that is none. The listing
shows it in a line of its own, but no tree can be built of it.
-/
theorem listing_misled_by_negative_arity :
    (ofTokens [.op (.binary .add), .name "debt", .number 1]).listing pairing =
      .ok ["debt +", "1"] ∧
    split pairing none [.op (.binary .add), .name "debt", .number 1] =
      .ok [[.name "debt", .op (.binary .add)], [.number 1]] ∧
    ∀ arity, build pairing arity [.name "debt", .op (.binary .add)] =
      .error (.shortage (.operands (.binary .add) 1)) :=
  ⟨by decide +kernel, rfl, fun _ => rfl⟩

end Stack

end ReversePolish
