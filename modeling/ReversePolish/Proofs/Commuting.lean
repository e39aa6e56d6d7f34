import ReversePolish.Proofs.Locality

/-!
Declarations of different functions can change places.

What a declaration writes to the table hangs on the table only through the arities of the names in
its own tokens. So one that was made before matters only if its name is among them, and the two
entries of the table do not touch each other.
-/

namespace ReversePolish

/-! ### Writes of different names -/

namespace Table

variable {t : Table} {d d' : Definition}

lemma define_comm (h : d.name ≠ d'.name) : (t.define d).define d' = (t.define d').define d := by
  refine ext_lookup (fun n => ?_) (fun n k => ?_) (fun n => ?_) rfl
  · simp only [valueOf?_define]
    split <;> split <;> rfl
  · simp only [definition?_define]
    by_cases hn : n = d.name
    · simp [hn, h]
    · simp [hn]
  · simp only [arityOf_define_apply]
    by_cases hn : n = d.name
    · simp [hn, h]
    · simp [hn]

end Table

/-! ### Tokens under different arities -/

namespace Grouping

variable {arities arities' : Arities} {stack run : List Token} {runs : List (List Token)}

/-- A scan asks for the arities of the names that it meets, and no others. -/
lemma takeRun_congr (h : ∀ n, .name n ∈ stack → arities n = arities' n) (need : Nat)
    (acc : List Token) : takeRun arities need acc stack = takeRun arities' need acc stack := by
  induction stack generalizing need acc with
  | nil => cases need <;> rfl
  | cons t stack ih =>
    cases need with
    | zero => rfl
    | succ need =>
      have ht : operands arities t = operands arities' t := by
        cases t with
        | name n => simp only [operands, h n List.mem_cons_self]
        | _ => rfl
      have hstack := ih fun n hn => h n (List.mem_cons_of_mem _ hn)
      simp only [takeRun, ht, hstack]

lemma takeRuns_congr (h : ∀ n, .name n ∈ stack → arities n = arities' n) (count : Nat) :
    takeRuns arities count stack = takeRuns arities' count stack := by
  induction count generalizing stack with
  | zero => rfl
  | succ count ih =>
    cases stack with
    | nil => rfl
    | cons t stack =>
      have htop : topRun arities (t :: stack) = topRun arities' (t :: stack) :=
        takeRun_congr h 1 []
      rcases hresult : topRun arities' (t :: stack) with error | ⟨run, below⟩
      · simp only [takeRuns, htop, hresult, bind, Except.bind]
      · have hbelow := ih fun n hn => h n (mem_of_below hresult hn)
        simp only [takeRuns, htop, hresult, hbelow, bind, Except.bind]

lemma splitTop_congr (h : ∀ n, .name n ∈ stack → arities n = arities' n) (count : Nat) :
    splitTop arities count stack = splitTop arities' count stack := by
  simp only [splitTop, takeRuns_congr h]

lemma fold_congr_arities (h : ∀ n, .name n ∈ run → arities n = arities' n) (arity : Int)
    (trees : List Expr) : fold arities arity trees run = fold arities' arity trees run := by
  induction run generalizing trees with
  | nil => rfl
  | cons t run ih =>
    have ht : addToken arities arity trees t = addToken arities' arity trees t := by
      cases t with
      | name n => simp only [addToken, h n List.mem_cons_self]
      | _ => rfl
    have hrun := ih fun n hn => h n (List.mem_cons_of_mem _ hn)
    simp only [fold, ht, hrun]

lemma buildAll_congr (h : ∀ run ∈ runs, ∀ n, .name n ∈ run → arities n = arities' n) (arity : Int) :
    buildAll arities arity runs = buildAll arities' arity runs := by
  induction runs with
  | nil => rfl
  | cons run runs ih =>
    obtain ⟨hrun, hruns⟩ := List.forall_mem_cons.mp h
    simp only [buildAll, build, fold_congr_arities hrun, ih hruns]

end Grouping

lemma Definition.WrittenAs.congr {d : Definition} {arities arities' : Arities} {run : List Token}
    (h : d.WrittenAs arities run) (heq : ∀ n, .name n ∈ run → n ≠ d.name → arities n = arities' n) :
    d.WrittenAs arities' run := by
  obtain ⟨hnatural, hsteps, runs, hsplit, hbuild⟩ := h
  have hnames : ∀ n, .name n ∈ run →
      arities.declare d.name d.arity n = arities'.declare d.name d.arity n := by
    intro n hn
    simp only [Arities.declare]
    split
    · rfl
    · next hne => exact heq n hn hne
  refine ⟨hnatural, hsteps, runs, ?_, ?_⟩
  · rw [← hsplit]
    exact (Grouping.splitTop_congr (fun n hn => hnames n (List.mem_reverse.mp hn)) _).symm
  · rw [← hbuild]
    refine (Grouping.buildAll_congr (fun part hpart n hn => hnames n ?_) _).symm
    rw [Grouping.tokens_of_splitTop hsplit]
    exact List.mem_flatten.mpr ⟨part, hpart, hn⟩

/-! ### What a declaration writes -/

namespace Grouping

variable {arities : Arities} {arity : Int} {run taken left : List Token}
  {runs found : List (List Token)}

/-- If the scan takes a tree off one complete expression, it has taken all of it. -/
lemma Whole.eq_of_build {e : Expr} (h : Whole arities run)
    (htop : topRun arities run.reverse = .ok (taken, left))
    (hbuild : build arities arity taken = .ok e) : taken = run ∧ left = [] := by
  rcases h with h | h
  · -- without arities below zero the scan stops at the tree, and at the expression
    have htaken := (complete_of_build hbuild).topRun left
    have hrun := h.topRun []
    rw [List.append_nil, topRun_eq_ok htop, htaken] at hrun
    cases hrun
    exact ⟨rfl, rfl⟩
  · rw [h] at htop
    cases htop
    exact ⟨rfl, rfl⟩

/-- So many trees that are taken off so many complete expressions are all of them. -/
lemma eq_of_buildAll (h : ∀ run ∈ runs, Whole arities run)
    (hfound : takeRuns arities runs.length runs.flatten.reverse = .ok (found, left))
    (hbuild : ∀ run ∈ found, ∃ e, build arities arity run = .ok e) :
    found = runs.reverse ∧ left = [] := by
  induction runs using List.reverseRecOn generalizing found with
  | nil =>
    cases hfound
    exact ⟨rfl, rfl⟩
  | append_singleton runs run ih =>
    obtain ⟨taken, rest, htop⟩ := (h run (by simp)).exists_topRun
    have htop' := topRun_append htop runs.flatten.reverse
    rw [← List.reverse_append] at htop'
    have hflatten : (runs ++ [run]).flatten = runs.flatten ++ run := by simp
    rw [hflatten, List.length_append, List.length_singleton] at hfound
    cases hstack : (runs.flatten ++ run).reverse with
    | nil =>
      rw [hstack] at htop'
      cases htop'
    | cons t stack =>
      rw [hstack] at htop' hfound
      obtain ⟨run', below, found', hrun', hrest, rfl⟩ := takeRuns_succ_eq_ok hfound
      rw [htop'] at hrun'
      cases hrun'
      obtain ⟨⟨e, he⟩, hbuild'⟩ := List.forall_mem_cons.mp hbuild
      -- the expression on top has been taken as a whole, so the rest is the others
      obtain ⟨rfl, rfl⟩ := (h run (by simp)).eq_of_build htop he
      obtain ⟨rfl, rfl⟩ := ih (fun r hr => h r (List.mem_append_left _ hr)) hrest hbuild'
      exact ⟨by simp, rfl⟩

lemma command_notMem_of_takeRun {need : Nat} {acc stack : List Token}
    (h : takeRun arities need acc stack = .ok (run, left)) (hacc : ∀ c, .command c ∉ acc) :
    ∀ c, .command c ∉ run := by
  induction stack generalizing need acc with
  | nil =>
    cases need with
    | zero =>
      cases h
      exact hacc
    | succ need => cases h
  | cons t stack ih =>
    cases need with
    | zero =>
      cases h
      exact hacc
    | succ need =>
      obtain ⟨k, hk, hrest⟩ := takeRun_succ_eq_ok h
      refine ih hrest fun c hc => ?_
      rcases List.mem_cons.mp hc with rfl | hc
      · cases hk
      · exact hacc c hc

lemma Whole.command_notMem (h : Whole arities run) : ∀ c, .command c ∉ run := by
  rcases h with ⟨x, rfl, -⟩ | h
  · -- each token of a tree closes a node, and none is closed by a command
    intro c hc
    have hlast := (Expr.every_last_iff (e := x) fun t => t ≠ .command c).mp
      (Expr.every_of_forall (fun y => by cases y <;> simp [Expr.last]) x)
    exact hlast _ hc rfl
  · exact command_notMem_of_takeRun h (by simp)

end Grouping

lemma Command.Takes.command_notMem {c : Command} {table : Table} {run : List Token}
    (h : c.Takes table run) : ∀ c, .command c ∉ run := by
  cases c with
  | declareLoop n k =>
    obtain ⟨runs, -, hruns, rfl⟩ := h
    intro c hc
    obtain ⟨part, hpart, hc⟩ := List.mem_flatten.mp hc
    exact (hruns part hpart).command_notMem c hc
  | flush => cases h
  | list => cases h
  | clear => cases h
  | unknown s => cases h
  | _ => exact Grouping.Whole.command_notMem h

namespace Engine

variable {e after : Engine} {run : List Token} {outputs : List Output} {name : String} {arity : Nat}

lemma writtenAs_of_declare (hrun : Grouping.Whole (e.table.arityOf.declare name arity) run)
    (h : (e.pushed run).declare name arity = ⟨.ok outputs, after⟩) :
    ∃ x, Definition.WrittenAs ⟨name, arity, .recursive x⟩ e.table.arityOf run := by
  obtain ⟨x, popped, hpop, -, -⟩ := declare_eq_ok h
  obtain ⟨taken, left, htop⟩ := hrun.exists_topRun
  have htop' := Grouping.topRun_append htop e.stack.tokens
  simp only [pop, pushed, Stack.pushAll, htop'] at hpop
  injection hpop with hbuild
  obtain ⟨rfl, rfl⟩ := hrun.eq_of_build htop hbuild
  have hnone : ∀ loop, Body.recursive x = .iterative loop →
      (loop.steps.length : Int) = arity := fun loop hloop => by cases hloop
  refine ⟨x, Int.natCast_nonneg arity, hnone, [taken], Grouping.splitTop_one_iff.mpr htop, ?_⟩
  simp only [Body.parts, List.reverse_singleton, Grouping.buildAll, hbuild, bind, Except.bind]

lemma writtenAs_of_declareLoop {runs : List (List Token)} (hlen : runs.length = arity + 2)
    (hruns : ∀ part ∈ runs, Grouping.Whole (e.table.arityOf.declare name arity) part)
    (h : (e.pushed runs.flatten).declareLoop name arity = ⟨.ok outputs, after⟩) :
    ∃ loop, Definition.WrittenAs ⟨name, arity, .iterative loop⟩ e.table.arityOf runs.flatten := by
  obtain ⟨parts, popped, loop, hparts, hloop, -, -⟩ := declareLoop_eq_ok h
  have hclosed := (built_declareLoop hparts hloop).closed
  obtain ⟨found, below, hsplit, hbuild, -⟩ := popParts_eq_ok hparts
  obtain ⟨found', left, hsplit'⟩ := Grouping.exists_splitTop hruns
  -- on top of the stack the same is taken as off the tokens alone
  have hsame := (Grouping.splitTop_append hsplit' e.stack.tokens).symm.trans (hlen ▸ hsplit)
  obtain ⟨rfl, rfl⟩ := Prod.mk.inj (Except.ok.inj hsame)
  have hbuilds : ∀ part ∈ found', ∃ x,
      Grouping.build (e.table.arityOf.declare name arity) arity part = .ok x := by
    intro part hpart
    exact Grouping.exists_build_of_buildAll hbuild (List.mem_reverse.mpr hpart)
  obtain ⟨hfound, hlen'⟩ := Grouping.splitTop_eq_ok_iff.mp hsplit'
  obtain ⟨rfl, rfl⟩ := Grouping.eq_of_buildAll hruns hfound hbuilds
  refine ⟨loop, Int.natCast_nonneg arity, hclosed.steps, runs.reverse, ?_, ?_⟩
  · have hcount : (Body.iterative loop).parts.length = runs.length := by
      rw [parts_of_loopOfParts? hloop, ← List.length_map (f := Expr.tokens),
        (of_buildAll_eq_ok hbuild).1, List.length_reverse, List.length_reverse]
    dsimp only
    rw [hcount]
    exact hsplit'
  · dsimp only
    rw [parts_of_loopOfParts? hloop]
    exact hbuild

/--
A text that declares a function of the given name: the tokens are exactly what the declaration
takes, followed by the declaration, and the engine accepts them.
-/
def Declares (e : Engine) (source name : String) (run : List Token) : Prop :=
  ∃ arity c, (c = .declare name arity ∨ c = .declareLoop name arity) ∧
    Token.ofSource source = .ok (run ++ [.command c]) ∧ c.Takes e.table run ∧
    ∃ fuel outputs after, e.feed fuel source = some ⟨.ok outputs, after⟩

lemma forEach_singleton_eq_ok {act : Engine → Token → Option Reply} {t : Token}
    (h : e.forEach act [t] = some ⟨.ok outputs, after⟩) : act e t = some ⟨.ok outputs, after⟩ := by
  simp only [forEach] at h
  rcases hact : act e t with _ | ⟨error | outputs', after'⟩
  · rw [hact] at h
    cases h
  · rw [hact] at h
    cases h
  · rw [hact] at h
    simpa using h

lemma forEach_pushed {act : Engine → Command → Option Reply} {us : List Token}
    (hc : ∀ c, .command c ∉ run)
    (h : e.forEach (accept act) (run ++ us) = some ⟨.ok outputs, after⟩) :
    (e.pushed run).forEach (accept act) us = some ⟨.ok outputs, after⟩ := by
  induction run generalizing e with
  | nil =>
    have hpushed : e.pushed [] = e := by simp [pushed, Stack.pushAll]
    rwa [hpushed]
  | cons t run ih =>
    have ht : ∀ c, t ≠ .command c := fun c hct => hc c (by simp [hct])
    have haccept : accept act e t = some (e.pushToken t) := by
      cases t with
      | command c => exact absurd rfl (ht c)
      | _ => rfl
    rcases hpush : e.push t with error | after'
    · -- a token that is refused would have ended it all
      have hrefused : e.pushToken t = ⟨.error error, e⟩ := by simp only [pushToken, hpush]
      simp only [List.cons_append, forEach, haccept, hrefused] at h
      cases h
    · have hpushed : after' = e.pushed [t] := by
        rw [(push_eq_ok hpush).1, pushed, Stack.pushAll_singleton]
      have hsilent : accept act e t = some ⟨.ok [], e.pushed [t]⟩ := by
        rw [haccept, ← hpushed]
        simp only [pushToken, hpush]
      rw [List.cons_append, forEach_cons_of_silent hsilent] at h
      have hrest := ih (fun c hct => hc c (List.mem_cons_of_mem _ hct)) h
      have hboth : e.pushed (t :: run) = (e.pushed [t]).pushed run := by
        rw [← List.singleton_append, pushed, Stack.pushAll_append]
        rfl
      rwa [hboth]

/-- What such a text declares can be read off its tokens. -/
lemma Declares.exists_definition {source : String} (h : e.Declares source name run) :
    ∃ d : Definition, d.name = name ∧ d.WrittenAs e.table.arityOf run ∧
      Token.ofSource source = .ok (run ++ [.command d.command]) := by
  obtain ⟨arity, c, hc, hs, htakes, fuel, outputs, after, hfeed⟩ := h
  rw [feed_of_ofSource hs] at hfeed
  have hrun := forEach_singleton_eq_ok (forEach_pushed htakes.command_notMem hfeed)
  rcases hc with rfl | rfl
  · obtain ⟨x, hx⟩ := writtenAs_of_declare htakes (Option.some.inj hrun)
    exact ⟨_, rfl, hx, hs⟩
  · obtain ⟨runs, hlen, hruns, rfl⟩ := htakes
    obtain ⟨loop, hloop⟩ := writtenAs_of_declareLoop hlen hruns (Option.some.inj hrun)
    exact ⟨_, rfl, hloop, hs⟩

/-- A function is declared in the same way after another one that its tokens do not name. -/
lemma feed_after {d d' : Definition} {source : String} (he : 0 ≤ e.stack.count)
    (h : d.WrittenAs e.table.arityOf run)
    (hs : Token.ofSource source = .ok (run ++ [.command d.command]))
    (hname : .name d'.name ∉ run) (fuel : Nat) :
    feed { e with table := e.table.define d' } fuel source =
      some ⟨.ok [], { e with table := (e.table.define d').define d }⟩ := by
  have hwritten : d.WrittenAs (e.table.define d').arityOf run := by
    refine h.congr fun n hn _ => ?_
    have hne : n ≠ d'.name := fun heq => hname (heq ▸ hn)
    rw [Table.arityOf_define_apply, if_neg hne]
  exact feed_writtenAs (e := { e with table := e.table.define d' }) he hwritten hs fuel

/--
**Independent declarations commute.** Take an engine in any state that it can get into, and two
texts that it accepts, each of which declares a function, recursive or iterative, with exactly the
expressions that the declaration takes. If the functions have different names and neither name is
used in the other text, then the texts are accepted in both orders, without output. In both cases
the engine ends up the same, with its old stack and with both functions written to the table.
-/
theorem declarations_commute (e : Engine) (h : e.Reachable) (f g sourceF sourceG : String)
    (runF runG : List Token) (hfg : f ≠ g) (hf : e.Declares sourceF f runF)
    (hg : e.Declares sourceG g runG) (hgf : .name g ∉ runF) (hfg' : .name f ∉ runG) :
    ∃ (d d' : Definition) (last : Engine), d.name = f ∧ d'.name = g ∧
      last = { e with table := (e.table.define d).define d' } ∧
      ∀ fuel,
        e.feed fuel sourceF = some ⟨.ok [], { e with table := e.table.define d }⟩ ∧
        feed { e with table := e.table.define d } fuel sourceG = some ⟨.ok [], last⟩ ∧
        e.feed fuel sourceG = some ⟨.ok [], { e with table := e.table.define d' }⟩ ∧
        feed { e with table := e.table.define d' } fuel sourceF = some ⟨.ok [], last⟩ := by
  have he : 0 ≤ e.stack.count := h.sound.count_nonneg
  obtain ⟨d, rfl, hd, hsF⟩ := hf.exists_definition
  obtain ⟨d', rfl, hd', hsG⟩ := hg.exists_definition
  refine ⟨d, d', _, rfl, rfl, rfl, fun fuel => ⟨feed_writtenAs he hd hsF fuel,
    feed_after he hd' hsG hfg' fuel, feed_writtenAs he hd' hsG fuel, ?_⟩⟩
  rw [Table.define_comm hfg]
  exact feed_after he hd hsF hgf fuel

/-- An engine with an unfinished call of a function of one argument on its stack. -/
def waiting : Engine :=
  ⟨.standard, .ofTokens [.op (.binary .mul), .name "twice", .number 3], .empty⟩

lemma waiting_reachable : waiting.Reachable :=
  (((Reachable.start .standard .empty).push (t := .number 3) rfl).push
    (t := .name "twice") rfl).push (t := .op (.binary .mul)) rfl

def twiceRun : List Token :=
  [.number 0, .arg 0, .number 1, .op (.binary .sub), .name "twice", .number 2, .op (.binary .add),
    .arg 0, .op .select]

/-- The parts of a loop with one argument, which counts down. -/
def downRuns : List (List Token) :=
  [[.arg 0, .number 1, .op (.binary .sub)], [.arg 0], [.number 1, .arg 0, .op (.binary .monus)]]

lemma waiting_declares_twice :
    waiting.Declares "0 $0 1 - twice 2 + $0 ? twice|1" "twice" twiceRun := by
  have hs : Token.ofSource "0 $0 1 - twice 2 + $0 ? twice|1" =
      .ok (twiceRun ++ [.command (.declare "twice" 1)]) := by
    decide +kernel
  have htakes : (Command.declare "twice" 1).Takes waiting.table twiceRun := .inr (by decide)
  exact ⟨1, _, .inl rfl, hs, htakes, 0, [], _, (feed_of_ofSource hs waiting 0).trans rfl⟩

lemma waiting_declares_down :
    waiting.Declares "$0 1 - $0 1 $0 ~ down@1" "down" downRuns.flatten := by
  have hs : Token.ofSource "$0 1 - $0 1 $0 ~ down@1" =
      .ok (downRuns.flatten ++ [.command (.declareLoop "down" 1)]) := by
    decide +kernel
  have htakes : (Command.declareLoop "down" 1).Takes waiting.table downRuns.flatten := by
    refine ⟨downRuns, rfl, fun part hpart => .inr ?_, rfl⟩
    simp only [downRuns, List.mem_cons, List.not_mem_nil, or_false] at hpart
    rcases hpart with rfl | rfl | rfl <;> decide
  exact ⟨1, _, .inr rfl, hs, htakes, 0, [], _, (feed_of_ofSource hs waiting 0).trans rfl⟩

/-- A recursive function and a loop, declared in both orders above a call of the first. -/
theorem twice_down_declarations_commute :
    (waiting.Reachable ∧ "twice" ≠ "down" ∧
      waiting.Declares "0 $0 1 - twice 2 + $0 ? twice|1" "twice" twiceRun ∧
      waiting.Declares "$0 1 - $0 1 $0 ~ down@1" "down" downRuns.flatten ∧
      .name "down" ∉ twiceRun ∧ .name "twice" ∉ downRuns.flatten) ∧
    ∃ (afterTwice afterDown last : Engine), last.stack = waiting.stack ∧ ∀ fuel,
      waiting.feed fuel "0 $0 1 - twice 2 + $0 ? twice|1" = some ⟨.ok [], afterTwice⟩ ∧
      afterTwice.feed fuel "$0 1 - $0 1 $0 ~ down@1" = some ⟨.ok [], last⟩ ∧
      waiting.feed fuel "$0 1 - $0 1 $0 ~ down@1" = some ⟨.ok [], afterDown⟩ ∧
      afterDown.feed fuel "0 $0 1 - twice 2 + $0 ? twice|1" = some ⟨.ok [], last⟩ := by
  have hne : "twice" ≠ "down" := by decide
  have hdown : .name "down" ∉ twiceRun := by decide
  have htwice : .name "twice" ∉ downRuns.flatten := by decide
  obtain ⟨d, d', last, -, -, hlast, hfeed⟩ := declarations_commute waiting
    waiting_reachable _ _ _ _ _ _ hne waiting_declares_twice waiting_declares_down hdown htwice
  exact ⟨⟨waiting_reachable, hne, waiting_declares_twice, waiting_declares_down, hdown, htwice⟩,
    _, _, last, by rw [hlast], hfeed⟩

end Engine

end ReversePolish
