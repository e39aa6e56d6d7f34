import ReversePolish.Proofs.Declared
import ReversePolish.Proofs.Rendering
import ReversePolish.Proofs.StackShape

/-!
The source text of a function declares it again.

The tokens of a tree can be pushed onto any stack: below each operator of the tree are at least its
own operands, even if names are counted as expressions of their own. What was on the stack does not
matter for the scan from the top either, which takes the tokens of the tree and no more.
-/

namespace ReversePolish

open ReversePolish.Expr (GroupedBy IndexBelow)

lemma Arities.declare_declare (arities : Arities) (name : String) (arity : Int) :
    (arities.declare name arity).declare name arity = arities.declare name arity := by
  funext n
  simp only [declare]
  split <;> rfl

/-! ### Trees on the stack -/

namespace Stack

def pushAll (s : Stack) (ts : List Token) : Stack :=
  ⟨ts.reverse ++ s.tokens, s.count + Token.weights ts⟩

variable (s : Stack) (ts us : List Token)

lemma pushAll_append : s.pushAll (ts ++ us) = (s.pushAll ts).pushAll us := by
  simp [pushAll, Int.add_assoc]

lemma pushAll_singleton (t : Token) : s.pushAll [t] = s.push t := by simp [pushAll, push]

lemma remove_pushAll (run : List Token) (h : Token.weights run = Token.weights ts) :
    (s.pushAll ts).remove run s.tokens = s := by
  simp [pushAll, remove, h]

end Stack

namespace Token

lemma weights_flatten_of_reverse (runs : List (List Token)) :
    weights runs.reverse.flatten = weights runs.flatten := by
  induction runs with
  | nil => rfl
  | cons run runs ih => simp [ih, Int.add_comm]

lemma length_le_weights {es : List Expr} (h : ∀ x ∈ es, 1 ≤ weights x.tokens) :
    (es.length : Int) ≤ weights (es.flatMap Expr.tokens) := by
  induction es with
  | nil => simp
  | cons x es ih =>
    have hx := h x (by simp)
    have hes := ih fun y hy => h y (List.mem_cons_of_mem _ hy)
    simp only [List.length_cons, List.flatMap_cons, weights_append]
    omega

/--
The tokens of a tree count for at least one expression, and for more if names take arguments.
-/
lemma one_le_weights_tokens (e : Expr) : 1 ≤ weights e.tokens := by
  induction e using Expr.induct with
  | node e ih =>
    have hchildren := length_le_weights ih
    rw [Expr.tokens_eq, weights_append, weights_cons, weights_nil]
    cases hlast : e.last with
    | op o =>
      -- an operator makes one of its operands, and each counts for at least one
      have hlen := Expr.children_length hlast
      simp only [weight]
      omega
    | _ =>
      simp only [weight]
      omega

end Token

namespace Engine

variable {run : Engine → Command → Option Reply} {e : Engine}

lemma forEach_cons_of_silent {act : Engine → Token → Option Reply} {t : Token} {after : Engine}
    (h : act e t = some ⟨.ok [], after⟩) (ts : List Token) :
    e.forEach act (t :: ts) = after.forEach act ts := by
  simp only [forEach, h]
  rcases after.forEach act ts with _ | ⟨error | outputs, last⟩ <;> rfl

def pushed (e : Engine) (ts : List Token) : Engine := { e with stack := e.stack.pushAll ts }

lemma accept_of_push {t : Token} (hc : ∀ c, t ≠ .command c)
    (ho : ∀ o, t = .op o → (o.arity : Int) ≤ e.stack.count) :
    accept run e t = some ⟨.ok [], e.pushed [t]⟩ := by
  cases t with
  | command c => exact absurd rfl (hc c)
  | op o =>
    have hle := ho o rfl
    simp only [accept, pushToken, push, if_neg (Int.not_lt.mpr hle), pushed,
      Stack.pushAll_singleton]
  | _ => simp only [accept, pushToken, push, pushed, Stack.pushAll_singleton]

/-- Tokens are pushed onto any stack, without a failure, before others are dealt with. -/
def Pushable (ts : List Token) : Prop :=
  ∀ (run : Engine → Command → Option Reply) (e : Engine) (us : List Token), 0 ≤ e.stack.count →
    e.forEach (accept run) (ts ++ us) = (e.pushed ts).forEach (accept run) us

lemma pushable_flatMap {es : List Expr} (h : ∀ x ∈ es, Pushable x.tokens) :
    Pushable (es.flatMap Expr.tokens) := by
  induction es with
  | nil =>
    intro run e us _
    simp [pushed, Stack.pushAll]
  | cons x es ih =>
    intro run e us he
    have hcount : 0 ≤ (e.pushed x.tokens).stack.count := by
      have hone := Token.one_le_weights_tokens x
      simp only [pushed, Stack.pushAll]
      omega
    rw [List.flatMap_cons, List.append_assoc, h x (by simp) run e _ he,
      ih (fun y hy => h y (List.mem_cons_of_mem _ hy)) run _ us hcount]
    simp only [pushed, Stack.pushAll_append]

lemma pushable_tokens (x : Expr) : Pushable x.tokens := by
  induction x using Expr.induct with
  | node x ih =>
    intro run e us he
    rw [Expr.tokens_eq, List.append_assoc, pushable_flatMap ih run e _ he, List.singleton_append]
    have hlast : accept run (e.pushed (x.children.flatMap Expr.tokens)) x.last =
        some ⟨.ok [], (e.pushed (x.children.flatMap Expr.tokens)).pushed [x.last]⟩ := by
      refine accept_of_push (fun c hc => ?_) fun o ho => ?_
      · cases x <;> cases hc
      · -- the operands of the tree are there, whatever was on the stack before
        have hlen := Expr.children_length ho
        have hchildren := Token.length_le_weights fun y (_ : y ∈ x.children) =>
          Token.one_le_weights_tokens y
        simp only [pushed, Stack.pushAll]
        omega
    rw [forEach_cons_of_silent hlast]
    simp only [pushed, Stack.pushAll_append]

/-! ### Trees taken off the stack -/

variable {arities : Arities} {x : Expr} {ts : List Token} {name : String} {arity : Nat}

/-- Tokens that the scan takes as a whole are taken off any stack. -/
lemma pop_pushed {arity : Int} (htop : Grouping.topRun arities ts.reverse = .ok (ts, []))
    (hbuild : Grouping.build arities arity ts = .ok x) (e : Engine) :
    (e.pushed ts).pop arities arity = (.ok x, e) := by
  have htop' := Grouping.topRun_append htop e.stack.tokens
  simp only [pop, pushed, Stack.pushAll, htop', hbuild, List.nil_append]
  rw [← Stack.pushAll, Stack.remove_pushAll _ _ _ rfl]

lemma popParts_pushed {parts : List Expr} {runs : List (List Token)}
    (hsplit : Grouping.splitTop arities (arity + 2) ts.reverse = .ok (runs, []))
    (hbuild : Grouping.buildAll arities arity runs.reverse = .ok parts) (e : Engine) :
    (e.pushed ts).popParts arities arity = .ok (parts, e) := by
  have hsplit' := Grouping.splitTop_append hsplit e.stack.tokens
  have hweights : Token.weights runs.flatten = Token.weights ts := by
    rw [Grouping.tokens_of_splitTop hsplit, Token.weights_flatten_of_reverse]
  simp only [popParts, pushed, Stack.pushAll, hsplit', hbuild, bind, Except.bind, List.nil_append]
  rw [← Stack.pushAll, Stack.remove_pushAll _ _ _ hweights]

lemma declare_pushed
    (htop : Grouping.topRun (e.table.arityOf.declare name arity) ts.reverse = .ok (ts, []))
    (hbuild : Grouping.build (e.table.arityOf.declare name arity) arity ts = .ok x) :
    (e.pushed ts).declare name arity =
      ⟨.ok [], { e with table := e.table.define ⟨name, arity, .recursive x⟩ }⟩ := by
  have htable : (e.pushed ts).table = e.table := rfl
  unfold declare
  rw [htable, pop_pushed htop hbuild e]

lemma loopOfParts?_parts (loop : Loop) : loopOfParts? (Body.iterative loop).parts = some loop := by
  simp [loopOfParts?, Body.parts]

lemma declareLoop_pushed {loop : Loop} {runs : List (List Token)}
    (hsplit : Grouping.splitTop (e.table.arityOf.declare name arity) (arity + 2) ts.reverse =
      .ok (runs, []))
    (hbuild : Grouping.buildAll (e.table.arityOf.declare name arity) arity runs.reverse =
      .ok (Body.iterative loop).parts) :
    (e.pushed ts).declareLoop name arity =
      ⟨.ok [], { e with table := e.table.define ⟨name, arity, .iterative loop⟩ }⟩ := by
  have htable : (e.pushed ts).table = e.table := rfl
  unfold declareLoop
  rw [htable, popParts_pushed hsplit hbuild e]
  simp only [loopOfParts?_parts]

end Engine

/-! ### The source text -/

namespace Definition

def command (d : Definition) : Command :=
  match d.body with
  | .recursive _ => .declare d.name d.arity.toNat
  | .iterative _ => .declareLoop d.name d.arity.toNat

/--
The tokens are those of the parts of a function, by arities among which the function counts as
declared: as many runs are split off them as the function has parts, nothing is left, and the trees
of these runs are the parts.
-/
structure WrittenAs (d : Definition) (arities : Arities) (run : List Token) : Prop where
  natural : 0 ≤ d.arity
  steps : ∀ loop, d.body = .iterative loop → (loop.steps.length : Int) = d.arity
  parts : ∃ runs,
    Grouping.splitTop (arities.declare d.name d.arity) d.body.parts.length run.reverse =
      .ok (runs, []) ∧
    Grouping.buildAll (arities.declare d.name d.arity) d.arity runs.reverse = .ok d.body.parts

variable {d : Definition} {arities : Arities} {run : List Token}

lemma WrittenAs.tokens (h : d.WrittenAs arities run) :
    d.body.parts.flatMap Expr.tokens = run := by
  obtain ⟨runs, hsplit, hbuild⟩ := h.parts
  rw [Grouping.tokens_of_splitTop hsplit, ← (Engine.of_buildAll_eq_ok hbuild).1, List.flatMap_def]

/-- Trees in which each name takes its arguments are written as their own tokens. -/
lemma writtenAs_of_grouped (hnatural : 0 ≤ d.arity) (hclosed : d.body.Closed d.arity)
    (hgrouped : ∀ x ∈ d.body.parts, x.Every (GroupedBy (arities.declare d.name d.arity))) :
    d.WrittenAs arities (d.body.parts.flatMap Expr.tokens) := by
  refine ⟨hnatural, hclosed.steps, (d.body.parts.map Expr.tokens).reverse, ?_, ?_⟩
  · have hruns := Grouping.takeRuns_tokens hgrouped []
    rw [List.append_nil] at hruns
    exact Grouping.splitTop_eq_ok_iff.mpr ⟨hruns, by simp⟩
  · rw [List.reverse_reverse]
    exact Grouping.buildAll_tokens fun x hx =>
      ⟨(hgrouped x hx).imp fun _ hy => hy.clamped, hclosed.below x hx⟩

lemma spells_command {arity : String} (hd : d.body.Declared d.name d.arity)
    (ha : Decimal.ofInt? d.arity = some arity) :
    Spells (d.name ++ d.body.mark ++ arity).toList [.command d.command] := by
  obtain ⟨name, arity, body⟩ := d
  obtain ⟨arity, rfl⟩ := Int.eq_ofNat_of_zero_le hd.natural
  obtain ⟨hfits, hdigits⟩ := Decimal.ofInt?_natCast ha
  have hrecursive : Token.declaration? '|' = some .declare := rfl
  have hiterative : Token.declaration? '@' = some .declareLoop := rfl
  cases body with
  | recursive x =>
    simpa [hdigits, Body.mark, Body.isIterative, command] using
      Token.spells_declaration hrecursive hd.named hfits
  | iterative loop =>
    simpa [hdigits, Body.mark, Body.isIterative, command] using
      Token.spells_declaration hiterative hd.named hfits

lemma ofSource_source {source : String} (hd : d.body.Declared d.name d.arity)
    (h : d.source? = some source) :
    Token.ofSource source = .ok (d.body.parts.flatMap Expr.tokens ++ [.command d.command]) := by
  simp only [source?, Option.bind_eq_bind, Option.bind_eq_some_iff, Option.some.injEq] at h
  obtain ⟨texts, htexts, arity, harity, rfl⟩ := h
  have hparts : ∀ x ∈ d.body.parts, ∀ s, x.text? = some s → Spells s.toList x.tokens := by
    intro x hx s hs
    obtain ⟨hn, hi⟩ := Expr.readable_tokens_iff.mp (hd.readable x hx)
    exact Expr.spells_text hn hi hs
  have hne : d.body.parts ≠ [] := by cases d.body <;> simp [Body.parts]
  have hspells := (Spells.intercalate hparts htexts hne).append (spells_command hd harity)
  refine Reads.ofSource ?_
  simpa [String.toList_append] using hspells.reads

end Definition

namespace Engine

variable {e : Engine} {d : Definition}

/-- The parts of a function on top of a stack are declared as the function, and the rest is left. -/
lemma runBy_command {run : List Token} (h : d.WrittenAs e.table.arityOf run)
    (eval : Expr → Option Outcome) :
    (e.pushed run).runBy eval d.command = some ⟨.ok [], { e with table := e.table.define d }⟩ := by
  obtain ⟨hnatural, hsteps, runs, hsplit, hbuild⟩ := h
  obtain ⟨name, arity, body⟩ := d
  obtain ⟨arity, rfl⟩ := Int.eq_ofNat_of_zero_le hnatural
  cases body with
  | recursive x =>
    -- a single run that leaves nothing is what a scan of the top takes
    have hlen : runs.length = 1 := (Grouping.splitTop_eq_ok_iff.mp hsplit).2
    obtain ⟨run', rfl⟩ := List.length_eq_one_iff.mp hlen
    obtain rfl : run = run' := by simpa using Grouping.tokens_of_splitTop hsplit
    obtain ⟨x', es, hx, -, heq⟩ := Grouping.buildAll_cons_eq_ok hbuild
    cases heq
    exact congrArg some (declare_pushed (Grouping.splitTop_one_iff.mp hsplit) hx)
  | iterative loop =>
    have hlen : (Body.iterative loop).parts.length = arity + 2 := by
      have hlength : (loop.steps.length : Int) = arity := hsteps loop rfl
      simp only [Body.parts, List.length_append, List.length_cons, List.length_nil]
      omega
    dsimp only at hsplit
    rw [hlen] at hsplit
    exact congrArg some (declareLoop_pushed hsplit hbuild)

/--
A text with the tokens and the command of a function declares it, and leaves the stack as it was.
-/
lemma feed_writtenAs {source : String} {run : List Token} (he : 0 ≤ e.stack.count)
    (h : d.WrittenAs e.table.arityOf run)
    (hs : Token.ofSource source = .ok (run ++ [.command d.command])) (fuel : Nat) :
    e.feed fuel source = some ⟨.ok [], { e with table := e.table.define d }⟩ := by
  have hpush : Pushable run := by
    rw [← h.tokens]
    exact pushable_flatMap fun x _ => pushable_tokens x
  rw [feed_of_ofSource hs, hpush _ e _ he]
  exact forEach_cons_of_silent (runBy_command h _) []

lemma Sourced.count_nonneg (h : e.Sourced) : 0 ≤ e.stack.count := by
  obtain ⟨limits, h⟩ := h
  exact (h.sound (fun _ => id) Stack.sound_empty).count_nonneg

lemma Sourced.feed_source {source : String} (h : e.Sourced)
    (hd : e.table.definition? d.name d.arity = some d)
    (hg : ∀ x ∈ d.body.parts, x.Every (GroupedBy (e.table.arityOf.declare d.name d.arity)))
    (hs : d.source? = some source) (fuel : Nat) :
    e.feed fuel source = some ⟨.ok [], { e with table := e.table.define d }⟩ := by
  have hbody : e.table.body? d.name d.arity = some d.body := by
    rw [Table.body?, hd, Option.map_some]
  have hdeclared := h.legible.table d.name d.arity d.body hbody
  have hwritten := Definition.writtenAs_of_grouped hdeclared.natural hdeclared.closed hg
  exact feed_writtenAs h.count_nonneg hwritten (Definition.ofSource_source hdeclared hs) fuel

/--
**The source text of a function declares it again.** Take any engine that source texts have made,
and a function of its table in whose trees every call has as many arguments as its name takes, and
every other name takes none, where the function itself counts as the one declared last for its name.
Feeding the source text of the function, if there is one, succeeds without output, leaves the stack
as it was, and writes the function to the table. Right after a declaration this holds of the
function that was declared, and as it is there already, feeding its source text changes nothing but
the number of writes.
-/
theorem source_declares_again (e : Engine) (h : e.Sourced) :
    (∀ d source fuel, e.table.definition? d.name d.arity = some d →
      (∀ x ∈ d.body.parts, x.Every (GroupedBy (e.table.arityOf.declare d.name d.arity))) →
      d.source? = some source →
      e.feed fuel source = some ⟨.ok [], { e with table := e.table.define d }⟩) ∧
    ∀ c name arity fuel outputs after, (Token.command c).Lexed →
      (c = .declare name arity ∨ c = .declareLoop name arity) →
      e.run fuel c = some ⟨.ok outputs, after⟩ →
      ∃ d : Definition, d.name = name ∧ d.arity = arity ∧
        after.table.definition? name arity = some d ∧
        (∀ x ∈ d.body.parts, x.Every (GroupedBy (after.table.arityOf.declare name arity))) ∧
        ∀ source fuel, d.source? = some source →
          after.feed fuel source = some ⟨.ok [], { after with
            table := { after.table with generation := after.table.generation + 1 } }⟩ := by
  refine ⟨fun d source fuel hd hg hs => h.feed_source hd hg hs fuel, ?_⟩
  intro c name arity fuel outputs after hlexed hc hrun
  obtain ⟨body, hb, -, htable⟩ := runBy_declaration_eq_ok hc hrun
  have hafter : after.Sourced := h.run hlexed hrun
  have hfound : after.table.definition? name arity = some ⟨name, arity, body⟩ := by
    rw [htable, Table.definition?_define, if_pos ⟨rfl, rfl⟩]
  have hgrouped : ∀ x ∈ body.parts,
      x.Every (GroupedBy (after.table.arityOf.declare name arity)) := by
    intro x hx
    rw [htable, Table.arityOf_define, Arities.declare_declare]
    exact Expr.every_groupedBy_of_clamped (hb.grouped x hx) fun t _ =>
      h.natural.declare name (Int.natCast_nonneg arity) t
  refine ⟨⟨name, arity, body⟩, rfl, rfl, hfound, hgrouped, fun source fuel hs => ?_⟩
  rw [hafter.feed_source hfound hgrouped hs fuel, htable, Table.define_define]

def factorialBody : Expr :=
  .select (.literal 1) (.binary .mul (.arg 0) (.call "fact" [.binary .sub (.arg 0) (.literal 1)]))
    (.binary .monus (.literal 1) (.arg 0))

def factorial : Definition := ⟨"fact", 1, .recursive factorialBody⟩

lemma factorial_source : factorial.source? = some "1 $0 $0 1 - fact * 1 $0 ~ ? fact|1" := by
  decide +kernel

def declaring : Engine :=
  ⟨.standard, .ofTokens factorialBody.tokens.reverse, .empty⟩

lemma declaring_sourced : declaring.Sourced := by
  have hread : Token.ofSource "1 $0 $0 1 - fact * 1 $0 ~ ?" = .ok factorialBody.tokens := by
    decide +kernel
  have hfeed : (new .standard).feed 1 "1 $0 $0 1 - fact * 1 $0 ~ ?" =
      some ⟨.ok [], declaring⟩ := by
    rw [feed_of_ofSource hread]
    rfl
  exact (Sourced.start .standard).feed hfeed

/-- An engine with the factorial in its table and its name, without an argument, on its stack. -/
def unfinished : Engine := ⟨.standard, .ofTokens [.name "fact"], Table.empty.define factorial⟩

lemma unfinished_sourced : unfinished.Sourced := by
  have hread : Token.ofSource "fact|1 fact" = .ok [.command (.declare "fact" 1), .name "fact"] := by
    decide +kernel
  have hfeed : declaring.feed 1 "fact|1 fact" = some ⟨.ok [], unfinished⟩ := by
    rw [feed_of_ofSource hread]
    rfl
  exact declaring_sourced.feed hfeed

/-- The factorial is declared again below its lone name, and right after it was declared. -/
theorem factorial_source_declares_again :
    (unfinished.Sourced ∧ unfinished.feed 1 "1 $0 $0 1 - fact * 1 $0 ~ ? fact|1" =
      some ⟨.ok [], { unfinished with table := unfinished.table.define factorial }⟩) ∧
    declaring.Sourced ∧
      declaring.run 1 (.declare "fact" 1) =
        some ⟨.ok [], ⟨.standard, .empty, Table.empty.define factorial⟩⟩ ∧
      feed ⟨.standard, .empty, Table.empty.define factorial⟩ 1
          "1 $0 $0 1 - fact * 1 $0 ~ ? fact|1" =
        some ⟨.ok [],
          ⟨.standard, .empty, { Table.empty.define factorial with generation := 2 }⟩⟩ := by
  have hgrouped : ∀ x ∈ factorial.body.parts,
      x.Every (GroupedBy (unfinished.table.arityOf.declare "fact" 1)) := by
    intro x hx
    obtain rfl : x = factorialBody := List.mem_singleton.mp hx
    have hbuild : Grouping.build (unfinished.table.arityOf.declare "fact" 1) 1
        factorialBody.tokens = .ok factorialBody := rfl
    exact Expr.every_groupedBy_of_clamped (Grouping.build_eq_ok_iff.mp hbuild).2.1 fun t _ =>
      unfinished_sourced.natural.declare "fact" (by decide) t
  have hlexed : (Token.command (.declare "fact" 1)).Lexed :=
    ⟨"fact|1", [.command (.declare "fact" 1)], by decide +kernel, by simp⟩
  obtain ⟨hagain, -⟩ := source_declares_again unfinished unfinished_sourced
  obtain ⟨-, hright⟩ := source_declares_again declaring declaring_sourced
  obtain ⟨d, -, -, hfound, -, hfeed⟩ := hright _ "fact" 1 1 _ _ hlexed (.inl rfl) rfl
  have hd : factorial = d := Option.some.inj hfound
  exact ⟨⟨unfinished_sourced, hagain factorial _ 1 rfl hgrouped factorial_source⟩,
    declaring_sourced, rfl, hfeed _ 1 (hd ▸ factorial_source)⟩

end Engine

end ReversePolish
