import Mathlib.Data.List.Forall2
import ReversePolish.Proofs.DepthLimit

/-!
An expression means no more than what its parts come to.

Two nodes of the same kind end alike if their children end alike, wherever these stand and whether
or not they are evaluated at all, since a call knows the values of its arguments and nothing of how
they were found. The fold of tokens does not look into the trees that are there, so it makes nodes
of the same kind of trees that end alike. A part of some tokens can therefore be replaced by its
value, if there is a token for this.
-/

namespace ReversePolish

/-! ### Nodes with related children -/

/-- Nodes of the same kind, whose children are related one by one. -/
inductive Expr.Similar (R : Expr → Expr → Prop) : Expr → Expr → Prop
  | literal (v : Number) : Similar R (.literal v) (.literal v)
  | name (n : String) : Similar R (.name n) (.name n)
  | arg (i : Int) : Similar R (.arg i) (.arg i)
  | binary (op : Binary) {l l' r r' : Expr} (hl : R l l') (hr : R r r') :
    Similar R (.binary op l r) (.binary op l' r')
  | powMod {b b' e e' m m' : Expr} (hb : R b b') (he : R e e') (hm : R m m') :
    Similar R (.powMod b e m) (.powMod b' e' m')
  | select {t t' u u' p p' : Expr} (ht : R t t') (hu : R u u') (hp : R p p') :
    Similar R (.select t u p) (.select t' u' p')
  | call (n : String) {args args' : List Expr} (h : List.Forall₂ R args args') :
    Similar R (.call n args) (.call n args')

/--
Two expressions end with the same outcomes, each with its own arguments and both while the same
number of calls is active.
-/
def SameOutcome (scope : Scope) (limit : Int) (d : Nat) (frame frame' : Frame) (e e' : Expr) :
    Prop :=
  ∀ o, Evaluates scope limit d e frame o ↔ Evaluates scope limit d e' frame' o

section SameOutcome

variable {scope : Scope} {limit : Int} {d : Nat} {frame frame' : Frame} {e e' : Expr}
  {es es' : List Expr} {o : Outcome}

lemma SameOutcome.symm (h : SameOutcome scope limit d frame frame' e e') :
    SameOutcome scope limit d frame' frame e' e := fun o => (h o).symm

lemma evaluates_iff_eq_ok {v : Number} (h : Evaluates scope limit d e frame (.ok v)) :
    Evaluates scope limit d e frame o ↔ o = .ok v := by
  constructor
  · intro ho
    exact Machine.Halts.unique (Machine.halts_of_evaluates ho) (Machine.halts_of_evaluates h)
  · rintro rfl
    exact h

/-- An expression that has a value ends as the value does, which refers to no arguments. -/
lemma sameOutcome_literal {v : Number} (h : Evaluates scope limit d e frame (.ok v))
    (frame' : Frame) : SameOutcome scope limit d frame frame' e (.literal v) := fun _ =>
  (evaluates_iff_eq_ok h).trans (evaluates_iff_eq_ok .literal).symm

lemma evaluatesAll_of_forall₂ {r : Except Error (List Number)}
    (hes : List.Forall₂ (SameOutcome scope limit d frame frame') es es')
    (h : EvaluatesAll scope limit d es frame r) : EvaluatesAll scope limit d es' frame' r := by
  induction hes generalizing r with
  | nil =>
    cases h
    exact .nil
  | cons he _ ih =>
    cases h with
    | cons h hs => exact .cons ((he _).mp h) (ih hs)
    | head h => exact .head ((he _).mp h)
    | tail h hs => exact .tail ((he _).mp h) (ih hs)

lemma Expr.Similar.operands {R : Expr → Expr → Prop} (h : Similar R e e') :
    List.Forall₂ R e.operands e'.operands := by
  cases h with
  | literal v => exact .nil
  | name n => exact .nil
  | arg i => exact .nil
  | binary op hl hr => exact .cons hl (.cons hr .nil)
  | powMod hb he hm => exact .cons hb (.cons he (.cons hm .nil))
  | select ht hu hp => exact .cons hp .nil
  | call n h => exact h

lemma evaluates_of_similar (hsimilar : e.Similar (SameOutcome scope limit d frame frame') e')
    (hargs : ∀ i, e = .arg i → frame.argument i = frame'.argument i)
    (h : Evaluates scope limit d e frame o) : Evaluates scope limit d e' frame' o := by
  have hoperands := hsimilar.operands
  -- the rule that derives the outcome fixes the kind of both nodes
  cases h with
  | operand h => exact .operand (evaluatesAll_of_forall₂ hoperands h)
  | literal =>
    cases hsimilar
    exact .literal
  | @arg d i frame o h =>
    cases hsimilar
    exact .arg ((hargs i rfl).symm.trans h)
  | value h =>
    cases hsimilar
    exact .value h
  | name h hc =>
    cases hsimilar
    exact .name h hc
  | binary h ho =>
    cases hsimilar
    exact .binary (evaluatesAll_of_forall₂ hoperands h) ho
  | powMod h ho =>
    cases hsimilar
    exact .powMod (evaluatesAll_of_forall₂ hoperands h) ho
  | taken hp hv ht =>
    cases hsimilar with
    | select ht' _ hp' => exact .taken ((hp' _).mp hp) hv ((ht' _).mp ht)
  | untaken hp hu =>
    cases hsimilar with
    | select _ hu' hp' => exact .untaken ((hp' _).mp hp) ((hu' _).mp hu)
  | call h hc =>
    cases hsimilar
    exact .call (evaluatesAll_of_forall₂ hoperands h) hc

lemma Expr.Similar.symm {R S : Expr → Expr → Prop} (h : Similar R e e')
    (hRS : ∀ x y, R x y → S y x) : Similar S e' e := by
  cases h with
  | literal v => exact .literal v
  | name n => exact .name n
  | arg i => exact .arg i
  | binary op hl hr => exact .binary op (hRS _ _ hl) (hRS _ _ hr)
  | powMod hb he hm => exact .powMod (hRS _ _ hb) (hRS _ _ he) (hRS _ _ hm)
  | select ht hu hp => exact .select (hRS _ _ ht) (hRS _ _ hu) (hRS _ _ hp)
  | call n h => exact .call n (h.imp fun x y => hRS x y).flip

/-- **Congruence**: nodes of the same kind end alike if their children do. -/
lemma SameOutcome.of_similar (h : e.Similar (SameOutcome scope limit d frame frame') e')
    (hargs : ∀ i, e = .arg i → frame.argument i = frame'.argument i) :
    SameOutcome scope limit d frame frame' e e' := by
  have hargs' : ∀ i, e' = .arg i → frame'.argument i = frame.argument i := by
    rintro i rfl
    cases h
    exact (hargs i rfl).symm
  have hsymm : e'.Similar (SameOutcome scope limit d frame' frame) e :=
    h.symm fun _ _ hxy => hxy.symm
  exact fun o => ⟨evaluates_of_similar h hargs, evaluates_of_similar hsymm hargs'⟩

lemma SameOutcome.halts_iff (h : SameOutcome scope limit d frame frame' e e') :
    Machine.Halts scope limit (Machine.start e frame d) o ↔
      Machine.Halts scope limit (Machine.start e' frame' d) o := by
  constructor
  · intro ho
    exact Machine.halts_of_evaluates ((h o).mp (Machine.evaluates_of_halts ho))
  · intro ho
    exact Machine.halts_of_evaluates ((h o).mpr (Machine.evaluates_of_halts ho))

end SameOutcome

/-! ### Trees that end alike -/

/-- Two results that are related, or the same error twice. -/
inductive Abreast {α β : Type} (R : α → β → Prop) : Except Error α → Except Error β → Prop
  | ok {a : α} {b : β} (h : R a b) : Abreast R (.ok a) (.ok b)
  | error (error : Error) : Abreast R (.error error) (.error error)

lemma Abreast.bind {α β γ δ : Type} {R : α → β → Prop} {S : γ → δ → Prop} {x : Except Error α}
    {y : Except Error β} {f : α → Except Error γ} {g : β → Except Error δ} (h : Abreast R x y)
    (hfg : ∀ a b, R a b → Abreast S (f a) (g b)) : Abreast S (x >>= f) (y >>= g) := by
  cases h with
  | ok h => exact hfg _ _ h
  | error error => exact .error error

namespace Grouping

variable {arities : Arities} {arity : Int} {R : Expr → Expr → Prop} {trees trees' : List Expr}

/-- A token makes nodes of the same kind of related trees, or fails on both for the same reason. -/
lemma addToken_abreast (hR : ∀ e e', Expr.Similar R e e' → R e e') (t : Token)
    (h : List.Forall₂ R trees trees') :
    Abreast (List.Forall₂ R) (addToken arities arity trees t)
      (addToken arities arity trees' t) := by
  cases t with
  | number v => exact .ok (.cons (hR _ _ (.literal v)) h)
  | arg i =>
    simp only [addToken]
    split
    · exact .ok (.cons (hR _ _ (.arg i)) h)
    · exact .error _
  | op o =>
    -- both stacks have the same length, so they run short of operands together
    have hlength := h.length_eq
    simp only [addToken, hlength]
    cases o with
    | binary op =>
      rcases h with _ | ⟨hr, _ | ⟨hl, h⟩⟩
      · exact .error _
      · exact .error _
      · exact .ok (.cons (hR _ _ (.binary op hl hr)) h)
    | powMod =>
      rcases h with _ | ⟨hm, _ | ⟨he, _ | ⟨hb, h⟩⟩⟩
      · exact .error _
      · exact .error _
      · exact .error _
      · exact .ok (.cons (hR _ _ (.powMod hb he hm)) h)
    | select =>
      rcases h with _ | ⟨hp, _ | ⟨hu, _ | ⟨ht, h⟩⟩⟩
      · exact .error _
      · exact .error _
      · exact .error _
      · exact .ok (.cons (hR _ _ (.select ht hu hp)) h)
  | name n =>
    simp only [addToken]
    split
    · exact .ok (.cons (hR _ _ (.name n)) h)
    · next k _ =>
      rw [h.length_eq]
      split
      · exact .error _
      · have hargs : List.Forall₂ R (trees.take k.toNat).reverse (trees'.take k.toNat).reverse :=
          List.rel_reverse (List.forall₂_take k.toNat h)
        exact .ok (.cons (hR _ _ (.call n hargs)) (List.forall₂_drop k.toNat h))
  | command c => exact .error _

lemma fold_abreast (hR : ∀ e e', Expr.Similar R e e' → R e e') (ts : List Token)
    (h : List.Forall₂ R trees trees') :
    Abreast (List.Forall₂ R) (fold arities arity trees ts) (fold arities arity trees' ts) := by
  induction ts generalizing trees trees' with
  | nil => exact .ok h
  | cons t ts ih => exact (addToken_abreast hR t h).bind fun _ _ => ih

/-- The fold puts the tree of a part on top of what is there, whatever comes before and after it. -/
lemma fold_part {part : List Token} {x : Expr} (hx : build arities arity part = .ok x)
    (trees : List Expr) (after : List Token) :
    fold arities arity trees (part ++ after) = fold arities arity (x :: trees) after := by
  obtain ⟨rfl, hgrouped, hbelow⟩ := build_eq_ok_iff.mp hx
  have hfold := fold_tokens (hgrouped.and hbelow) trees after
  rwa [fold_clamped, fold_clamped] at hfold

/-- Tokens with related parts in the same place have related trees, or none for the same reason. -/
lemma build_abreast (hR : ∀ e e', Expr.Similar R e e' → R e e') {part part' : List Token}
    {x x' : Expr} (hx : build arities arity part = .ok x)
    (hx' : build arities arity part' = .ok x') (h : R x x') (before after : List Token) :
    Abreast R (build arities arity (before ++ part ++ after))
      (build arities arity (before ++ part' ++ after)) := by
  have hfold : Abreast (List.Forall₂ R) (fold arities arity [] (before ++ part ++ after))
      (fold arities arity [] (before ++ part' ++ after)) := by
    rw [List.append_assoc, List.append_assoc, fold_append, fold_append]
    refine (fold_abreast hR before .nil).bind fun trees trees' htrees => ?_
    rw [fold_part hx, fold_part hx']
    exact fold_abreast hR after (.cons h htrees)
  refine hfold.bind fun trees trees' htrees => ?_
  rw [htrees.length_eq]
  rcases htrees with _ | ⟨h, _ | ⟨h', htrees⟩⟩
  · exact .error _
  · exact .ok h
  · exact .error _

end Grouping

/-! ### A part and its value -/

/--
What tokens come to within so many steps: the outcome of their tree, or the error for which they
have none.
-/
def Arities.outcome (arities : Arities) (scope : Scope) (limit : Int) (fuel : Nat)
    (tokens : List Token) : Option Outcome :=
  match Grouping.build arities 0 tokens with
  | .error error => some (.error error)
  | .ok x => evaluate scope limit fuel x []

lemma Token.eq_number_of_literal? {v : Number} {t : Token} (h : literal? v = some t) :
    t = .number v := by
  unfold literal? at h
  split at h
  · exact (Option.some.inj h).symm
  · cases h

/--
**A part can be replaced by its value.** If some tokens form an expression and this has a value that
can be written, then all tokens among which they stand come to the same with the value in their
place: to the same value or the same error, also if it is that there is no tree or that the limit is
exceeded, or they come to nothing.
-/
theorem settled_part_keeps_outcome (scope : Scope) (arities : Arities) (limit : Int)
    (before part after : List Token) (x : Expr) (v : Number) (t : Token)
    (hx : Grouping.build arities 0 part = .ok x)
    (hv : ∃ fuel, evaluate scope limit fuel x [] = some (.ok v)) (ht : Token.literal? v = some t)
    (o : Outcome) :
    (∃ fuel, arities.outcome scope limit fuel (before ++ part ++ after) = some o) ↔
      ∃ fuel, arities.outcome scope limit fuel (before ++ [t] ++ after) = some o := by
  have hsame := sameOutcome_literal (Machine.evaluates_of_halts hv) []
  have hliteral : Grouping.build arities 0 [t] = .ok (.literal v) := by
    rw [Token.eq_number_of_literal? ht]
    rfl
  have htrees := Grouping.build_abreast (fun _ _ h => SameOutcome.of_similar h fun _ _ => rfl) hx
    hliteral hsame before after
  unfold Arities.outcome
  generalize Grouping.build arities 0 (before ++ part ++ after) = whole at htrees ⊢
  generalize Grouping.build arities 0 (before ++ [t] ++ after) = whole' at htrees ⊢
  cases htrees with
  | error error => exact Iff.rfl
  | ok h => exact h.halts_iff

def countdownArities : Arities
  | "down" => some 1
  | _ => none

/--
The countdown from two is zero, and may be replaced by it as a predicate. The branch that is taken
then counts down from nine, for which three calls are too few, before as well as after.
-/
theorem countdown_settled_part_keeps_outcome :
    (Grouping.build countdownArities 0 [.number 2, .name "down"] =
        .ok (.call "down" [.literal 2]) ∧
      (∃ fuel, evaluate countdownScope 3 fuel (.call "down" [.literal 2]) [] = some (.ok 0)) ∧
      Token.literal? 0 = some (.number 0)) ∧
    (∃ fuel, countdownArities.outcome countdownScope 3 fuel
      ([.number 1, .number 9, .name "down"] ++ [.number 0] ++ [.op .select]) =
        some (.error (.depthExceeded 3))) ∧
    ∃ fuel, countdownArities.outcome countdownScope 3 fuel
      ([.number 1, .number 9, .name "down"] ++ [.number 2, .name "down"] ++ [.op .select]) =
        some (.error (.depthExceeded 3)) := by
  have hx : Grouping.build countdownArities 0 [.number 2, .name "down"] =
      .ok (.call "down" [.literal 2]) := rfl
  have hv : ∃ fuel, evaluate countdownScope 3 fuel (.call "down" [.literal 2]) [] = some (.ok 0) :=
    ⟨50, by decide +kernel⟩
  have ht : Token.literal? 0 = some (.number 0) := by decide +kernel
  have hsettled : ∃ fuel, countdownArities.outcome countdownScope 3 fuel
      ([.number 1, .number 9, .name "down"] ++ [.number 0] ++ [.op .select]) =
        some (.error (.depthExceeded 3)) := ⟨50, by decide +kernel⟩
  exact ⟨⟨hx, hv, ht⟩, hsettled,
    (settled_part_keeps_outcome _ _ 3 _ _ _ _ 0 _ hx hv ht _).mpr hsettled⟩

/-- The least number that is too long to write, as a power. -/
def overlong : List Token := [.number 10, .number 4300, .op (.binary .pow)]

def Engine.overgrown : Engine := ⟨.standard, .ofTokens overlong.reverse, .empty⟩

lemma Engine.overgrown_outcome : overgrown.outcome 9 (.binary .pow (.literal 10) (.literal 4300)) =
    some (.ok (Decimal.bound : Int)) := by
  decide +kernel

lemma Engine.overgrown_run (c : Command) (hc : c = .settle ∨ c = .double) :
    ∃ after, overgrown.run 9 c = some ⟨.error .unwritable, after⟩ := by
  have hpop : overgrown.pop overgrown.table.arityOf 0 =
      (.ok (.binary .pow (.literal 10) (.literal 4300)), ⟨.standard, .empty, .empty⟩) := rfl
  rcases hc with rfl | rfl
  · simp only [run, runBy, withTop, hpop, overgrown_outcome, ifWritable_eq_error literal?_bound]
    exact ⟨_, rfl⟩
  · simp only [run, runBy, withTop, hpop, overgrown_outcome, ifWritable_eq_error literal?_bound]
    exact ⟨_, rfl⟩

/--
A value that is too long to write has no token. So there is nothing to put in the place of the power
before `0 *`, though all together has a value, and the commands that would do so fail.
-/
theorem overlong_part_has_no_token :
    (∃ x, Grouping.build (fun _ => none) 0 overlong = .ok x ∧
      Engine.overgrown.outcome 9 x = some (.ok (Decimal.bound : Int))) ∧
    Token.literal? (Decimal.bound : Int) = none ∧
    Arities.outcome (fun _ => none) Engine.overgrown.table.scope Engine.overgrown.limits.depth 9
      ([] ++ overlong ++ [.number 0, .op (.binary .mul)]) = some (.ok 0) ∧
    ∀ c, c = .settle ∨ c = .double →
      ∃ after, Engine.overgrown.run 9 c = some ⟨.error .unwritable, after⟩ :=
  ⟨⟨_, rfl, Engine.overgrown_outcome⟩, Engine.literal?_bound, by decide +kernel,
    Engine.overgrown_run⟩

end ReversePolish
