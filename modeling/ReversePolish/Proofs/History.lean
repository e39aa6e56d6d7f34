import ReversePolish.Proofs.Writes

/-!
The table is what its writes have made of it.

Of a list of writes the last one to a name says whether it is a variable, and which arity it has
when tokens are grouped. Which function it is with a given arity is said by the last definition with
this name and arity, unless the name was bound after it. The values, the functions and the arities
are kept apart, and every write keeps them in step. An engine writes to its table when a binding or
a declaration succeeds, and at no other time.
-/

namespace ReversePolish

inductive Write
  | bind (name : String) (value : Number)
  | define (d : Definition)

namespace Write

def name : Write → String
  | .bind n _ => n
  | .define d => d.name

def value? : Write → Option Number
  | .bind _ v => some v
  | .define _ => none

def definition? : Write → Option Definition
  | .bind _ _ => none
  | .define d => some d

def arity? : Write → Option Int
  | .bind _ _ => none
  | .define d => some d.arity

/-- The writes that decide which function a name is with an arity: a binding leaves none. -/
def Settles (n : String) (k : Int) : Write → Prop
  | .bind m _ => m = n
  | .define d => d.name = n ∧ d.arity = k

instance (n : String) (k : Int) : DecidablePred (Settles n k)
  | .bind m _ => inferInstanceAs (Decidable (m = n))
  | .define d => inferInstanceAs (Decidable (d.name = n ∧ d.arity = k))

def LastOf (p : Write → Prop) (w : Write) (ws : List Write) : Prop :=
  ∃ before after, ws = before ++ w :: after ∧ p w ∧ ∀ u ∈ after, ¬p u

variable {p q : Write → Prop} {u w : Write} {ws : List Write}

lemma LastOf.has (h : LastOf p w ws) : p w := by
  obtain ⟨before, after, -, hw, -⟩ := h
  exact hw

lemma not_lastOf_nil : ¬LastOf p w [] := by
  rintro ⟨before, after, h, -⟩
  simp at h

/-- One more write is the last one if it has the property, and does not matter else. -/
lemma lastOf_snoc : LastOf p w (ws ++ [u]) ↔ (p u ∧ w = u) ∨ (¬p u ∧ LastOf p w ws) := by
  constructor
  · rintro ⟨before, after, h, hw, hafter⟩
    rcases List.eq_nil_or_concat after with rfl | ⟨after, x, rfl⟩
    · obtain ⟨-, hu⟩ := List.append_inj' h rfl
      cases hu
      exact Or.inl ⟨hw, rfl⟩
    · -- the new write comes after the last one, so it has not the property
      have hsplit : ws ++ [u] = (before ++ w :: after) ++ [x] := by simpa using h
      obtain ⟨rfl, hx⟩ := List.append_inj' hsplit rfl
      cases hx
      exact Or.inr ⟨hafter u (by simp), before, after, rfl, hw,
        fun y hy => hafter y (by simp [hy])⟩
  · rintro (⟨hu, rfl⟩ | ⟨hu, before, after, rfl, hw, hafter⟩)
    · exact ⟨ws, [], rfl, hu, by simp⟩
    · refine ⟨before, after ++ [u], by simp, hw, fun y hy => ?_⟩
      rcases List.mem_append.mp hy with hy | hy
      · exact hafter y hy
      · rw [List.mem_singleton.mp hy]
        exact hu

lemma LastOf.unique {w' : Write} (h : LastOf p w ws) (h' : LastOf p w' ws) : w = w' := by
  induction ws using List.reverseRecOn with
  | nil => exact absurd h not_lastOf_nil
  | append_singleton ws u ih =>
    rcases lastOf_snoc.mp h with ⟨hu, rfl⟩ | ⟨hu, h⟩
    · rcases lastOf_snoc.mp h' with ⟨-, rfl⟩ | ⟨hu', -⟩
      · rfl
      · exact absurd hu hu'
    · rcases lastOf_snoc.mp h' with ⟨hu', -⟩ | ⟨-, h'⟩
      · exact absurd hu' hu
      · exact ih h h'

/-- The last one of many is the last one of fewer, if it is among them. -/
lemma LastOf.of_imp (h : LastOf p w ws) (hw : q w) (hqp : ∀ u, q u → p u) : LastOf q w ws := by
  obtain ⟨before, after, hws, -, hafter⟩ := h
  exact ⟨before, after, hws, hw, fun u hu hq => hafter u hu (hqp u hq)⟩

lemma name_of_settles {n : String} {k : Int} (h : Settles n k w) : w.name = n := by
  cases w with
  | bind m v => exact h
  | define d => exact h.1

end Write

namespace Table

open Write (LastOf Settles)

def write (t : Table) : Write → Table
  | .bind n v => t.bind n v
  | .define d => t.define d

def writeAll (t : Table) (ws : List Write) : Table := ws.foldl write t

lemma writeAll_append (t : Table) (us ws : List Write) :
    t.writeAll (us ++ ws) = (t.writeAll us).writeAll ws :=
  List.foldl_append

lemma writeAll_snoc (t : Table) (ws : List Write) (w : Write) :
    t.writeAll (ws ++ [w]) = (t.writeAll ws).write w :=
  writeAll_append t ws [w]

lemma generation_writeAll (t : Table) (ws : List Write) :
    (t.writeAll ws).generation = t.generation + ws.length := by
  induction ws using List.reverseRecOn with
  | nil => rfl
  | append_singleton ws w ih =>
    have hw : ((t.writeAll ws).write w).generation = (t.writeAll ws).generation + 1 := by
      cases w <;> rfl
    rw [writeAll_snoc, hw, ih, List.length_append, List.length_singleton, Nat.add_assoc]

/-! ### What the last write says -/

lemma valueOf?_write (t : Table) (w : Write) (n : String) :
    (t.write w).valueOf? n = if w.name = n then w.value? else t.valueOf? n := by
  cases w with
  | bind m v => simp only [write, valueOf?_bind, Write.name, Write.value?, eq_comm]
  | define d => simp only [write, valueOf?_define, Write.name, Write.value?, eq_comm]

lemma arityOf_write (t : Table) (w : Write) (n : String) :
    (t.write w).arityOf n = if w.name = n then w.arity? else t.arityOf n := by
  cases w with
  | bind m v => simp only [write, arityOf_bind, Write.name, Write.arity?, eq_comm]
  | define d => simp only [write, arityOf_define_apply, Write.name, Write.arity?, eq_comm]

lemma definition?_write (t : Table) (w : Write) (n : String) (k : Int) :
    (t.write w).definition? n k = if Settles n k w then w.definition? else t.definition? n k := by
  by_cases hs : Settles n k w
  · rw [if_pos hs]
    cases w with
    | bind m v =>
      obtain rfl : m = n := hs
      rw [write, definition?_bind, if_pos rfl, Write.definition?]
    | define d =>
      obtain ⟨rfl, rfl⟩ := hs
      rw [write, definition?_define, if_pos ⟨rfl, rfl⟩, Write.definition?]
  · rw [if_neg hs]
    cases w with
    | bind m v =>
      have hn : n ≠ m := fun h => hs h.symm
      rw [write, definition?_bind, if_neg hn]
    | define d =>
      have hkey : ¬(n = d.name ∧ k = d.arity) := fun h => hs ⟨h.1.symm, h.2.symm⟩
      rw [write, definition?_define, if_neg hkey]

/--
A question that some writes answer anew, while the others leave the answer as it was, is answered by
the last one of those that do.
-/
lemma answer_writeAll {α : Type} (ask : Table → Option α) (answer : Write → Option α)
    (p : Write → Prop) [DecidablePred p] (hempty : ask empty = none)
    (hwrite : ∀ (t : Table) (w : Write), ask (t.write w) = if p w then answer w else ask t)
    (ws : List Write) (a : α) :
    ask (empty.writeAll ws) = some a ↔ ∃ w, LastOf p w ws ∧ answer w = some a := by
  induction ws using List.reverseRecOn with
  | nil => simp [writeAll, hempty, Write.not_lastOf_nil]
  | append_singleton ws u ih =>
    rw [writeAll_snoc, hwrite]
    by_cases hu : p u
    · simp [Write.lastOf_snoc, hu]
    · simp [Write.lastOf_snoc, hu, ih]

variable (ws : List Write) (n : String) (k : Int)

/-- A name is a variable iff the last write to it was a binding. -/
lemma valueOf?_writeAll (v : Number) : (empty.writeAll ws).valueOf? n = some v ↔
    LastOf (fun w => w.name = n) (.bind n v) ws := by
  have hempty : empty.valueOf? n = none := by simp [valueOf?, empty]
  rw [answer_writeAll (fun t => t.valueOf? n) Write.value? (fun w => w.name = n) hempty
    (valueOf?_write · · n)]
  constructor
  · rintro ⟨w, hlast, hw⟩
    cases w with
    | define d => cases hw
    | bind m u =>
      obtain rfl : m = n := hlast.has
      obtain rfl : u = v := Option.some.inj hw
      exact hlast
  · exact fun h => ⟨_, h, rfl⟩

/-- A name takes so many arguments iff the last write to it defined a function with so many. -/
lemma arityOf_writeAll : (empty.writeAll ws).arityOf n = some k ↔
    ∃ d : Definition, d.arity = k ∧ LastOf (fun w => w.name = n) (.define d) ws := by
  have hempty : empty.arityOf n = none := by simp [arityOf, empty]
  rw [answer_writeAll (fun t => t.arityOf n) Write.arity? (fun w => w.name = n) hempty
    (arityOf_write · · n)]
  constructor
  · rintro ⟨w, hlast, hw⟩
    cases w with
    | bind m u => cases hw
    | define d => exact ⟨d, Option.some.inj hw, hlast⟩
  · rintro ⟨d, rfl, hlast⟩
    exact ⟨_, hlast, rfl⟩

/-- A function is the last one defined with its key, unless its name was bound after it. -/
lemma definition?_writeAll (d : Definition) : (empty.writeAll ws).definition? n k = some d ↔
    LastOf (Settles n k) (.define d) ws := by
  have hempty : empty.definition? n k = none := by simp [definition?, empty]
  rw [answer_writeAll (fun t => t.definition? n k) Write.definition? (Settles n k) hempty
    (definition?_write · · n k)]
  constructor
  · rintro ⟨w, hlast, hw⟩
    cases w with
    | bind m u => cases hw
    | define d' =>
      obtain rfl : d' = d := Option.some.inj hw
      exact hlast
  · exact fun h => ⟨_, h, rfl⟩

lemma lt_of_compare {n m : String} {i j : Int}
    (h : @compare (String × Int) lexOrd (n, i) (m, j) = .lt) (hnm : n = m) : i < j := by
  subst hnm
  have hself : compare n n = .eq := Std.ReflOrd.compare_self
  have hlex : (compare n n).then (compare i j) = .lt := h
  rw [hself] at hlex
  exact Int.compare_eq_lt.mp hlex

lemma arities_increasing (t : Table) : (t.arities n).Pairwise (· < ·) := by
  -- the keys are in order, and those that are kept share the name
  have hkeys : t.functions.keys.Pairwise
      fun a b => @compare (String × Int) lexOrd a b = .lt := Std.ExtTreeMap.ordered_keys
  rw [arities, List.pairwise_map, List.pairwise_filter]
  refine hkeys.imp fun {a b} hlt ha hb => ?_
  simp only [decide_eq_true_eq] at ha hb
  exact lt_of_compare hlt (ha.trans hb.symm)

lemma mem_arities (t : Table) : k ∈ t.arities n ↔ ∃ d, t.definition? n k = some d := by
  have hmem : (n, k) ∈ t.functions.keys ↔ ∃ d, t.definition? n k = some d := by
    rw [Std.ExtTreeMap.mem_keys, Std.ExtTreeMap.mem_iff_isSome_getElem?, Option.isSome_iff_exists]
    rfl
  rw [← hmem]
  simp [arities]

structure Records (t : Table) (ws : List Write) : Prop where
  /-- A name has a value iff the last write to it binds it to this value. -/
  value : ∀ n v, t.valueOf? n = some v ↔ LastOf (fun w => w.name = n) (.bind n v) ws
  /-- A function is the last one defined with its key, unless its name was bound after it. -/
  function : ∀ n k d, t.definition? n k = some d ↔ LastOf (Settles n k) (.define d) ws
  /-- A name takes so many arguments iff the last write to it defines a function with so many. -/
  arity : ∀ n k, t.arityOf n = some k ↔
    ∃ d : Definition, d.arity = k ∧ LastOf (fun w => w.name = n) (.define d) ws
  /-- The arities of a name are those with which it is a function, in increasing order. -/
  arities : ∀ n, (t.arities n).Pairwise (· < ·) ∧
    ∀ k, k ∈ t.arities n ↔ ∃ d, t.definition? n k = some d
  generation : t.generation = ws.length

lemma records_writeAll : Records (empty.writeAll ws) ws where
  value n v := valueOf?_writeAll ws n v
  function n k d := definition?_writeAll ws n k d
  arity n k := arityOf_writeAll ws n k
  arities n := ⟨arities_increasing n _, fun k => mem_arities n k _⟩
  generation := (generation_writeAll _ ws).trans (Nat.zero_add _)

variable {ws n k} {t : Table}

lemma Records.not_both (h : t.Records ws) {v : Number} {d : Definition}
    (hv : t.valueOf? n = some v) : t.definition? n k ≠ some d := by
  intro hd
  have hbound : LastOf (Settles n k) (.bind n v) ws :=
    ((h.value n v).mp hv).of_imp rfl fun _ => Write.name_of_settles
  cases hbound.unique ((h.function n k d).mp hd)

lemma Records.exists_definition (h : t.Records ws) (hk : t.arityOf n = some k) :
    ∃ d, t.definition? n k = some d := by
  obtain ⟨d, rfl, hlast⟩ := (h.arity n k).mp hk
  exact ⟨d, (h.function _ _ _).mpr (hlast.of_imp ⟨hlast.has, rfl⟩ fun _ => Write.name_of_settles)⟩

lemma Records.key (h : t.Records ws) {d : Definition} (hd : t.definition? n k = some d) :
    d.name = n ∧ d.arity = k :=
  ((h.function n k d).mp hd).has

end Table

/-! ### Writes of an engine -/

/-- The commands that write to the table if they succeed. -/
def Command.Writes : Command → Prop
  | .bind _ => True
  | .declare _ _ => True
  | .declareLoop _ _ => True
  | _ => False

namespace Engine

def topValue? (e : Engine) (fuel : Nat) : Option Number :=
  match e.pop e.table.arityOf 0 with
  | (.error _, _) => none
  | (.ok x, _) =>
    match e.outcome fuel x with
    | some (.ok v) => some v
    | _ => none

/--
What a command writes: a binding the value of the top expression, and a declaration the function
that is on the stack.
-/
def write? (e : Engine) (fuel : Nat) : Command → Option Write
  | .bind n => (e.topValue? fuel).map (.bind n)
  | .declare n k =>
    match e.pop (e.table.arityOf.declare n k) k with
    | (.error _, _) => none
    | (.ok x, _) => some (.define ⟨n, k, .recursive x⟩)
  | .declareLoop n k =>
    match e.popParts (e.table.arityOf.declare n k) k with
    | .error _ => none
    | .ok (parts, _) => (loopOfParts? parts).map fun loop => .define ⟨n, k, .iterative loop⟩
  | _ => none

/-- A token that was pushed or run, the engine before it, and the reply. -/
structure Deed where
  before : Engine
  fuel : Nat
  token : Token
  reply : Reply

namespace Deed

def Succeeds (d : Deed) : Prop := ∃ outputs, d.reply.result = .ok outputs

/-- What was written, which is nothing unless a command has succeeded. -/
def write? (d : Deed) : Option Write :=
  match d.token, d.reply.result with
  | .command c, .ok _ => d.before.write? d.fuel c
  | _, _ => none

inductive Real : Deed → Prop
  | push (e : Engine) (fuel : Nat) (t : Token) : Real ⟨e, fuel, t, e.pushToken t⟩
  | run {e : Engine} {fuel : Nat} {c : Command} {r : Reply} (h : e.run fuel c = some r) :
    Real ⟨e, fuel, .command c, r⟩

end Deed

/-- What is done with tokens one after the other, up to the first that fails. -/
def deedsOf (fuel : Nat) (e : Engine) : List Token → List Deed
  | [] => []
  | t :: ts =>
    match e.accept (fun e c => e.run fuel c) t with
    | none => []
    | some ⟨.error error, after⟩ => [⟨e, fuel, t, ⟨.error error, after⟩⟩]
    | some ⟨.ok outputs, after⟩ => ⟨e, fuel, t, ⟨.ok outputs, after⟩⟩ :: deedsOf fuel after ts

def deeds (e : Engine) (fuel : Nat) : Action → List Deed
  | .push t => [⟨e, fuel, t, e.pushToken t⟩]
  | .run c => ((e.run fuel c).map (⟨e, fuel, .command c, ·⟩)).toList
  | .feed source =>
    match Token.ofSource source with
    | .error _ => []
    | .ok ts => e.deedsOf fuel ts

/-- All that is done in a run, from one engine to another, whether it fails or not. -/
inductive Does (first : Engine) : List Deed → Engine → Prop
  | start : Does first [] first
  | act {e : Engine} {ds : List Deed} {a : Action} {fuel : Nat} {r : Reply} (h : Does first ds e)
      (hr : e.act fuel a = some r) : Does first (ds ++ e.deeds fuel a) r.engine

variable {e after first last : Engine} {fuel : Nat} {c : Command} {outputs : List Output}
  {r : Reply}

/-! ### One deed -/

lemma bind_eq_ok_topValue? {n : String} (h : e.run fuel (.bind n) = some ⟨.ok outputs, after⟩) :
    ∃ v, e.topValue? fuel = some v ∧ after.table = e.table.bind n v := by
  simp only [run, runBy, withTop] at h
  split at h
  · cases h
  · next x popped hpop =>
    split at h
    · cases h
    · next v hv =>
      cases h
      refine ⟨v, by simp only [topValue?, hpop, hv], ?_⟩
      dsimp only
      rw [(below_pop hpop).table]
    · cases h

/-- A command that succeeds writes what it is meant to write, and nothing if it is not meant to. -/
lemma table_of_run_ok (h : e.run fuel c = some ⟨.ok outputs, after⟩) :
    after.table = e.table.writeAll (e.write? fuel c).toList ∧
      ((e.write? fuel c).isSome ↔ c.Writes) := by
  have hother : ¬c.Writes → after.table = e.table := by
    intro hc
    have hwrote := wrote_of_ok h
    generalize after.table = table at hwrote
    cases hwrote with
    | nothing => rfl
    | value name v => exact absurd trivial hc
    | function hdecl hb => rcases hdecl with rfl | rfl <;> exact absurd trivial hc
  cases c with
  | bind n =>
    obtain ⟨v, hv, htable⟩ := bind_eq_ok_topValue? h
    rw [htable]
    simp [write?, hv, Table.writeAll, Table.write, Command.Writes]
  | declare n k =>
    obtain ⟨x, popped, hpop, -, rfl⟩ := declare_eq_ok (Option.some.inj h)
    simp [write?, hpop, Table.writeAll, Table.write, Command.Writes]
  | declareLoop n k =>
    obtain ⟨parts, popped, loop, hparts, hloop, -, rfl⟩ := declareLoop_eq_ok (Option.some.inj h)
    simp [write?, hparts, hloop, Table.writeAll, Table.write, Command.Writes]
  | _ => exact ⟨hother id, by simp [write?, Command.Writes]⟩

/-- A deed writes what it says, and says so iff it is a binding or a declaration that succeeds. -/
lemma Deed.Real.table {d : Deed} (h : d.Real) :
    d.reply.engine.table = d.before.table.writeAll d.write?.toList ∧
      (d.write?.isSome ↔ d.Succeeds ∧ ∃ c, d.token = .command c ∧ c.Writes) := by
  cases h with
  | push e fuel t =>
    -- a command that is pushed is refused, and nothing else is written by tokens
    have hnone : (⟨e, fuel, t, e.pushToken t⟩ : Deed).write? = none := by
      cases t <;> rfl
    have htable : (e.pushToken t).engine.table = e.table := by
      unfold pushToken
      split
      · next e' hp => rw [(push_eq_ok hp).1]
      · rfl
    refine ⟨by rw [hnone, htable]; rfl, ?_⟩
    rw [hnone]
    refine iff_of_false (by simp) ?_
    rintro ⟨⟨outputs, hok⟩, c, rfl, -⟩
    cases hok
  | @run e fuel c r h =>
    obtain ⟨error | outputs, after⟩ := r
    · refine ⟨table_of_error h, iff_of_false (by simp [write?]) ?_⟩
      rintro ⟨⟨outputs, hok⟩, -⟩
      cases hok
    · obtain ⟨htable, hwrites⟩ := table_of_run_ok h
      refine ⟨htable, ?_⟩
      simp [write?, hwrites, Succeeds]

/-! ### A whole run -/

inductive Chain : Engine → List Deed → Engine → Prop
  | nil {e : Engine} : Chain e [] e
  | cons {e last : Engine} {d : Deed} {ds : List Deed} (hd : d.Real) (he : d.before = e)
      (h : Chain d.reply.engine ds last) : Chain e (d :: ds) last

lemma Chain.append {middle : Engine} {ds ds' : List Deed} (h : Chain first ds middle)
    (h' : Chain middle ds' last) : Chain first (ds ++ ds') last := by
  induction h with
  | nil => exact h'
  | cons hd he _ ih => exact .cons hd he (ih h')

lemma real_of_accept {t : Token} (h : e.accept (fun e c => e.run fuel c) t = some r) :
    Deed.Real ⟨e, fuel, t, r⟩ := by
  unfold accept at h
  split at h
  · exact .run h
  · cases h
    exact .push e fuel t

lemma chain_deedsOf {ts : List Token}
    (h : e.forEach (accept fun e c => e.run fuel c) ts = some r) :
    Chain e (e.deedsOf fuel ts) r.engine := by
  induction ts generalizing e r with
  | nil =>
    cases h
    exact .nil
  | cons t ts ih =>
    rw [forEach] at h
    rw [deedsOf]
    rcases ha : e.accept (fun e c => e.run fuel c) t with _ | ⟨error | outputs, after⟩
    · rw [ha] at h
      cases h
    · rw [ha] at h
      cases h
      exact .cons (real_of_accept ha) rfl .nil
    · -- the engine at the end is the last one, whether the tokens left succeed or not
      rw [ha] at h
      refine .cons (real_of_accept ha) rfl ?_
      dsimp only at h ⊢
      rcases hlast : forEach (accept fun e c => e.run fuel c) after ts with _ | ⟨error | more, last⟩
      · rw [hlast] at h
        cases h
      · rw [hlast] at h
        cases h
        exact ih hlast
      · have hrest : Chain after (after.deedsOf fuel ts) last := ih hlast
        rw [hlast] at h
        cases h
        exact hrest

lemma chain_deeds {a : Action} (h : e.act fuel a = some r) : Chain e (e.deeds fuel a) r.engine := by
  cases a with
  | push t =>
    cases h
    exact .cons (.push e fuel t) rfl .nil
  | run c =>
    have hr : e.run fuel c = some r := h
    simp only [deeds, hr, Option.map_some, Option.toList_some]
    exact .cons (.run hr) rfl .nil
  | feed source =>
    simp only [act, feed, forSource] at h
    simp only [deeds]
    cases hts : Token.ofSource source with
    | error error =>
      rw [hts] at h
      cases h
      exact .nil
    | ok ts =>
      rw [hts] at h
      exact chain_deedsOf h

lemma Does.chain {ds : List Deed} (h : Does first ds e) : Chain first ds e := by
  induction h with
  | start => exact .nil
  | act _ hr ih => exact ih.append (chain_deeds hr)

lemma Chain.real {ds : List Deed} (h : Chain first ds e) : ∀ d ∈ ds, d.Real := by
  induction h with
  | nil => simp
  | cons hd _ _ ih =>
    intro d hmem
    rcases List.mem_cons.mp hmem with rfl | hmem
    · exact hd
    · exact ih d hmem

/-- The table at the end of a run is what the writes of its deeds have made of the first one. -/
lemma Chain.table {ds : List Deed} (h : Chain first ds e) :
    e.table = first.table.writeAll (ds.filterMap Deed.write?) := by
  induction h with
  | nil => rfl
  | @cons _ _ d ds hd he _ ih =>
    subst he
    have hds : (d :: ds).filterMap Deed.write? = d.write?.toList ++ ds.filterMap Deed.write? := by
      rw [List.filterMap_cons]
      cases d.write? <;> rfl
    rw [ih, hd.table.1, hds, Table.writeAll_append]

end Engine

/--
**The table is what its writes have made of it.** Its values, its functions and its arities are
those that the last writes to an empty table say, and it counts its writes. So no name is both a
variable and a function, a name that takes so many arguments is a function of so many, and a
function is kept under its own name and arity. In any run of an engine the table is the first one
with the writes of its deeds, in this order; a deed makes one write if it is a binding or a
declaration that succeeds, and else none.
-/
theorem table_determined_by_writes :
    (∀ ws : List Write, (Table.empty.writeAll ws).Records ws ∧ ∀ n k,
      (∀ v d, (Table.empty.writeAll ws).valueOf? n = some v →
        (Table.empty.writeAll ws).definition? n k ≠ some d) ∧
      ((Table.empty.writeAll ws).arityOf n = some k →
        ∃ d, (Table.empty.writeAll ws).definition? n k = some d) ∧
      ∀ d, (Table.empty.writeAll ws).definition? n k = some d → d.name = n ∧ d.arity = k) ∧
    ∀ (first e : Engine) (ds : List Engine.Deed), Engine.Does first ds e →
      e.table = first.table.writeAll (ds.filterMap Engine.Deed.write?) ∧
      ∀ d ∈ ds, d.reply.engine.table = d.before.table.writeAll d.write?.toList ∧
        (d.write?.isSome ↔ d.Succeeds ∧ ∃ c, d.token = .command c ∧ c.Writes) := by
  constructor
  · intro ws
    have hrecords := Table.records_writeAll ws
    exact ⟨hrecords, fun n k =>
      ⟨fun v d => hrecords.not_both, hrecords.exists_definition, fun d => hrecords.key⟩⟩
  · intro first e ds h
    exact ⟨h.chain.table, fun d hd => (h.chain.real d hd).table⟩

def Definition.constant (name : String) (arity : Int) (v : Number) : Definition :=
  ⟨name, arity, .recursive (.literal v)⟩

/-- Two functions with one name, which is bound and then is a function again. -/
def rebinding : List Write :=
  [.define (.constant "f" 1 7), .define (.constant "f" 2 8), .bind "x" 5, .bind "f" 3,
    .define (.constant "f" 1 9)]

/-- A text that binds a variable, declares a function, and fails to bind another variable. -/
def bindingSource : String := "2 =x $0 x * f|1 =y"

def bindingTokens : List Token :=
  [.number 2, .command (.bind "x"), .arg 0, .name "x", .op (.binary .mul),
    .command (.declare "f" 1), .command (.bind "y")]

lemma ofSource_bindingSource : Token.ofSource bindingSource = .ok bindingTokens := by
  decide +kernel

def bindingWrites : List Write :=
  [.bind "x" 2, .define ⟨"f", 1, .recursive (.binary .mul (.arg 0) (.name "x"))⟩]

lemma bindingSource_does : ∃ ds e, Engine.Does (.new .standard) ds e ∧ ds.length = 7 ∧
    ds.filterMap Engine.Deed.write? = bindingWrites := by
  have hfeed : (Engine.new .standard).feed 10 bindingSource =
      some ⟨.error (.shortage .incomplete),
        ⟨.standard, .empty, Table.empty.writeAll bindingWrites⟩⟩ := by
    rw [Engine.feed_of_ofSource ofSource_bindingSource]
    rfl
  have hdeeds : (Engine.new .standard).deeds 10 (.feed bindingSource) =
      (Engine.new .standard).deedsOf 10 bindingTokens := by
    simp only [Engine.deeds, ofSource_bindingSource]
  refine ⟨_, _, Engine.Does.start.act (a := .feed bindingSource) hfeed, ?_, ?_⟩
  · rw [hdeeds]
    rfl
  · rw [hdeeds]
    rfl

/--
A binding forgets both functions, and only one of them comes back. A text of which the last command
fails has made the two writes before.
-/
theorem rebinding_table_determined_by_writes :
    (Write.LastOf (Write.Settles "f" 1) (.define (.constant "f" 1 9)) rebinding ∧
      (∀ d, ¬Write.LastOf (Write.Settles "f" 2) (.define d) rebinding) ∧
      (Table.empty.writeAll rebinding).generation = 5) ∧
    ∃ ds e, Engine.Does (.new .standard) ds e ∧ ds.length = 7 ∧
      ds.filterMap Engine.Deed.write? = bindingWrites ∧
      e.table = Table.empty.writeAll bindingWrites := by
  obtain ⟨hwrites, hruns⟩ := table_determined_by_writes
  obtain ⟨hrecords, -⟩ := hwrites rebinding
  obtain ⟨ds, e, hdoes, hlen, hds⟩ := bindingSource_does
  have hone : (Table.empty.writeAll rebinding).definition? "f" 1 = some (.constant "f" 1 9) := by
    simp [Table.writeAll, rebinding, Table.write, Table.definition?_define, Definition.constant]
  have htwo : (Table.empty.writeAll rebinding).definition? "f" 2 = none := by
    simp [Table.writeAll, rebinding, Table.write, Table.definition?_define, Table.definition?_bind,
      Definition.constant]
  refine ⟨⟨(hrecords.function "f" 1 _).mp hone, fun d hd => ?_, hrecords.generation⟩, ds, e, hdoes,
    hlen, hds, ?_⟩
  · rw [(hrecords.function "f" 2 d).mpr hd] at htwo
    cases htwo
  · rw [← hds]
    exact (hruns _ e ds hdoes).1

end ReversePolish
