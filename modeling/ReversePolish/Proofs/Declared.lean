import ReversePolish.Proofs.Writes

/-!
What is in an engine that got nothing but tokens of source texts.

Its stack holds tokens that a text can spell, and every function of its table has been declared: its
name can be read, its parts are made of such tokens, and they refer to no more arguments than it
has.
-/

namespace ReversePolish

structure Body.Declared (name : String) (arity : Int) (body : Body) : Prop where
  named : IsName name
  natural : 0 ≤ arity
  closed : body.Closed arity
  readable : ∀ x ∈ body.parts, ∀ t ∈ x.tokens, t.Readable

lemma Stack.Below.mem {s s' : Stack} {t : Token} (h : s.Below s') (ht : t ∈ s'.tokens) :
    t ∈ s.tokens := by
  cases h with
  | taken hts _ =>
    rw [hts]
    exact List.mem_append_right _ ht
  | cleared => cases ht

namespace Engine

/-- All that the engine holds can be read. -/
structure Legible (e : Engine) : Prop where
  stack : ∀ t ∈ e.stack.tokens, t.Readable
  table : ∀ n k body, e.table.body? n k = some body → body.Declared n k

variable {e e' : Engine} {r : Reply} {t : Token}

lemma mem_pushValues {vs : List Number} (h : t ∈ (e.pushValues vs).stack.tokens) :
    t ∈ e.stack.tokens ∨ ∃ v, t = .number v := by
  induction vs generalizing e with
  | nil => exact .inl h
  | cons v vs ih =>
    rcases ih h with hmem | hnumber
    · rcases List.mem_cons.mp hmem with rfl | hmem
      · exact .inr ⟨v, rfl⟩
      · exact .inl hmem
    · exact .inr hnumber

/-- A command puts nothing on the stack but numbers. -/
lemma Answers.mem (h : Answers e r) (ht : t ∈ r.engine.stack.tokens) :
    t ∈ e.stack.tokens ∨ ∃ v, t = .number v := by
  cases h with
  | fails hb error =>
    unfold fail at ht
    dsimp only at ht
    split at ht
    · exact .inl ht
    · exact .inl (hb.stack.mem ht)
  | succeeds hb vs table outputs =>
    rcases mem_pushValues ht with hmem | hnumber
    · exact .inl (hb.stack.mem hmem)
    · exact .inr hnumber

lemma Built.declared {name : String} {arity : Nat} {body : Body} (h : Built e name arity body)
    (he : e.Legible) (hname : IsName name) : body.Declared name arity where
  named := hname
  natural := Int.natCast_nonneg arity
  closed := h.closed
  readable x hx t ht := he.stack t (h.taken x hx t ht)

/-- Whatever is written to the table, its functions stay declared. -/
lemma Wrote.declared {c : Command} {table : Table} (h : Wrote e c table) (he : e.Legible)
    (hc : (Token.command c).Readable) (n : String) (k : Int) (body : Body)
    (hbody : table.body? n k = some body) : body.Declared n k := by
  cases h with
  | nothing => exact he.table n k body hbody
  | value name v =>
    rw [Table.body?_bind] at hbody
    split at hbody
    · cases hbody
    · exact he.table n k body hbody
  | @function _ name arity written hdecl hb =>
    have hname : IsName name := by
      rcases hdecl with rfl | rfl
      · exact hc
      · exact hc
    rw [Table.body?_define] at hbody
    split at hbody
    · next hkey =>
      obtain ⟨rfl, rfl⟩ := hkey
      cases hbody
      exact hb.declared he hname
    · exact he.table n k body hbody

lemma Legible.run {fuel : Nat} {c : Command} (he : e.Legible) (hc : (Token.command c).Readable)
    (h : e.run fuel c = some r) : r.engine.Legible where
  stack t ht := by
    rcases (answers_runBy h).mem ht with hmem | ⟨v, rfl⟩
    · exact he.stack t hmem
    · trivial
  table := (wrote_of_runBy h).declared he hc

lemma Legible.push (he : e.Legible) (ht : t.Readable) (h : e.push t = .ok e') : e'.Legible := by
  obtain ⟨rfl, -, -⟩ := push_eq_ok h
  refine ⟨fun u hu => ?_, he.table⟩
  rcases List.mem_cons.mp hu with rfl | hu
  · exact ht
  · exact he.stack u hu

lemma legible_new (limits : Limits) : (new limits).Legible :=
  ⟨by simp [new, Stack.empty], fun n k body h => by simp [new, Table.body?_empty] at h⟩

lemma Sourced.legible (h : e.Sourced) : e.Legible := by
  obtain ⟨limits, h⟩ := h
  exact h.invariant (fun _ _ _ ht he hp => he.push ht.readable hp)
    (fun _ _ _ _ hc he hr => he.run hc.readable hr) (fun _ => id) (legible_new limits)

end Engine

end ReversePolish
