import ReversePolish.Engine
import ReversePolish.Proofs.Reading

/-!
What can be done to an engine, and the engines that come of it.

Tokens are pushed, commands are run and source texts are fed. Each of these may fail, and whoever
does them goes on with the engine that the failure left. Feeding a text is no more than pushing and
running its tokens, so what every push and every command preserves holds of all engines that are
reached.
-/

namespace ReversePolish

inductive Action
  | push (t : Token)
  | run (c : Command)
  | feed (source : String)

/-- The tokens that are handed to the engine have a property; the tokens of a text are its own. -/
def Action.Uses (p : Token → Prop) : Action → Prop
  | .push t => p t
  | .run c => p (.command c)
  | .feed _ => True

namespace Engine

def act (e : Engine) (fuel : Nat) : Action → Option Reply
  | .push t => some (e.pushToken t)
  | .run c => e.run fuel c
  | .feed source => e.feed fuel source

/-- The engines that actions lead to, whether they fail or not. -/
inductive Reaches (p : Token → Prop) (first : Engine) : Engine → Prop
  | start : Reaches p first first
  | act {e : Engine} {a : Action} {fuel : Nat} {r : Reply} (h : Reaches p first e) (ha : a.Uses p)
      (hr : e.act fuel a = some r) : Reaches p first r.engine

/-- An engine that any tokens and commands have made of one with an empty stack. -/
def Reachable (e : Engine) : Prop :=
  ∃ limits table, Reaches (fun _ => True) ⟨limits, .empty, table⟩ e

/-- An engine that was new and got nothing but tokens of source texts. -/
def Sourced (e : Engine) : Prop := ∃ limits, Reaches Token.Lexed (.new limits) e

variable {p : Token → Prop} {inv : Engine → Prop} {e first : Engine} {r : Reply}

lemma feed_of_ofSource {source : String} {ts : List Token} (h : Token.ofSource source = .ok ts)
    (e : Engine) (fuel : Nat) :
    e.feed fuel source = e.forEach (accept fun e c => e.run fuel c) ts := by
  rw [feed, forSource, h]

section Reaches

variable {t : Token} {c : Command} {fuel : Nat} {source : String} {after : Engine}
  {result : Except Error (List Output)}

lemma Reaches.push (h : Reaches p first e) (ht : p t) (hp : e.push t = .ok after) :
    Reaches p first after := by
  have hr : e.act 0 (.push t) = some ⟨.ok [], after⟩ := by simp only [Engine.act, pushToken, hp]
  exact h.act (a := .push t) ht hr

lemma Reaches.run (h : Reaches p first e) (hc : p (.command c))
    (hr : e.run fuel c = some ⟨result, after⟩) : Reaches p first after :=
  h.act (a := .run c) hc hr

lemma Reachable.start (limits : Limits) (table : Table) : Reachable ⟨limits, .empty, table⟩ :=
  ⟨limits, table, .start⟩

lemma Reachable.push (h : Reachable e) (t : Token) (hp : e.push t = .ok after) :
    Reachable after := by
  obtain ⟨limits, table, h⟩ := h
  exact ⟨limits, table, Reaches.push h trivial hp⟩

lemma Reachable.run (h : Reachable e) (hr : e.run fuel c = some ⟨result, after⟩) :
    Reachable after := by
  obtain ⟨limits, table, h⟩ := h
  exact ⟨limits, table, Reaches.run h trivial hr⟩

lemma Sourced.start (limits : Limits) : (new limits).Sourced := ⟨limits, .start⟩

lemma Sourced.run (h : e.Sourced) (hc : (Token.command c).Lexed)
    (hr : e.run fuel c = some ⟨result, after⟩) : after.Sourced := by
  obtain ⟨limits, h⟩ := h
  exact ⟨limits, h.run hc hr⟩

lemma Sourced.feed (h : e.Sourced) (hr : e.feed fuel source = some ⟨result, after⟩) :
    after.Sourced := by
  obtain ⟨limits, h⟩ := h
  exact ⟨limits, h.act (a := .feed source) trivial hr⟩

end Reaches

/-- What every single act preserves is preserved by a list of them. -/
lemma forEach_invariant {act : Engine → Token → Option Reply} {ts : List Token}
    (hact : ∀ e t r, t ∈ ts → inv e → act e t = some r → inv r.engine) (he : inv e)
    (h : e.forEach act ts = some r) : inv r.engine := by
  induction ts generalizing e r with
  | nil =>
    cases h
    exact he
  | cons t ts ih =>
    simp only [forEach] at h
    split at h
    · cases h
    · -- the tokens after one that fails are left out
      next error after ha =>
      cases h
      exact hact e t _ (by simp) he ha
    · next outputs after ha =>
      have hafter : inv after := hact e t _ (by simp) he ha
      have hrest : ∀ result last, after.forEach act ts = some ⟨result, last⟩ → inv last :=
        fun result last => ih (fun e t r ht => hact e t r (List.mem_cons_of_mem _ ht)) hafter
      split at h
      · cases h
      · next error last hlast =>
        cases h
        exact hrest _ _ hlast
      · next more last hlast =>
        cases h
        exact hrest _ _ hlast

section Invariant

variable (hpush : ∀ e e' t, p t → inv e → e.push t = .ok e' → inv e')
  (hrun : ∀ e fuel c r, p (.command c) → inv e → e.run fuel c = some r → inv r.engine)

include hpush

lemma pushToken_invariant {t : Token} (ht : p t) (he : inv e) : inv (e.pushToken t).engine := by
  unfold pushToken
  split
  · next e' hp => exact hpush e e' t ht he hp
  · exact he

include hrun

lemma feed_invariant {fuel : Nat} {source : String} (hlexed : ∀ t, t.Lexed → p t) (he : inv e)
    (h : e.feed fuel source = some r) : inv r.engine := by
  unfold feed forSource at h
  split at h
  · cases h
    exact he
  · next ts hts =>
    refine forEach_invariant (fun e t r ht he hr => ?_) he h
    have hpt : p t := hlexed t ⟨source, ts, hts, ht⟩
    unfold accept at hr
    split at hr
    · exact hrun e fuel _ r hpt he hr
    · cases hr
      exact pushToken_invariant hpush hpt he

/-- What pushes and commands preserve holds of every engine that is reached. -/
lemma Reaches.invariant (h : Reaches p first e) (hlexed : ∀ t, t.Lexed → p t) (hfirst : inv first) :
    inv e := by
  induction h with
  | start => exact hfirst
  | @act e a fuel r _ ha hr ih =>
    cases a with
    | push t =>
      cases hr
      exact pushToken_invariant hpush ha ih
    | run c => exact hrun e fuel c r ha ih hr
    | feed source => exact feed_invariant hpush hrun hlexed ih hr

end Invariant

end Engine

end ReversePolish
