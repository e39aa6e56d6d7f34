import ReversePolish.Proofs.Postfix
import ReversePolish.Proofs.Reading

/-!
Writing trees and building them from source text undo each other.

The text of a tree is read as the tree's tokens, which build the tree. Conversely, tokens that build
a tree are written as the tree is. The arities may be those of any lookup; that a lookup has
negative ones matters only where a name with such an arity is built.
-/

namespace ReversePolish

namespace Expr

def Named : Expr → Prop
  | .name n => IsName n
  | .call n _ => IsName n
  | _ => True

def IndexNatural : Expr → Prop
  | .arg i => 0 ≤ i
  | _ => True

/-- A tree that can stand in source text, where names take arguments as given. -/
structure Fits (arities : Arities) (arity : Int) (e : Expr) : Prop where
  agrees : e.Every (GroupedBy arities)
  below : e.Every (IndexBelow arity)
  natural : e.Every IndexNatural
  named : e.Every Named

variable {e : Expr}

lemma readable_last_iff (e : Expr) : e.last.Readable ↔ e.Named ∧ e.IndexNatural := by
  cases e <;> simp [last, Named, IndexNatural, Token.Readable]

lemma readable_tokens_iff :
    (∀ t ∈ e.tokens, t.Readable) ↔ e.Every Named ∧ e.Every IndexNatural := by
  rw [← every_last_iff Token.Readable]
  constructor
  · intro h
    exact ⟨h.imp fun x hx => ((readable_last_iff x).mp hx).1,
      h.imp fun x hx => ((readable_last_iff x).mp hx).2⟩
  · rintro ⟨hn, hi⟩
    exact (hn.and hi).imp fun x hx => (readable_last_iff x).mpr hx

lemma command_notMem_tokens (e : Expr) (c : Command) : .command c ∉ e.tokens := by
  have h : e.Every fun x => x.last ≠ .command c := by
    induction e using induct with
    | node e ih => exact .node (by cases e <;> simp [last]) ih
  exact fun hc => (every_last_iff (· ≠ .command c)).mp h _ hc rfl

lemma spells_text {t : String} (hn : e.Every Named) (hi : e.Every IndexNatural)
    (h : e.text? = some t) : Spells t.toList e.tokens := by
  rw [text?_eq] at h
  exact Token.spells_join (readable_tokens_iff.mpr ⟨hn, hi⟩) e.command_notMem_tokens
    e.tokens_ne_nil h

end Expr

/--
**Writing and building undo each other.** The text of a tree whose calls agree with the arities,
whose indices lie between zero and the arity, and whose names follow the grammar, is read as tokens
that build the tree. And tokens that build a tree are written as the tree is; if they are of source
text, or numbers, then the tree is of this kind, unless a name among them has a negative arity.
-/
theorem text_and_build_undo_each_other (arities : Arities) (arity : Int) :
    (∀ e t, e.Fits arities arity → e.text? = some t →
      Token.ofSource t >>= Grouping.build arities arity = .ok e) ∧
    ∀ run e t, Grouping.build arities arity run = .ok e → Token.join? run = some t →
      e.text? = some t ∧
      ((∀ u ∈ run, u.Lexed ∨ ∃ v, u = .number v) → (∀ u ∈ run, arities.Natural u) →
        e.Fits arities arity) := by
  constructor
  · intro e t he ht
    have hread := (Expr.spells_text he.named he.natural ht).reads.ofSource
    have hgrouped : e.Every (Expr.GroupedBy arities.clamped) := he.agrees.imp fun _ h => h.clamped
    have hbuild := Grouping.build_eq_ok_iff.mpr ⟨rfl, hgrouped, he.below⟩
    rw [hread]
    exact hbuild
  · intro run e t hbuild ht
    obtain ⟨rfl, hgrouped, hbelow⟩ := Grouping.build_eq_ok_iff.mp hbuild
    refine ⟨by rw [Expr.text?_eq, ht], fun hrun hnatural => ?_⟩
    have hreadable : ∀ u ∈ e.tokens, u.Readable := by
      intro u hu
      rcases hrun u hu with hlexed | ⟨v, rfl⟩
      · exact hlexed.readable
      · trivial
    obtain ⟨hnamed, hindex⟩ := Expr.readable_tokens_iff.mp hreadable
    exact ⟨Expr.every_groupedBy_of_clamped hgrouped hnatural, hbelow, hindex, hnamed⟩

def slanted : Expr :=
  .call "f-1" [.binary .sub (.literal (-3 / 2)) (.arg 0), .name "x_2"]

def slantedArities : Arities := fun n => if n = "f-1" then some 2 else none

/-- A sign, a slash and a dash inside a name do not disturb the operator between them. -/
theorem slanted_text_and_build_undo_each_other :
    slanted.Fits slantedArities 1 ∧ slanted.text? = some "-3/2 $0 - x_2 f-1" ∧
      Token.ofSource "-3/2 $0 - x_2 f-1" >>= Grouping.build slantedArities 1 = .ok slanted := by
  have hsource : Token.ofSource " -6/4 $0 - x_2 f-1" = .ok slanted.tokens := by decide +kernel
  have hlexed : ∀ u ∈ slanted.tokens, u.Lexed ∨ ∃ v, u = .number v :=
    fun u hu => .inl ⟨_, _, hsource, hu⟩
  have hnatural : ∀ u ∈ slanted.tokens, slantedArities.Natural u := by
    intro u _ n k _ hk
    unfold slantedArities at hk
    split at hk <;> cases hk
    decide
  have hjoin : Token.join? slanted.tokens = some "-3/2 $0 - x_2 f-1" := by decide +kernel
  obtain ⟨hbuild, hundo⟩ := text_and_build_undo_each_other slantedArities 1
  obtain ⟨htext, hfits⟩ := hundo _ slanted _ rfl hjoin
  exact ⟨hfits hlexed hnatural, htext, hbuild _ _ (hfits hlexed hnatural) htext⟩

/--
An index below zero is written as a text that cannot be read, though it is below the arity. And a
name that takes less than no arguments builds a call without any, which is not as many as it takes.
-/
theorem negative_index_and_arity_not_undone :
    ((Expr.arg (-1)).Every (Expr.GroupedBy fun _ => none) ∧
      (Expr.arg (-1)).Every (Expr.IndexBelow 1) ∧ (Expr.arg (-1)).Every Expr.Named ∧
      (Expr.arg (-1)).text? = some "$-1" ∧
      Token.ofSource "$-1" >>= Grouping.build (fun _ => none) 1 ≠ .ok (.arg (-1))) ∧
    Token.ofSource "x" >>= Grouping.build (fun _ => some (-1)) 0 = .ok (.call "x" []) ∧
      ¬(Expr.call "x" []).Every (Expr.GroupedBy fun _ => some (-1)) := by
  have hsource : Token.ofSource "$-1" = .error (.source .argumentWithoutIndex (some 0)) := by
    decide +kernel
  have hname : Token.ofSource "x" = .ok [.name "x"] := by decide +kernel
  refine ⟨⟨.node trivial (by simp [Expr.children]), .node (by simp [Expr.IndexBelow]) (by
    simp [Expr.children]), .node trivial (by simp [Expr.children]), by decide +kernel, ?_⟩, ?_, ?_⟩
  · rw [hsource]
    simp [bind, Except.bind]
  · rw [hname]
    rfl
  · rintro ⟨h, -⟩
    simp [Expr.GroupedBy] at h

end ReversePolish
