import ReversePolish.Error

/-!
Expressions as trees.

A tree is written with every operand before its operator: `Expr.tokens` lists its tokens in that
order, and `Expr.text?` writes them.
-/

namespace ReversePolish

inductive Expr
  | literal (value : Number)
  /-- A variable, or a function without arguments. -/
  | name (name : String)
  | arg (index : Int)
  | binary (op : Binary) (left right : Expr)
  | powMod (base exponent modulus : Expr)
  | select (taken untaken predicate : Expr)
  | call (name : String) (args : List Expr)

namespace Expr

mutual

/-- The tokens of a tree, operands first, in front of others. -/
def tokensOnto : Expr → List Token → List Token
  | .literal v, ts => .number v :: ts
  | .name n, ts => .name n :: ts
  | .arg i, ts => .arg i :: ts
  | .binary op l r, ts => l.tokensOnto (r.tokensOnto (.op (.binary op) :: ts))
  | .powMod b e m, ts => b.tokensOnto (e.tokensOnto (m.tokensOnto (.op .powMod :: ts)))
  | .select t u p, ts => t.tokensOnto (u.tokensOnto (p.tokensOnto (.op .select :: ts)))
  | .call n args, ts => allTokensOnto args (.name n :: ts)

def allTokensOnto : List Expr → List Token → List Token
  | [], ts => ts
  | e :: es, ts => e.tokensOnto (allTokensOnto es ts)

end

def tokens (e : Expr) : List Token := e.tokensOnto []

end Expr

/-- Tokens as text, with a space between each two. -/
def Token.join? (ts : List Token) : Option String :=
  (ts.mapM Token.display?).map (String.intercalate " ")

namespace Expr

/-! ### Text -/

mutual

def size : Expr → Nat
  | .binary _ l r => l.size + r.size + 1
  | .powMod b e m => b.size + e.size + m.size + 1
  | .select t u p => t.size + u.size + p.size + 1
  | .call _ args => sizes args + 1
  | _ => 1

def sizes : List Expr → Nat
  | [] => 0
  | e :: es => e.size + sizes es

end

/-- What is still to be written: a tree, or the operator or name that closes one. -/
inductive Piece
  | tree (e : Expr)
  | closing (text : String)

/-- What becomes of a piece: a text, unless it is too long to write, or other pieces. -/
inductive Opened
  | text (text? : Option String)
  | pieces (pieces : List Piece)

namespace Piece

def operator (o : Operator) : Piece := .closing (String.singleton o.symbol)

def opened : Piece → Opened
  | .closing text => .text (some text)
  | .tree (.literal v) => .text v.text?
  | .tree (.name n) => .text (some n)
  | .tree (.arg i) => .text ((Decimal.ofInt? i).map ("$" ++ ·))
  | .tree (.binary op l r) => .pieces [.tree l, .tree r, operator (.binary op)]
  | .tree (.powMod b e m) => .pieces [.tree b, .tree e, .tree m, operator .powMod]
  | .tree (.select t u p) => .pieces [.tree t, .tree u, .tree p, operator .select]
  | .tree (.call n args) => .pieces (args.map .tree ++ [.closing n])

/-- No piece falls into more than so many others, itself included. -/
def count : Piece → Nat
  | .tree e => 2 * e.size
  | .closing _ => 1

def counts : List Piece → Nat
  | [] => 0
  | p :: pieces => p.count + counts pieces

theorem count_pos (p : Piece) : 0 < p.count := by
  cases p with
  | tree e => cases e <;> simp only [count, size] <;> omega
  | closing text => exact Nat.one_pos

theorem counts_append (pieces rest : List Piece) :
    counts (pieces ++ rest) = counts pieces + counts rest := by
  induction pieces with
  | nil => simp only [List.nil_append, counts, Nat.zero_add]
  | cons p pieces ih => simp only [List.cons_append, counts, ih, Nat.add_assoc]

theorem counts_trees (es : List Expr) : counts (es.map tree) = 2 * sizes es := by
  induction es with
  | nil => rfl
  | cons e es ih =>
    simp only [List.map_cons, counts, ih, count, sizes]
    omega

theorem counts_opened {p : Piece} {pieces : List Piece} (h : p.opened = .pieces pieces) :
    counts pieces < p.count := by
  cases p with
  | closing text => cases h
  | tree e =>
    cases e <;> cases h
    · simp only [counts, count, operator, size]
      omega
    · simp only [counts, count, operator, size]
      omega
    · simp only [counts, count, operator, size]
      omega
    · rw [counts_append, counts_trees]
      simp only [counts, count, size]
      omega

end Piece

/--
Writes pieces, with a space between each two, behind the texts in `out`, the last of which comes
first.
-/
def write (out : List String) : List Piece → Option String
  | [] => some (String.intercalate " " out.reverse)
  | p :: rest =>
    match _h : p.opened with
    | .text (some text) => write (text :: out) rest
    | .text none => none
    | .pieces pieces => write out (pieces ++ rest)
termination_by pieces => Piece.counts pieces
decreasing_by
  · have hpos := p.count_pos
    simp only [Piece.counts]
    omega
  · have hlt := Piece.counts_opened ‹p.opened = _›
    simp only [Piece.counts_append, Piece.counts]
    omega

/-- The text of a tree, unless it holds a number that is too long to write. -/
def text? (e : Expr) : Option String := write [] [.tree e]

end Expr

end ReversePolish
