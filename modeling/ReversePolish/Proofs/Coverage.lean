import ReversePolish.Proofs.Extent
import ReversePolish.Proofs.LineEnds

/-!
Source text falls into tokens, blanks and comments.

A token is as long as its grammar lets it be, and what comes after it decides only where it ends. So
the text of a token is read as this token also by itself. The lexer goes from one token to the next,
and what it passes over on the way is blank or a comment.
-/

namespace ReversePolish

/-! ### Numbers in source text -/

def IsDigits (ds : List Char) : Prop := ds ≠ [] ∧ ∀ d ∈ ds, d.isDigit = true

/-- Nothing, or a slash and digits. -/
def IsDenominator (cs : List Char) : Prop := cs = [] ∨ ∃ ds, cs = '/' :: ds ∧ IsDigits ds

/-- Nothing, or one of the two signs. -/
def IsSign (cs : List Char) : Prop := cs = [] ∨ cs = ['+'] ∨ cs = ['-']

/--
The grammar of numbers: digits, which may have a sign before them and a slash and digits after them.
-/
def IsNumeral (cs : List Char) : Prop :=
  ∃ sign num den, cs = sign ++ (num ++ den) ∧ IsSign sign ∧ IsDigits num ∧ IsDenominator den

def NoDigit (after : List Char) : Prop := ∀ d ∈ after.head?, d.isDigit = false

lemma NoDigit.nil : NoDigit [] := by simp [NoDigit]

lemma IsDenominator.noDigit {den after : List Char} (h : IsDenominator den)
    (hafter : NoDigit after) : NoDigit (den ++ after) := by
  rcases h with rfl | ⟨ds, rfl, -⟩
  · exact hafter
  · intro d hd
    cases hd
    rfl

namespace Token

variable {c : Char} {cs ds den tail after rest : List Char} {t : Token} {pos more : Nat}

/-! ### How a text begins -/

def BeginsNumber (c : Char) (ds : List Char) : Prop :=
  c.isDigit = true ∨ (c = '+' ∨ c = '-') ∧ ds ≠ []

/--
The text `c :: tail` is a token, and it remains one where `after` follows it. The cases say what
would go on with the token or make another of it.
-/
inductive Begins (c : Char) : (tail after : List Char) → Token → Prop
  | string {tail after : List Char} {bytes : List UInt8} (hc : c = '"')
      (h : stringTail .char 0 1 tail = .ok (bytes, tail.length)) :
    Begins c tail after (.number (Bytes.pack bytes : Int))
  | number {ds den after : List Char} {v : Number} (hc : BeginsNumber c ds)
      (hds : ∀ d ∈ ds, d.isDigit = true) (hden : IsDenominator den) (hafter : NoDigit after)
      (hslash : den = [] → after.head? ≠ some '/')
      (hv : Number.parse (String.ofList (c :: (ds ++ den))) (some (0 : Nat)) = .ok v) :
    Begins c (ds ++ den) after (.number v)
  | arg {ds after : List Char} {i : Nat} (hc : c = '$') (hds : IsDigits ds) (hafter : NoDigit after)
      (hi : Number.readDigits ds = .ok i) :
    Begins c ds after (.arg i)
  | name {tail after : List Char} (hc : c.isAlpha = true)
      (htail : nameTail (tail ++ after) = tail) :
    Begins c tail after (.name (String.ofList (c :: tail)))
  | declaration {tail ds after : List Char} {mark : Char}
      {declaration : String → Nat → Command} {k : Nat} (hc : c.isAlpha = true)
      (htail : IsNameTail tail) (hmark : declaration? mark = some declaration)
      (hds : IsDigits ds) (hafter : NoDigit after) (hk : Number.readDigits ds = .ok k) :
    Begins c (tail ++ mark :: ds) after (.command (declaration (String.ofList (c :: tail)) k))
  | binding {d : Char} {tail after : List Char} (hc : c = '=') (hd : d.isAlpha = true)
      (htail : nameTail (tail ++ after) = tail) :
    Begins c (d :: tail) after (.command (.bind (String.ofList (d :: tail))))
  | op {after : List Char} {o : Operator} (h : Operator.ofChar? c = some o) :
    Begins c [] after (.op o)
  | command {after : List Char} {k : Command} (h : Command.ofChar? c = some k) :
    Begins c [] after (.command k)

/-- What a text begins with does not depend on its place. -/
lemma next_eq_ok_iff {found : Found} : next pos c rest = .ok found ↔ next 0 c rest = .ok found := by
  have hshift := next_shift 0 pos c rest
  rw [Nat.zero_add] at hshift
  rw [hshift]
  rcases next 0 c rest with error | found' <;> simp [Except.mapError]

/-! ### Tokens by themselves -/

lemma digitRun_eq_self (h : ∀ d ∈ ds, d.isDigit = true) : digitRun ds = ds := by
  have happend : digitRun (ds ++ []) = ds := digitRun_append h NoDigit.nil
  rwa [List.append_nil] at happend

lemma headIsDigit_of_isDigits (h : IsDigits ds) : headIsDigit ds = true := by
  have happend := headIsDigit_append h.2 h.1 []
  rwa [List.append_nil] at happend

lemma nameTail_eq_self (h : IsNameTail tail) : nameTail tail = tail := by
  have happend : nameTail (tail ++ []) = tail := nameTail_append h (by simp)
  rwa [List.append_nil] at happend

lemma nextNumber_alone {v : Number} (hds : ∀ d ∈ ds, d.isDigit = true) (hden : IsDenominator den)
    (hv : Number.parse (String.ofList (c :: (ds ++ den))) (some (0 : Nat)) = .ok v) :
    nextNumber 0 c (ds ++ den) = .ok (.token (.number v) (ds ++ den).length) := by
  have hrun : digitRun (ds ++ den) = ds := by
    have hnoDigit := hden.noDigit .nil
    rw [List.append_nil] at hnoDigit
    exact digitRun_append hds hnoDigit
  simp only [nextNumber, hrun, List.drop_left]
  rcases hden with rfl | ⟨es, rfl, hes⟩
  · rw [List.append_nil] at hv ⊢
    simp only [hv, bind, Except.bind]
  · simp only [headIsDigit_of_isDigits hes, digitRun_eq_self hes.2, if_true, hv, bind, Except.bind]

lemma next_of_beginsNumber (hc : BeginsNumber c ds) (hds : ∀ d ∈ ds, d.isDigit = true)
    (rest : List Char) : next pos c (ds ++ rest) = nextNumber pos c (ds ++ rest) := by
  rcases hc with hc | ⟨hc, hne⟩
  · exact next_of_isDigit hc pos _
  · have hhead := headIsDigit_append hds hne rest
    rcases hc with rfl | rfl <;> simp [next, isBlank, hhead]

/-- A token is read from its text alone. -/
lemma Begins.alone (h : Begins c tail after t) : next 0 c tail = .ok (.token t tail.length) := by
  -- in each case the run of characters that is looked for is all that there is
  cases h with
  | string hc h =>
    subst hc
    simp [next_quote, nextString, h, bind, Except.bind]
  | number hc hds hden _ _ hv => rw [next_of_beginsNumber hc hds, nextNumber_alone hds hden hv]
  | arg hc hds _ hi =>
    subst hc
    have hnext : next 0 '$' tail = nextArgument 0 tail := by simp [next, isBlank]
    simp only [hnext, nextArgument, headIsDigit_of_isDigits hds, digitRun_eq_self hds.2, if_true,
      hi, bind, Except.bind]
  | name hc htail =>
    have hself := nameTail_eq_self (htail ▸ isNameTail_nameTail _)
    simp only [next_of_isAlpha hc, nextName, hself, List.drop_length]
  | @declaration tail ds _ mark declaration k hc htail hmark hds _ hk =>
    have hname : nameTail (tail ++ mark :: ds) = tail := nameTail_append htail fun d hd => by
      cases hd
      exact declaration?_stops hmark
    have hlength : (tail ++ mark :: ds).length = tail.length + 1 + ds.length := by
      simp only [List.length_append, List.length_cons]
      omega
    simp only [next_of_isAlpha hc, nextName, hname, List.drop_left, hmark,
      headIsDigit_of_isDigits hds, digitRun_eq_self hds.2, if_true, hk, bind, Except.bind, hlength]
  | @binding d tail _ hc hd htail =>
    subst hc
    have hself := nameTail_eq_self (htail ▸ isNameTail_nameTail _)
    simp [next, isBlank, hd, hself]
  | op h =>
    unfold Operator.ofChar? at h
    split at h <;> cases h <;> rfl
  | command h =>
    unfold Command.ofChar? at h
    split at h <;> cases h <;> rfl

/-! ### What the lexer finds -/

lemma isDigit_of_mem_digitRun {d : Char} (h : d ∈ digitRun cs) : d.isDigit = true :=
  List.mem_takeWhile_imp h

lemma exists_digitRun_append (cs : List Char) :
    ∃ after, cs = digitRun cs ++ after ∧ NoDigit after := by
  refine ⟨cs.dropWhile Char.isDigit, List.takeWhile_append_dropWhile.symm, fun d hd => ?_⟩
  have hhead := List.head?_dropWhile_not Char.isDigit cs
  rw [hd] at hhead
  simpa using hhead

lemma isDigits_digitRun (h : headIsDigit cs = true) : IsDigits (digitRun cs) := by
  refine ⟨?_, fun d hd => isDigit_of_mem_digitRun hd⟩
  cases cs with
  | nil => cases h
  | cons d cs =>
    have hd : d.isDigit = true := h
    simp [digitRun, hd]

/-- A token at the beginning of a text, and what comes after it. -/
def Found.Splits (rest : List Char) (c : Char) : Found → Prop
  | .skip _ => False
  | .token t more => ∃ tail after, rest = tail ++ after ∧ tail.length = more ∧ Begins c tail after t

lemma splits_nextString {found : Found} (h : nextString .char 0 rest = .ok found) :
    found.Splits rest '"' := by
  obtain ⟨⟨bytes, size⟩, hs, h⟩ := bind_eq_ok h
  cases h
  obtain ⟨tail, after, rfl, rfl, htail⟩ := exists_stringTail hs
  have hclosed : stringTail .char 0 1 tail = .ok (bytes, tail.length) := by simpa using htail []
  exact ⟨tail, after, rfl, rfl, .string rfl hclosed⟩

lemma splits_nextNumber {found : Found}
    (hc : c.isDigit = true ∨ (c = '+' ∨ c = '-') ∧ headIsDigit rest = true)
    (h : nextNumber 0 c rest = .ok found) : found.Splits rest c := by
  have hnumber : BeginsNumber c (digitRun rest) :=
    hc.imp_right fun hsign => ⟨hsign.1, (isDigits_digitRun hsign.2).1⟩
  have hdigits : ∀ d ∈ digitRun rest, d.isDigit = true := fun d hd => isDigit_of_mem_digitRun hd
  obtain ⟨after, hrest, hafter⟩ := exists_digitRun_append rest
  simp only [nextNumber] at h
  generalize digitRun rest = num at *
  subst hrest
  rw [List.drop_left] at h
  by_cases hslash : after.head? = some '/'
  · -- a slash has to be followed by a denominator, or the number is malformed
    obtain ⟨after, rfl⟩ : ∃ cs, after = '/' :: cs := by
      cases after with
      | nil => cases hslash
      | cons d cs =>
        cases hslash
        exact ⟨cs, rfl⟩
    by_cases hhead : headIsDigit after = true
    · simp only [hhead, if_true] at h
      obtain ⟨v, hv, h⟩ := bind_eq_ok h
      cases h
      obtain ⟨after', hrest, hafter'⟩ := exists_digitRun_append after
      refine ⟨num ++ '/' :: digitRun after, after', ?_, rfl, ?_⟩
      · rw [List.append_assoc, List.cons_append, ← hrest]
      · exact .number hnumber hdigits (.inr ⟨_, rfl, isDigits_digitRun hhead⟩) hafter' (by simp) hv
    · simp [hhead] at h
  · -- without a slash the digits are the whole number
    have hread : (do
        let v ← Number.parse (String.ofList (c :: num)) (some ((0 : Nat) : Int))
        .ok (.token (.number v) num.length)) = (.ok found : Except Error Found) := by
      rw [← h]
      split
      · exact absurd rfl hslash
      · rfl
    obtain ⟨v, hv, h⟩ := bind_eq_ok hread
    cases h
    have hbegins : Begins c (num ++ []) after (.number v) :=
      .number hnumber hdigits (.inl rfl) hafter (fun _ => hslash) (by rwa [List.append_nil])
    rw [List.append_nil] at hbegins
    exact ⟨num, after, rfl, rfl, hbegins⟩

lemma splits_nextArgument {found : Found} (h : nextArgument 0 rest = .ok found) :
    found.Splits rest '$' := by
  unfold nextArgument at h
  by_cases hhead : headIsDigit rest = true
  · rw [if_pos hhead] at h
    obtain ⟨index, hindex, h⟩ := bind_eq_ok h
    cases h
    obtain ⟨after, hrest, hafter⟩ := exists_digitRun_append rest
    exact ⟨digitRun rest, after, hrest, rfl, .arg rfl (isDigits_digitRun hhead) hafter hindex⟩
  · rw [if_neg hhead] at h
    cases h

lemma exists_nameTail_append (cs : List Char) : ∃ after, cs = nameTail cs ++ after := by
  fun_induction nameTail cs with
  | case1 => exact ⟨[], rfl⟩
  | case2 c cs hc ih =>
    obtain ⟨after, hcs⟩ := ih
    exact ⟨after, by rw [List.cons_append, ← hcs]⟩
  | case3 c hc hj d ds hd ih =>
    obtain ⟨after, hds⟩ := ih
    exact ⟨after, by rw [List.cons_append, List.cons_append, ← hds]⟩
  | case4 c hc hj d ds hd => exact ⟨c :: d :: ds, rfl⟩
  | case5 c hc hj => exact ⟨[c], rfl⟩
  | case6 c cs hc hj => exact ⟨c :: cs, rfl⟩

lemma splits_nextName {found : Found} (hc : c.isAlpha = true) (h : nextName c rest = .ok found) :
    found.Splits rest c := by
  obtain ⟨after, hrest⟩ := exists_nameTail_append rest
  have htail := isNameTail_nameTail rest
  simp only [nextName] at h
  generalize hname : nameTail rest = tail at *
  subst hrest
  rw [List.drop_left] at h
  -- a mark counts only if a digit follows it, so there are three ways to a plain name
  have hplain : found = .token (.name (String.ofList (c :: tail))) tail.length →
      found.Splits (tail ++ after) c := by
    rintro rfl
    exact ⟨tail, after, rfl, rfl, .name hc hname⟩
  cases after with
  | nil => exact hplain (Except.ok.inj h).symm
  | cons mark after =>
    rcases hmark : declaration? mark with _ | declaration
    · simp only [hmark] at h
      exact hplain (Except.ok.inj h).symm
    · simp only [hmark] at h
      by_cases hhead : headIsDigit after = true
      · simp only [hhead, if_true] at h
        obtain ⟨k, hk, h⟩ := bind_eq_ok h
        cases h
        obtain ⟨after', hrest, hafter'⟩ := exists_digitRun_append after
        refine ⟨tail ++ mark :: digitRun after, after', ?_, ?_, ?_⟩
        · rw [List.append_assoc, List.cons_append, ← hrest]
        · simp only [List.length_append, List.length_cons]
          omega
        · exact .declaration hc htail hmark (isDigits_digitRun hhead) hafter' hk
      · simp only [hhead] at h
        exact hplain (Except.ok.inj h).symm

lemma splits_nextSymbol {found : Found} (h : nextSymbol 0 c = .ok found) : found.Splits rest c := by
  unfold nextSymbol at h
  split at h
  · next o _ ho =>
    cases h
    exact ⟨[], rest, rfl, rfl, .op ho⟩
  · next k _ hk =>
    cases h
    exact ⟨[], rest, rfl, rfl, .command hk⟩
  · cases h

/-- A text that begins with neither a blank nor a comment begins with a token, if it can be read. -/
lemma splits_next {found : Found} (hblank : isBlank c = false) (hcomment : c ≠ ';')
    (h : next 0 c rest = .ok found) : found.Splits rest c := by
  -- in the order in which the lexer tells the kinds of tokens apart
  unfold next at h
  rw [hblank, if_neg Bool.false_ne_true, if_neg hcomment] at h
  by_cases hquote : c = '"'
  · subst hquote
    exact splits_nextString h
  rw [if_neg hquote] at h
  by_cases hnumber : (c.isDigit || (c = '+' || c = '-') && headIsDigit rest) = true
  · rw [if_pos hnumber] at h
    exact splits_nextNumber (by simpa using hnumber) h
  rw [if_neg hnumber] at h
  by_cases hdollar : c = '$'
  · subst hdollar
    exact splits_nextArgument h
  rw [if_neg hdollar] at h
  by_cases hletter : c.isAlpha = true
  · rw [if_pos hletter] at h
    exact splits_nextName hletter h
  rw [if_neg hletter] at h
  cases rest with
  | nil => exact splits_nextSymbol h
  | cons d ds =>
    by_cases hbinding : c = '=' ∧ d.isAlpha = true
    · obtain ⟨rfl, hd⟩ := hbinding
      simp only [hd, decide_true, Bool.and_self, if_true] at h
      cases h
      obtain ⟨after, hds⟩ := exists_nameTail_append ds
      refine ⟨d :: nameTail ds, after, ?_, rfl, .binding rfl hd ?_⟩
      · rw [List.cons_append, ← hds]
      · rw [← hds]
    · have hsymbol : ¬(decide (c = '=') && d.isAlpha) = true := by simpa using hbinding
      simp only [hsymbol] at h
      exact splits_nextSymbol h

end Token

/-! ### Longest match -/

/-- The text begins with `run`, which is in the class and is the longest beginning that is. -/
def IsLongest (isIn : List Char → Prop) (run text : List Char) : Prop :=
  run <+: text ∧ isIn run ∧ ∀ other, other <+: text → isIn other → other.length ≤ run.length

lemma IsNameTail.length_le {p cs : List Char} (h : IsNameTail p) (hp : p <+: cs) :
    p.length ≤ (Token.nameTail cs).length := by
  induction h generalizing cs with
  | nil => exact Nat.zero_le _
  | @char c p hc _ ih =>
    obtain ⟨cs, rfl⟩ := hp
    have hle := ih (List.prefix_append p cs)
    rw [List.cons_append, Token.nameTail.eq_def]
    simp only [hc, if_true, List.length_cons]
    omega
  | @joined c d p hc hd _ ih =>
    obtain ⟨cs, rfl⟩ := hp
    have hle := ih (List.prefix_append p cs)
    have hjoins : c.isAlphanum = false ∧ (c = '-' || c = '_') = true := by
      rcases hc with rfl | rfl <;> decide
    simp only [List.cons_append, Token.nameTail, hjoins, hd, if_true, Bool.false_eq_true, if_false,
      List.length_cons]
    omega

lemma isLongest_name {c : Char} {tail after : List Char} (hc : c.isAlpha = true)
    (htail : Token.nameTail (tail ++ after) = tail) :
    IsLongest (fun cs => IsName (String.ofList cs)) (c :: tail) (c :: (tail ++ after)) := by
  refine ⟨⟨after, rfl⟩, ⟨c, tail, rfl, hc, htail ▸ Token.isNameTail_nameTail _⟩, ?_⟩
  rintro other hother ⟨d, p, hp, -, hname⟩
  rw [String.ofList_injective hp] at hother ⊢
  have hle := hname.length_le (List.cons_prefix_cons.mp hother).2
  rw [htail] at hle
  exact Nat.succ_le_succ hle

/-- Digits at the beginning of a text are among those that it begins with. -/
lemma length_digits_le_of_prefix {ds es after : List Char} (hds : ∀ d ∈ ds, d.isDigit = true)
    (hes : ∀ d ∈ es, d.isDigit = true) (hafter : NoDigit after) (h : ds <+: es ++ after) :
    ds.length ≤ es.length := by
  obtain ⟨rest, hrest⟩ := h
  have hrun : Token.digitRun (ds ++ rest) = ds ++ Token.digitRun rest :=
    List.takeWhile_append_of_pos hds
  rw [hrest, Token.digitRun_append hes hafter] at hrun
  rw [hrun, List.length_append]
  exact Nat.le_add_right _ _

/-- Without their signs, a number that goes on as long as it can is the longest. -/
lemma length_unsigned_le {num den num' den' after : List Char} (hnum : IsDigits num)
    (hden : IsDenominator den) (hnum' : IsDigits num') (hden' : IsDenominator den')
    (hafter : NoDigit after) (hslash : den = [] → after.head? ≠ some '/')
    (h : num' ++ den' <+: num ++ (den ++ after)) :
    (num' ++ den').length ≤ (num ++ den).length := by
  have hrest : NoDigit (den ++ after) := hden.noDigit hafter
  rcases hden' with rfl | ⟨es', rfl, hes'⟩
  · rw [List.append_nil] at h ⊢
    have hle := length_digits_le_of_prefix hnum'.2 hnum.2 hrest h
    rw [List.length_append]
    omega
  · obtain ⟨rest, heq⟩ := h
    rw [List.append_assoc, List.cons_append] at heq
    -- both texts have the same digits before the slash
    obtain rfl : num' = num := by
      have hrun := congrArg Token.digitRun heq
      rwa [Token.digitRun_append hnum'.2 (by simp [Char.isDigit]),
        Token.digitRun_append hnum.2 hrest] at hrun
    have heq' := List.append_cancel_left heq
    rcases hden with rfl | ⟨es, rfl, hes⟩
    · rw [List.nil_append] at heq'
      exact absurd (by rw [← heq']; rfl) (hslash rfl)
    · have hle := length_digits_le_of_prefix hes'.2 hes.2 hafter ⟨rest, (List.cons.inj heq').2⟩
      simp only [List.length_append, List.length_cons]
      omega

lemma IsSign.eq {sign sign' num num' rest rest' : List Char} (hsign : IsSign sign)
    (hsign' : IsSign sign') (hnum : IsDigits num) (hnum' : IsDigits num')
    (h : sign ++ (num ++ rest) = sign' ++ (num' ++ rest')) : sign = sign' := by
  have hhead := Token.headIsDigit_append hnum.2 hnum.1 rest
  have hhead' := Token.headIsDigit_append hnum'.2 hnum'.1 rest'
  generalize num ++ rest = text at h hhead
  generalize num' ++ rest' = text' at h hhead'
  have hplus : ∀ cs, Token.headIsDigit ('+' :: cs) = false := fun _ => rfl
  have hminus : ∀ cs, Token.headIsDigit ('-' :: cs) = false := fun _ => rfl
  rcases hsign with rfl | rfl | rfl <;> rcases hsign' with rfl | rfl | rfl <;> grind

lemma isLongest_number {c : Char} {ds den after : List Char} (hc : Token.BeginsNumber c ds)
    (hds : ∀ d ∈ ds, d.isDigit = true) (hden : IsDenominator den) (hafter : NoDigit after)
    (hslash : den = [] → after.head? ≠ some '/') :
    IsLongest IsNumeral (c :: (ds ++ den)) (c :: (ds ++ den ++ after)) := by
  obtain ⟨sign, num, hcs, hsign, hnum⟩ : ∃ sign num, c :: ds = sign ++ num ∧
      IsSign sign ∧ IsDigits num := by
    rcases hc with hc | ⟨rfl | rfl, hne⟩
    · refine ⟨[], c :: ds, rfl, .inl rfl, List.cons_ne_nil c ds, ?_⟩
      exact List.forall_mem_cons.mpr ⟨hc, hds⟩
    · exact ⟨['+'], ds, rfl, .inr (.inl rfl), hne, hds⟩
    · exact ⟨['-'], ds, rfl, .inr (.inr rfl), hne, hds⟩
  have hrun : c :: (ds ++ den) = sign ++ (num ++ den) := by
    rw [← List.cons_append, hcs, List.append_assoc]
  have htext : c :: (ds ++ den ++ after) = sign ++ (num ++ (den ++ after)) := by
    rw [← List.cons_append, hrun]
    simp only [List.append_assoc]
  rw [hrun, htext]
  refine ⟨⟨after, by simp only [List.append_assoc]⟩, ⟨sign, num, den, rfl, hsign, hnum, hden⟩, ?_⟩
  -- another number at the same place has the same sign, so the unsigned parts are compared
  rintro other hother ⟨sign', num', den', rfl, hsign', hnum', hden'⟩
  obtain rfl : sign' = sign := by
    obtain ⟨rest, heq⟩ := hother
    rw [List.append_assoc, List.append_assoc] at heq
    exact hsign'.eq hsign hnum' hnum heq
  rw [List.prefix_append_right_inj] at hother
  have hle := length_unsigned_le hnum hden hnum' hden' hafter hslash hother
  simpa only [List.length_append, Nat.add_le_add_iff_left] using hle

/-! ### How a text is laid out -/

/--
The text from index `first` to index `stop` is a comment: a semicolon and all that comes before the
end of the line.
-/
def IsComment (text : List Char) (first stop : Nat) : Prop :=
  ∃ before body after, text = before ++ ';' :: (body ++ after) ∧ before.length = first ∧
    first + body.length + 1 = stop ∧ (∀ d ∈ body, d ≠ '\n' ∧ d ≠ '\r') ∧
    ∀ d ∈ after.head?, d = '\n' ∨ d = '\r'

lemma IsComment.append_left {text : List Char} {first stop : Nat} (h : IsComment text first stop)
    (part : List Char) : IsComment (part ++ text) (part.length + first) (part.length + stop) := by
  obtain ⟨before, body, after, rfl, rfl, rfl, hbody, hafter⟩ := h
  refine ⟨part ++ before, body, after, (List.append_assoc _ _ _).symm, List.length_append, ?_,
    hbody, hafter⟩
  omega

lemma exists_comment (rest : List Char) : ∃ body after, rest = body ++ after ∧
    body.length = (rest.takeWhile fun d => !Token.endsLine d).length ∧
    (∀ d ∈ body, d ≠ '\n' ∧ d ≠ '\r') ∧ ∀ d ∈ after.head?, d = '\n' ∨ d = '\r' := by
  refine ⟨_, _, List.takeWhile_append_dropWhile.symm, rfl, fun d hd => ?_, fun d hd => ?_⟩
  · simpa [Token.endsLine] using List.mem_takeWhile_imp hd
  · have hhead := List.head?_dropWhile_not (fun d => !Token.endsLine d) rest
    rw [hd] at hhead
    exact Decidable.or_iff_not_imp_left.mpr (by simpa [Token.endsLine] using hhead)

namespace Lexeme

/-- A text at index `pos` is made of these lexemes, with blanks and comments between them. -/
inductive Laid : Nat → List Char → List Lexeme → Prop
  | nil {pos : Nat} : Laid pos [] []
  | blank {pos : Nat} {c : Char} {cs : List Char} {lexemes : List Lexeme}
      (hc : Token.isBlank c = true) (h : Laid (pos + 1) cs lexemes) :
    Laid pos (c :: cs) lexemes
  | comment {pos : Nat} {body cs : List Char} {lexemes : List Lexeme}
      (hbody : ∀ d ∈ body, d ≠ '\n' ∧ d ≠ '\r') (hcs : ∀ d ∈ cs.head?, d = '\n' ∨ d = '\r')
      (h : Laid (pos + body.length + 1) cs lexemes) :
    Laid pos (';' :: (body ++ cs)) lexemes
  | token {pos : Nat} {c : Char} {tail cs : List Char} {t : Token} {lexemes : List Lexeme}
      (ht : Token.Begins c tail cs t) (h : Laid (pos + tail.length + 1) cs lexemes) :
    Laid pos (c :: (tail ++ cs))
      (⟨t, String.ofList (c :: tail), pos, pos + tail.length + 1⟩ :: lexemes)

variable {pos : Nat} {cs : List Char} {lexemes : List Lexeme}

lemma laid_of_scan (h : scan pos cs = .ok lexemes) : Laid pos cs lexemes := by
  induction pos, cs using scanBy.induct generalizing lexemes with
  | case1 pos =>
    rw [scan_nil] at h
    cases h
    exact .nil
  | case2 pos c rest ih =>
    rw [scan_cons] at h
    obtain ⟨found, hn, h⟩ := bind_eq_ok h
    by_cases hblank : Token.isBlank c = true
    · simp only [Token.next, hblank, if_true] at hn
      cases hn
      exact .blank hblank (ih 0 h)
    by_cases hcomment : c = ';'
    · -- what the lexer skips is the comment up to the end of its line
      subst hcomment
      have hskip : Token.next pos ';' rest =
          .ok (.skip (rest.takeWhile fun d => !Token.endsLine d).length) := rfl
      rw [hskip] at hn
      cases hn
      obtain ⟨body, after, hrest, hlength, hbody, hafter⟩ := exists_comment rest
      have hlaid := ih _ h
      rw [← hlength] at hlaid
      subst hrest
      rw [List.drop_left] at hlaid
      exact .comment hbody hafter hlaid
    · have hsplits :=
        Token.splits_next (by simpa using hblank) hcomment (Token.next_eq_ok_iff.mp hn)
      cases found with
      | skip more => exact absurd hsplits id
      | token t more =>
        -- the lexer cuts the text by length, and the cut is where the token splits it
        obtain ⟨lexemes', hs, h⟩ := bind_eq_ok h
        cases h
        obtain ⟨tail, after, rfl, rfl, ht⟩ := hsplits
        have hlaid := ih _ hs
        rw [List.drop_left] at hlaid
        rw [List.take_left]
        exact .token ht hlaid

lemma Laid.bounds (h : Laid pos cs lexemes) :
    ∀ l ∈ lexemes, pos ≤ l.start ∧ l.start < l.stop ∧ l.stop ≤ pos + cs.length := by
  induction h with
  | nil => simp
  | blank _ _ ih =>
    intro l hl
    have hbounds := ih l hl
    rw [List.length_cons]
    omega
  | comment _ _ _ ih =>
    intro l hl
    have hbounds := ih l hl
    rw [List.length_cons, List.length_append]
    omega
  | token _ _ ih =>
    intro l hl
    rw [List.length_cons, List.length_append]
    rcases List.mem_cons.mp hl with rfl | hl
    · dsimp only
      omega
    · have hbounds := ih l hl
      omega

lemma Laid.pairwise (h : Laid pos cs lexemes) : lexemes.Pairwise fun l l' => l.stop ≤ l'.start := by
  induction h with
  | nil => exact .nil
  | blank _ _ ih => exact ih
  | comment _ _ _ ih => exact ih
  | token _ hlaid ih => exact .cons (fun l hl => (hlaid.bounds l hl).1) ih

/-- Each lexeme is the token that the text goes on with at its start. -/
lemma Laid.begins (h : Laid pos cs lexemes) : ∀ l ∈ lexemes, ∃ before c tail after,
    cs = before ++ c :: (tail ++ after) ∧ l.start = pos + before.length ∧
    l.stop = l.start + tail.length + 1 ∧ l.source = String.ofList (c :: tail) ∧
    Token.Begins c tail after l.token := by
  induction h with
  | nil => simp
  | @blank pos c cs lexemes _ _ ih =>
    intro l hl
    obtain ⟨before, d, tail, after, rfl, hstart, hl⟩ := ih l hl
    refine ⟨c :: before, d, tail, after, rfl, ?_, hl⟩
    rw [hstart, List.length_cons]
    omega
  | @comment pos body cs lexemes _ _ _ ih =>
    intro l hl
    obtain ⟨before, d, tail, after, rfl, hstart, hl⟩ := ih l hl
    refine ⟨';' :: (body ++ before), d, tail, after, by simp, ?_, hl⟩
    rw [hstart, List.length_cons, List.length_append]
    omega
  | @token pos c tail cs t lexemes ht _ ih =>
    intro l hl
    rcases List.mem_cons.mp hl with rfl | hl
    · exact ⟨[], c, tail, cs, rfl, rfl, rfl, rfl, ht⟩
    · obtain ⟨before, d, tail', after, rfl, hstart, hl⟩ := ih l hl
      refine ⟨c :: (tail ++ before), d, tail', after, by simp, ?_, hl⟩
      rw [hstart, List.length_cons, List.length_append]
      omega

/--
The place `i` of a text at index `pos` holds a blank, or is in a comment that no lexeme overlaps.
-/
def Gap (pos : Nat) (cs : List Char) (lexemes : List Lexeme) (i : Nat) : Prop :=
  (∃ c, cs[i]? = some c ∧ c ∈ [' ', '\t', '\n', '\r', '\x0c', '\x0b']) ∨
    ∃ first stop, IsComment cs first stop ∧ first ≤ i ∧ i < stop ∧
      ∀ l ∈ lexemes, l.stop ≤ pos + first ∨ pos + stop ≤ l.start

lemma Gap.append_left {part : List Char} {i : Nat} (h : Gap (pos + part.length) cs lexemes i) :
    Gap pos (part ++ cs) lexemes (part.length + i) := by
  rcases h with ⟨c, hc, hblank⟩ | ⟨first, stop, hcomment, hfirst, hstop, hapart⟩
  · refine .inl ⟨c, ?_, hblank⟩
    rwa [List.getElem?_append_right (Nat.le_add_right _ _), Nat.add_sub_cancel_left]
  · refine .inr ⟨_, _, hcomment.append_left part, by omega, by omega, fun l hl => ?_⟩
    rw [← Nat.add_assoc, ← Nat.add_assoc]
    exact hapart l hl

/-- The lexeme before a gap is over where the gap begins. -/
lemma Gap.cons {i : Nat} {l : Lexeme} (h : Gap pos cs lexemes i) (hl : l.stop ≤ pos) :
    Gap pos cs (l :: lexemes) i := by
  rcases h with hblank | ⟨first, stop, hcomment, hfirst, hstop, hapart⟩
  · exact .inl hblank
  · refine .inr ⟨first, stop, hcomment, hfirst, hstop, ?_⟩
    exact List.forall_mem_cons.mpr ⟨.inl (by omega), hapart⟩

lemma Laid.gap {i : Nat} (h : Laid pos cs lexemes) (hi : i < cs.length)
    (houtside : ∀ l ∈ lexemes, pos + i < l.start ∨ l.stop ≤ pos + i) : Gap pos cs lexemes i := by
  induction h generalizing i with
  | nil => exact absurd hi (Nat.not_lt_zero i)
  | @blank pos c cs lexemes hc _ ih =>
    cases i with
    | zero => exact .inl ⟨c, rfl, by simpa [Token.isBlank, or_assoc] using hc⟩
    | succ j =>
      have hgap : Gap pos ([c] ++ cs) lexemes (1 + j) := by
        refine (ih (Nat.lt_of_succ_lt_succ hi) fun l hl => ?_).append_left
        rw [Nat.add_assoc, Nat.add_comm 1 j]
        exact houtside l hl
      rwa [Nat.add_comm 1 j] at hgap
  | @comment pos body cs lexemes hbody hcs hlaid ih =>
    rcases Nat.lt_or_ge i (body.length + 1) with hinside | hpast
    · -- every lexeme is behind the comment, so none overlaps it
      refine .inr ⟨0, body.length + 1, ⟨[], body, cs, rfl, rfl, by omega, hbody, hcs⟩,
        Nat.zero_le i, hinside, fun l hl => .inr ?_⟩
      exact (hlaid.bounds l hl).1
    · obtain ⟨j, rfl⟩ := Nat.exists_eq_add_of_le hpast
      rw [List.length_cons, List.length_append] at hi
      have hgap : Gap (pos + (';' :: body).length) cs lexemes j := by
        refine ih (by omega) fun l hl => ?_
        have hl := houtside l hl
        omega
      exact hgap.append_left
  | @token pos c tail cs t lexemes ht _ ih =>
    rw [List.forall_mem_cons] at houtside
    obtain ⟨hfirst, houtside⟩ := houtside
    -- the place is not in this lexeme, hence behind it
    have hpast : tail.length + 1 ≤ i := by
      dsimp only at hfirst
      omega
    obtain ⟨j, rfl⟩ := Nat.exists_eq_add_of_le hpast
    rw [List.length_cons, List.length_append] at hi
    have hgap : Gap (pos + (c :: tail).length) cs lexemes j := by
      refine ih (by omega) fun l hl => ?_
      have hl := houtside l hl
      omega
    exact (hgap.cons (Nat.le_refl _)).append_left

/-! ### Nothing is lost -/

/-- What is read at the beginning of a text is read alone from the characters that it covers. -/
lemma scan_of_begins {c : Char} {tail after : List Char} {t : Token}
    (h : Token.Begins c tail after t) :
    scan 0 (c :: tail) = .ok [⟨t, String.ofList (c :: tail), 0, tail.length + 1⟩] := by
  rw [scan_cons, h.alone]
  simp only [bind, Except.bind, List.drop_length, List.take_length, scan_nil]
  rw [Nat.zero_add]

/-- Which of the grammars a token follows, and that it goes on as long as the grammar lets it. -/
lemma isLongest_of_begins {c : Char} {tail after : List Char} {t : Token}
    (h : Token.Begins c tail after t) :
    (∀ n, t = .name n →
      IsLongest (fun cs => IsName (String.ofList cs)) (c :: tail) (c :: (tail ++ after))) ∧
    (∀ v, t = .number v → c ≠ '"' → IsLongest IsNumeral (c :: tail) (c :: (tail ++ after))) := by
  refine ⟨?_, ?_⟩
  · rintro n rfl
    cases h with
    | name hc htail => exact isLongest_name hc htail
  · rintro v rfl hquote
    cases h with
    | string hc _ => exact absurd hc hquote
    | number hc hds hden hafter hslash _ => exact isLongest_number hc hds hden hafter hslash

/--
**The lexer loses nothing and matches the longest.** If a text can be read, then its lexemes are not
empty, lie in the text, and come one after the other. Every character outside of them is one of the
six blanks or is in a comment that no lexeme overlaps. The source of a lexeme is the part of the
text from its start to its stop. Read alone, it is this one lexeme. If the lexeme is a name, or a
number that is not a string literal, then this part is the longest at its start that the grammar of
names, or of numbers, admits.
-/
theorem ofSource_covers_source (source : String) (lexemes : List Lexeme)
    (h : ofSource source = .ok lexemes) :
    (∀ l ∈ lexemes, l.start < l.stop ∧ l.stop ≤ source.length) ∧
    lexemes.Pairwise (fun l l' => l.stop ≤ l'.start) ∧
    (∀ i < source.length, (∀ l ∈ lexemes, i < l.start ∨ l.stop ≤ i) →
      (∃ c, source.toList[i]? = some c ∧ c ∈ [' ', '\t', '\n', '\r', '\x0c', '\x0b']) ∨
      ∃ first stop, IsComment source.toList first stop ∧ first ≤ i ∧ i < stop ∧
        ∀ l ∈ lexemes, l.stop ≤ first ∨ stop ≤ l.start) ∧
    ∀ l ∈ lexemes,
      l.source = String.ofList (Index.slice source.toList l.start l.stop) ∧
      (∃ l', ofSource l.source = .ok [l'] ∧ l'.token = l.token ∧ l'.text = l.text) ∧
      (∀ n, l.token = .name n → IsLongest (fun cs => IsName (String.ofList cs))
        (Index.slice source.toList l.start l.stop) (source.toList.drop l.start)) ∧
      (∀ v, l.token = .number v → source.toList[l.start]? ≠ some '"' → IsLongest IsNumeral
        (Index.slice source.toList l.start l.stop) (source.toList.drop l.start)) := by
  have hlaid := laid_of_scan h
  have hlength : source.toList.length = source.length := String.length_toList
  refine ⟨fun l hl => ?_, hlaid.pairwise, fun i hi houtside => ?_, fun l hl => ?_⟩
  · have hbounds := hlaid.bounds l hl
    omega
  · have hgap := hlaid.gap (hlength ▸ hi) (by simpa only [Nat.zero_add] using houtside)
    simpa only [Gap, Nat.zero_add] using hgap
  · -- all that is said of a lexeme is said of the token that begins at its start
    obtain ⟨before, c, tail, after, htext, hstart, hstop, hsource, hbegins⟩ := hlaid.begins l hl
    rw [Nat.zero_add] at hstart
    have hslice : Index.slice source.toList l.start l.stop = c :: tail := by
      have hstop' : l.stop = (before ++ c :: tail).length := by
        rw [hstop, hstart, List.length_append, List.length_cons, Nat.add_assoc]
      rw [hstart, hstop', htext]
      exact Index.slice_append before (c :: tail) after
    have hdrop : source.toList.drop l.start = c :: (tail ++ after) := by
      rw [htext, hstart, List.drop_left]
    have hfirst : source.toList[l.start]? = some c := by
      rw [htext, hstart, List.getElem?_append_right (Nat.le_refl _), Nat.sub_self]
      rfl
    have hlongest := isLongest_of_begins hbegins
    rw [hslice, hdrop, hfirst]
    refine ⟨hsource, ⟨⟨l.token, l.source, 0, tail.length + 1⟩, ?_, rfl, rfl⟩, hlongest.1, ?_⟩
    · rw [ofSource, hsource, String.toList_ofList, scan_of_begins hbegins]
    · exact fun v hv hquote => hlongest.2 v hv fun hc => hquote (congrArg some hc)

/--
A name with a dash in it, a number with a sign, a dash, and a literal after a comment with a quote.
-/
def crowded : List Lexeme :=
  [⟨.name "x-1", "x-1", 0, 3⟩, ⟨.number (2 / 3), "+2/3", 3, 7⟩, ⟨.op (.binary .sub), "-", 7, 8⟩,
    ⟨.number 15201, "\"a;\"", 11, 15⟩]

/-- With no blank between two lexemes, the name and the number still go on as long as they can. -/
theorem crowded_covers_source : ofSource "x-1+2/3-;\"\r\"a;\"" = .ok crowded ∧
    IsLongest (fun cs => IsName (String.ofList cs)) "x-1".toList "x-1+2/3-;\"\r\"a;\"".toList ∧
    IsLongest IsNumeral "+2/3".toList "+2/3-;\"\r\"a;\"".toList ∧
    ∃ first stop, IsComment "x-1+2/3-;\"\r\"a;\"".toList first stop ∧ first ≤ 9 ∧ 9 < stop ∧
      ∀ l ∈ crowded, l.stop ≤ first ∨ stop ≤ l.start := by
  have h : ofSource "x-1+2/3-;\"\r\"a;\"" = .ok crowded := by decide +kernel
  obtain ⟨-, -, hgaps, hparts⟩ := ofSource_covers_source _ _ h
  have hname := (hparts ⟨.name "x-1", "x-1", 0, 3⟩ (by decide +kernel)).2.2.1 "x-1" rfl
  have hnumber :=
    (hparts ⟨.number (2 / 3), "+2/3", 3, 7⟩ (by decide +kernel)).2.2.2 _ rfl (by decide +kernel)
  refine ⟨h, hname, hnumber, ?_⟩
  rcases hgaps 9 (by decide +kernel) (by decide +kernel) with ⟨c, hc, hblank⟩ | hcomment
  · have hquote : c = '"' := (Option.some.inj hc).symm
    subst hquote
    exact absurd hblank (by decide)
  · exact hcomment

end Lexeme

end ReversePolish
