import ReversePolish.Proofs.StringItems

/-!
Source text can be read line by line.

A line feed ends every token but a string literal, whatever comes after it, and a text that can be
read has no literal left open at its end. So a text, a line feed and another text are read as the
two are by themselves, except that what is found in the second is further on. In a text that cannot
be read, a line feed at the end matters only for what is said of a backslash before it.
-/

namespace ReversePolish

/-! ### Further on -/

/-- The error found `k` characters further on: it names another index, if it names one. -/
def Error.shift (k : Nat) : Error → Error
  | .source fault (some pos) => .source fault (some (pos + k))
  | error => error

/-- The lexeme found `k` characters further on. -/
def Lexeme.shift (k : Nat) (l : Lexeme) : Lexeme :=
  { l with start := l.start + k, stop := l.stop + k }

lemma mapError_bind {α β : Type} (x : Except Error α) (f : α → Except Error β) (g : Error → Error) :
    (x >>= f).mapError g = x.mapError g >>= fun a => (f a).mapError g := by
  cases x <;> rfl

lemma Number.readDigits_shift (ds : List Char) (k : Nat) :
    (readDigits ds).mapError (Error.shift k) = readDigits ds := by
  unfold readDigits
  split <;> rfl

lemma Number.parse_shift (text : String) (pos k : Nat) :
    parse text (some ((pos + k : Nat) : Int)) =
      (parse text (some (pos : Int))).mapError (Error.shift k) := by
  have hcast : ((pos + k : Nat) : Int) = pos + k := Int.natCast_add pos k
  unfold parse
  rw [hcast]
  cases Literal.ofChars? text.toList with
  | none => rfl
  | some literal =>
    -- only an error about the denominator as a whole names the index
    have hrest : ∀ den : Nat,
        (if den = 0 then .error (.source (.zeroDenominator text) (some ((pos : Int) + k)))
        else do
          let num ← readDigits literal.num
          .ok (mkRat (if literal.negative then -(num : Int) else num) den)) =
        (if den = 0 then .error (.source (.zeroDenominator text) (some (pos : Int)))
        else do
          let num ← readDigits literal.num
          .ok (mkRat (if literal.negative then -(num : Int) else num) den) :
            Except Error Number).mapError (Error.shift k) := by
      intro den
      split
      · rfl
      · rw [mapError_bind, readDigits_shift]
        rfl
    cases hden : literal.den with
    | none => simpa only [hden, bind, Except.bind] using hrest 1
    | some ds =>
      simp only [hden]
      rw [mapError_bind, readDigits_shift]
      exact congrArg (readDigits ds >>= ·) (funext hrest)

namespace Token

variable {c : Char} {cs rest : List Char} {pos start : Nat} {error : Error}

section Strings

variable {α : Type} (view : α → CodePoint)

lemma stringTail_shift (start pos k : Nat) (as : List α) :
    stringTail view (start + k) (pos + k) as =
      (stringTail view start pos as).mapError (Error.shift k) := by
  induction items view as generalizing pos with
  | ends => simp [stringTail_nil, Except.mapError, Error.shift]
  | dangling ha => simp [stringTail_dangling ha, Except.mapError, Error.shift]
  | closed ha rest => simp [stringTail_closed ha, Except.mapError]
  | surrogate ha rest => simp [stringTail_surrogate ha, Except.mapError, Error.shift]
  | bad ha he hrest => simp [stringTail_bad ha he hrest, Except.mapError, Error.shift]
  | @item item rest bytes hitem _ ih =>
    have hpos : pos + k + item.length = pos + item.length + k := by omega
    rw [stringTail_item hitem, stringTail_item hitem, hpos, ih]
    cases stringTail view start (pos + item.length) rest <;> rfl

lemma nextString_shift (pos k : Nat) (rest : List α) :
    nextString view (pos + k) rest = (nextString view pos rest).mapError (Error.shift k) := by
  have hpos : pos + k + 1 = pos + 1 + k := by omega
  unfold nextString
  rw [mapError_bind, hpos, stringTail_shift]
  rfl

end Strings

lemma nextNumber_shift (pos k : Nat) (c : Char) (rest : List Char) :
    nextNumber (pos + k) c rest = (nextNumber pos c rest).mapError (Error.shift k) := by
  simp only [nextNumber, Number.parse_shift]
  split
  · split
    · rw [mapError_bind]
      rfl
    · simp [Except.mapError, Error.shift]
  · rw [mapError_bind]
    rfl

lemma nextArgument_shift (pos k : Nat) (rest : List Char) :
    nextArgument (pos + k) rest = (nextArgument pos rest).mapError (Error.shift k) := by
  unfold nextArgument
  split
  · rw [mapError_bind, Number.readDigits_shift]
    rfl
  · simp [Except.mapError, Error.shift]

lemma nextName_shift (k : Nat) (c : Char) (rest : List Char) :
    (nextName c rest).mapError (Error.shift k) = nextName c rest := by
  unfold nextName
  dsimp only
  split
  · split
    · split
      · rw [mapError_bind, Number.readDigits_shift]
        rfl
      · rfl
    · rfl
  · rfl

lemma nextSymbol_shift (pos k : Nat) (c : Char) :
    nextSymbol (pos + k) c = (nextSymbol pos c).mapError (Error.shift k) := by
  unfold nextSymbol
  split
  · rfl
  · rfl
  · simp [Except.mapError, Error.shift]

lemma next_shift (pos k : Nat) (c : Char) (rest : List Char) :
    next (pos + k) c rest = (next pos c rest).mapError (Error.shift k) := by
  unfold next
  rw [nextString_shift, nextNumber_shift, nextArgument_shift, nextSymbol_shift]
  split
  · rfl
  split
  · rfl
  split
  · rfl
  split
  · rfl
  split
  · rfl
  split
  · rw [nextName_shift]
  split
  · split
    · rfl
    · rfl
  · rfl

end Token

/-- A text is read alike wherever it stands. -/
lemma Lexeme.scan_shift (pos k : Nat) (cs : List Char) :
    scan (pos + k) cs =
      ((scan pos cs).map (List.map (Lexeme.shift k))).mapError (Error.shift k) := by
  induction pos, cs using scanBy.induct with
  | case1 pos => simp [Except.map, Except.mapError]
  | case2 pos c rest ih =>
    rw [scan_cons, scan_cons, Token.next_shift]
    rcases Token.next pos c rest with error | more | ⟨t, more⟩
    · rfl
    · have hpos : pos + k + more + 1 = pos + more + 1 + k := by omega
      simp only [Except.mapError, bind, Except.bind]
      rw [hpos]
      exact ih more
    · have hpos : pos + k + more + 1 = pos + more + 1 + k := by omega
      simp only [Except.mapError, bind, Except.bind]
      rw [hpos, ih more]
      rcases scan (pos + more + 1) (rest.drop more) with error | lexemes
      · rfl
      · simp [Except.map, Except.mapError, Lexeme.shift]

/-! ### What a line feed ends -/

namespace Token

variable {found : Found}

lemma takeWhile_newline {p : Char → Bool} (hp : p '\n' = false) (cs after : List Char) :
    (cs ++ '\n' :: after).takeWhile p = cs.takeWhile p := by
  induction cs with
  | nil => simp [hp]
  | cons c cs ih => by_cases hc : p c = true <;> simp [hc, ih]

lemma digitRun_newline (cs after : List Char) : digitRun (cs ++ '\n' :: after) = digitRun cs :=
  takeWhile_newline rfl cs after

lemma headIsDigit_newline (cs after : List Char) :
    headIsDigit (cs ++ '\n' :: after) = headIsDigit cs := by
  cases cs <;> rfl

lemma nameTail_newline (cs after : List Char) : nameTail (cs ++ '\n' :: after) = nameTail cs := by
  fun_induction nameTail cs with
  | case1 =>
    rw [List.nil_append, nameTail.eq_def]
    rfl
  | case2 c cs hc ih =>
    rw [List.cons_append, nameTail.eq_def]
    simp [hc, ih]
  | case3 c hc hj d ds hd ih => simp [nameTail, hc, hj, hd, ih]
  | case4 c hc hj d ds hd => simp [nameTail, hc, hj, hd]
  | case5 c hc hj => simp [nameTail, hc, hj]
  | case6 c cs hc hj =>
    rw [List.cons_append, nameTail.eq_def]
    simp [hc, hj]

lemma length_digitRun_le (cs : List Char) : (digitRun cs).length ≤ cs.length :=
  (List.takeWhile_prefix _).length_le

lemma length_nameTail_le (cs : List Char) : (nameTail cs).length ≤ cs.length := by
  fun_induction nameTail cs <;> simp <;> omega

lemma nextNumber_newline (pos : Nat) (c : Char) (rest after : List Char) :
    nextNumber pos c (rest ++ '\n' :: after) = nextNumber pos c rest := by
  simp only [nextNumber, digitRun_newline,
    List.drop_append_of_le_length (length_digitRun_le rest)]
  rcases rest.drop (digitRun rest).length with _ | ⟨d, ds⟩
  · rfl
  · by_cases hd : d = '/'
    · subst hd
      simp only [List.cons_append, headIsDigit_newline, digitRun_newline]
    · simp [hd]

lemma nextArgument_newline (pos : Nat) (rest after : List Char) :
    nextArgument pos (rest ++ '\n' :: after) = nextArgument pos rest := by
  simp only [nextArgument, headIsDigit_newline, digitRun_newline]

lemma nextName_newline (c : Char) (rest after : List Char) :
    nextName c (rest ++ '\n' :: after) = nextName c rest := by
  simp only [nextName, nameTail_newline, List.drop_append_of_le_length (length_nameTail_le rest)]
  rcases rest.drop (nameTail rest).length with _ | ⟨d, ds⟩
  · rfl
  · simp only [List.cons_append, headIsDigit_newline, digitRun_newline]

/-- Nothing but a string literal can go past a line feed. -/
lemma next_newline (hc : c ≠ '"') (pos : Nat) (rest after : List Char) :
    next pos c (rest ++ '\n' :: after) = next pos c rest := by
  have hcomment : (rest ++ '\n' :: after).takeWhile (fun d => !endsLine d) =
      rest.takeWhile (fun d => !endsLine d) := takeWhile_newline rfl rest after
  simp only [next, hcomment, hc, if_false, headIsDigit_newline, nextNumber_newline,
    nextArgument_newline, nextName_newline]
  rcases rest with _ | ⟨d, ds⟩
  · simp
  · simp only [List.cons_append, nameTail_newline]

lemma next_quote (pos : Nat) (rest : List Char) :
    next pos '"' rest = nextString .char pos rest := rfl

def Found.more : Found → Nat
  | .skip more => more
  | .token _ more => more

lemma nextString_append (h : nextString .char pos rest = .ok found) (after : List Char) :
    nextString .char pos (rest ++ after) = .ok found ∧ found.more ≤ rest.length := by
  obtain ⟨⟨bytes, size⟩, hs, h⟩ := bind_eq_ok h
  cases h
  obtain ⟨hread, hle⟩ := stringTail_append hs after
  exact ⟨by simp [nextString, hread, bind, Except.bind], hle⟩

/-- What a text begins with is found in it also if a line feed and more come after it. -/
lemma next_eq_ok_newline (h : next pos c rest = .ok found) (after : List Char) :
    next pos c (rest ++ '\n' :: after) = .ok found := by
  by_cases hc : c = '"'
  · subst hc
    exact (nextString_append h _).1
  · rw [next_newline hc, h]

lemma more_nextNumber_le (h : nextNumber pos c rest = .ok found) : found.more ≤ rest.length := by
  have hle := length_digitRun_le rest
  simp only [nextNumber] at h
  split at h
  · next after hafter =>
    split at h
    · obtain ⟨v, -, h⟩ := bind_eq_ok h
      cases h
      have hlen := congrArg List.length hafter
      have hafter_le := length_digitRun_le after
      simp only [List.length_drop, List.length_cons] at hlen
      simp only [Found.more, List.length_append, List.length_cons]
      omega
    · cases h
  · obtain ⟨v, -, h⟩ := bind_eq_ok h
    cases h
    exact hle

lemma more_nextName_le (h : nextName c rest = .ok found) : found.more ≤ rest.length := by
  have hle := length_nameTail_le rest
  simp only [nextName] at h
  split at h
  · next mark after hafter =>
    split at h
    · split at h
      · obtain ⟨arity, -, h⟩ := bind_eq_ok h
        cases h
        have hlen := congrArg List.length hafter
        have hafter_le := length_digitRun_le after
        simp only [List.length_drop, List.length_cons] at hlen
        simp only [Found.more]
        omega
      · cases h
        exact hle
    · cases h
      exact hle
  · cases h
    exact hle

lemma more_nextSymbol (h : nextSymbol pos c = .ok found) : found.more = 0 := by
  unfold nextSymbol at h
  split at h <;> cases h <;> rfl

lemma more_le (h : next pos c rest = .ok found) : found.more ≤ rest.length := by
  -- a blank, a comment, a string, a number, an argument, a name, a binding or a symbol
  unfold next at h
  split at h
  · cases h
    exact Nat.zero_le _
  split at h
  · cases h
    exact (List.takeWhile_prefix _).length_le
  split at h
  · exact (nextString_append h []).2
  split at h
  · exact more_nextNumber_le h
  split at h
  · unfold nextArgument at h
    split at h
    · obtain ⟨index, -, h⟩ := bind_eq_ok h
      cases h
      exact length_digitRun_le rest
    · cases h
  split at h
  · exact more_nextName_le h
  split at h
  · split at h
    · cases h
      exact Nat.succ_le_succ (length_nameTail_le _)
    · rw [more_nextSymbol h]
      exact Nat.zero_le _
  · rw [more_nextSymbol h]
    exact Nat.zero_le _

end Token

/-! ### Texts one after the other -/

namespace Lexeme

open ReversePolish.Token (scan_cons_eq_ok)

/-- A text that can be read is read first, and what comes after a line feed is read by itself. -/
lemma scan_newline {pos : Nat} {cs : List Char} {lexemes : List Lexeme}
    (h : scan pos cs = .ok lexemes) (after : List Char) :
    scan pos (cs ++ '\n' :: after) =
      (scan (pos + cs.length + 1) after).map (lexemes ++ ·) := by
  induction pos, cs using scanBy.induct generalizing lexemes with
  | case1 pos =>
    -- the first text is over, and the line feed is a blank
    have hblank : Token.next pos '\n' after = .ok (.skip 0) := rfl
    rw [scan_nil] at h
    cases h
    rw [List.nil_append, scan_cons, hblank]
    change scan (pos + 1) after = (scan (pos + 1) after).map ([] ++ ·)
    cases scan (pos + 1) after <;> rfl
  | case2 pos c rest ih =>
    have hpos : ∀ more ≤ rest.length,
        pos + more + 1 + (rest.drop more).length + 1 = pos + (c :: rest).length + 1 := by
      intro more hle
      rw [List.length_drop, List.length_cons]
      omega
    -- what is found lies within the first text, so dropping it leaves the second whole
    rcases scan_cons_eq_ok h with ⟨more, hn, hs⟩ | ⟨t, more, lexemes', hn, hs, rfl⟩
    · have hle : more ≤ rest.length := Token.more_le hn
      rw [List.cons_append, scan_cons, Token.next_eq_ok_newline hn]
      simp only [bind, Except.bind]
      rw [List.drop_append_of_le_length hle, ih more hs, hpos more hle]
    · have hle : more ≤ rest.length := Token.more_le hn
      rw [List.cons_append, scan_cons, Token.next_eq_ok_newline hn]
      simp only [bind, Except.bind]
      rw [List.drop_append_of_le_length hle, List.take_append_of_le_length hle, ih more hs,
        hpos more hle]
      cases scan (pos + (c :: rest).length + 1) after <;> rfl

end Lexeme

/-! ### A line feed after an error -/

/--
An error in a text, and the one in the text with a line feed after it: a string literal that ends in
a lone backslash is not closed, but with the line feed it is the backslash that is wrong.
-/
def Error.Dangling (error error' : Error) : Prop :=
  ∃ i j, error = .source .unterminatedString (some i) ∧
    error' = .source (.invalidEscape (.char '\n')) (some j)

namespace Token

variable {error : Error}

lemma hexByte?_newline (e : Char) : hexByte? e '\n' = none := by
  have hlow : hexDigit? '\n' = none := by decide
  rw [hexByte?, hlow]
  cases hexDigit? e <;> rfl

lemma stringTail_eq_error {cs : List Char} {start : Nat}
    (h : stringTail .char start pos cs = .error error) :
    ∃ error', stringTail .char start pos (cs ++ ['\n']) = .error error' ∧
      (error' = error ∨ error.Dangling error') := by
  have hplain : IsItem .char ['\n'] (String.utf8EncodeChar '\n') :=
    .plain rfl (by decide) (by decide)
  have hescape : escape? '\n' = none := by decide
  induction items CodePoint.char cs generalizing pos with
  | ends =>
    -- the line feed is one more plain character of a literal that is still not closed
    rw [stringTail_nil] at h
    cases h
    refine ⟨_, ?_, .inl rfl⟩
    rw [List.nil_append, ← List.append_nil ['\n'], stringTail_item hplain, stringTail_nil]
    rfl
  | dangling ha =>
    -- the line feed is taken for what the backslash escapes
    rw [stringTail_dangling ha] at h
    cases h
    exact ⟨_, stringTail_bad ha hescape (by simp), .inr ⟨start, pos, rfl, rfl⟩⟩
  | closed ha rest =>
    rw [stringTail_closed ha] at h
    cases h
  | surrogate ha rest => cases ha
  | @bad a e rest ha he hrest =>
    rw [stringTail_bad ha he hrest] at h
    cases h
    refine ⟨_, stringTail_bad ha he fun d hd => ?_, .inl rfl⟩
    cases rest with
    | nil =>
      -- the line feed now follows the character behind the backslash, and is no digit
      cases hd
      exact hexByte?_newline e
    | cons d' rest => exact hrest d hd
  | @item item rest bytes hitem _ ih =>
    rw [stringTail_item hitem] at h
    rcases hs : stringTail .char start (pos + item.length) rest with error' | found
    · rw [hs] at h
      cases h
      obtain ⟨error', hs', herror⟩ := ih hs
      refine ⟨error', ?_, herror⟩
      rw [List.append_assoc, stringTail_item hitem, hs']
      rfl
    · rw [hs] at h
      cases h

lemma next_eq_error (h : next pos c rest = .error error) :
    ∃ error', next pos c (rest ++ ['\n']) = .error error' ∧
      (error' = error ∨ error.Dangling error') := by
  by_cases hc : c = '"'
  · subst hc
    rw [next_quote] at h ⊢
    obtain hs | ⟨found, -, hfound⟩ := bind_eq_error h
    · obtain ⟨error', hs', herror⟩ := stringTail_eq_error hs
      exact ⟨error', by rw [nextString, hs']; rfl, herror⟩
    · cases hfound
  · exact ⟨error, by rw [next_newline hc, h], .inl rfl⟩

end Token

/-- A text that cannot be read cannot be read with a line feed after it either. -/
lemma Lexeme.scan_eq_error {pos : Nat} {cs : List Char} {error : Error}
    (h : scan pos cs = .error error) :
    ∃ error', scan pos (cs ++ ['\n']) = .error error' ∧
      (error' = error ∨ error.Dangling error') := by
  induction pos, cs using scanBy.induct with
  | case1 pos =>
    rw [scan_nil] at h
    cases h
  | case2 pos c rest ih =>
    rw [scan_cons] at h
    rw [List.cons_append, scan_cons]
    obtain hn | ⟨found, hn, h⟩ := bind_eq_error h
    · obtain ⟨error', hn', herror⟩ := Token.next_eq_error hn
      exact ⟨error', by rw [hn']; rfl, herror⟩
    · -- the error is further on, behind something that is found as before
      rw [Token.next_eq_ok_newline hn]
      cases found with
      | skip more =>
        have hle : more ≤ rest.length := Token.more_le hn
        simp only [bind, Except.bind]
        rw [List.drop_append_of_le_length hle]
        exact ih more h
      | token t more =>
        have hle : more ≤ rest.length := Token.more_le hn
        simp only [bind, Except.bind]
        rw [List.drop_append_of_le_length hle]
        obtain hs | ⟨lexemes, -, hlexemes⟩ := bind_eq_error h
        · obtain ⟨error', hs', herror⟩ := ih more hs
          exact ⟨error', by rw [hs'], herror⟩
        · cases hlexemes

/--
A line feed at the end of a text makes no difference to its tokens, and none to its error but for a
lone backslash before it.
-/
lemma Token.ofSource_newline (source : String) :
    ofSource (source ++ "\n") = ofSource source ∨
      ∃ error error', ofSource source = .error error ∧ ofSource (source ++ "\n") = .error error' ∧
        error.Dangling error' := by
  have hchars : (source ++ "\n").toList = source.toList ++ ['\n'] := by simp [String.toList_append]
  simp only [ofSource, Lexeme.ofSource, hchars]
  rcases hs : Lexeme.scan 0 source.toList with error | lexemes
  · obtain ⟨error', hs', herror | hdangling⟩ := Lexeme.scan_eq_error hs
    · rw [hs', herror]
      exact .inl rfl
    · rw [hs']
      exact .inr ⟨error, error', rfl, rfl, hdangling⟩
  · rw [Lexeme.scan_newline hs, Lexeme.scan_nil]
    simp [Except.map]

namespace Lexeme

/--
**Source text can be read line by line.** If a text can be read, then it can be read together with a
line feed and another text iff the other can be read. The lexemes are those of the first followed by
those of the second, which start and stop further on by the length of the first and the line feed.
If the second cannot be read, the error is the same, but for the index that it names, which is as
much further on.
-/
theorem ofSource_line_by_line (a b : String) (lexemes : List Lexeme)
    (ha : ofSource a = .ok lexemes) :
    ofSource (a ++ "\n" ++ b) = match ofSource b with
      | .ok more => .ok (lexemes ++ more.map (shift (a.length + 1)))
      | .error error => .error (error.shift (a.length + 1)) := by
  have hchars : (a ++ "\n" ++ b).toList = a.toList ++ '\n' :: b.toList := by
    simp [String.toList_append]
  have hlength : 0 + a.toList.length + 1 = 0 + (a.length + 1) := by simp [String.length_toList]
  unfold ofSource at ha ⊢
  rw [hchars, scan_newline ha, hlength, scan_shift]
  cases scan 0 b.toList <;> rfl

def dashes : List Lexeme := [⟨.name "x", "x", 0, 1⟩, ⟨.op (.binary .sub), "-", 1, 2⟩]

/--
The line feed keeps the dash apart from the digit, and ends the comment before the quote counts.
-/
theorem dashes_line_by_line : ofSource "x-;\"" = .ok dashes ∧
    ofSource ("x-;\"" ++ "\n" ++ "1 =z") =
      .ok (dashes ++ [⟨.number 1, "1", 5, 6⟩, ⟨.command (.bind "z"), "=z", 7, 9⟩]) ∧
    ofSource ("x-;\"" ++ "\n" ++ "1/") =
      .error (.source (.missingDenominator "1/") (some 5)) := by
  have ha : ofSource "x-;\"" = .ok dashes := by decide +kernel
  have hone :
      ofSource "1 =z" = .ok [⟨.number 1, "1", 0, 1⟩, ⟨.command (.bind "z"), "=z", 2, 4⟩] := by
    decide +kernel
  have hslash : ofSource "1/" = .error (.source (.missingDenominator "1/") (some 0)) := by
    decide +kernel
  refine ⟨ha, ?_, ?_⟩
  · rw [ofSource_line_by_line _ _ _ ha, hone]
    rfl
  · rw [ofSource_line_by_line _ _ _ ha, hslash]
    rfl

end Lexeme

end ReversePolish
