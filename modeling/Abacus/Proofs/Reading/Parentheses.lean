import Abacus.Proofs.Reading.Composition
import Abacus.Proofs.Reading.Viable

/-!
# Parentheses

The parentheses of a text match if they are a Dyck word.  Tokens have the parentheses of the text that
they are cut from (`parentheses_of_lexes`), and in all that the grammar derives they match
(`Derives.matched`).

A group is an opening parenthesis with the closing one that it matches and the tokens between them.
Wherever it stands in a statement, it holds an expression, if there is no name right before it that it
gives arguments to (`Derives.expression_of_group`).
-/

namespace Abacus.Reading

open DyckStep (U D)

/-! ## Dyck words -/

/-- The parentheses match. -/
def Matched (steps : List DyckStep) : Prop := ∃ word : DyckWord, word.toList = steps

namespace Matched

variable {steps more others : List DyckStep}

theorem nil : Matched [] := ⟨0, rfl⟩

theorem append (h : Matched steps) (h' : Matched more) : Matched (steps ++ more) := by
  obtain ⟨word, rfl⟩ := h
  obtain ⟨word', rfl⟩ := h'
  exact ⟨word + word', rfl⟩

theorem nest (h : Matched steps) : Matched (U :: steps ++ [D]) := by
  obtain ⟨word, rfl⟩ := h
  exact ⟨word.nest, rfl⟩

theorem count_eq (h : Matched steps) : steps.count U = steps.count D := by
  obtain ⟨word, rfl⟩ := h
  exact word.count_U_eq_count_D

theorem count_le (h : Matched (steps ++ more)) : steps.count D ≤ steps.count U := by
  obtain ⟨word, hword⟩ := h
  have hle := word.count_D_le_count_U steps.length
  rwa [hword, List.take_left] at hle

/-- Behind matching parentheses there is none to close. -/
theorem not_closing (h : Matched steps) : ¬ Matched (steps ++ D :: more) := by
  intro hwhole
  have hfront : Matched ((steps ++ [D]) ++ more) := by simpa using hwhole
  have hle := hfront.count_le
  have heq := h.count_eq
  simp at hle
  omega

/-- A parenthesis that is not closed before some place is open there. -/
theorem not_opening (h : Matched (more ++ others)) : ¬ Matched (steps ++ U :: more) := by
  intro hwhole
  have hbefore := hwhole.count_le
  have hbehind := h.count_le
  have heq := hwhole.count_eq
  simp at heq
  omega

end Matched

/-! ## The parentheses of a text and of its tokens -/

/-- The parenthesis that a character is. -/
def parenthesis? : Char → Option DyckStep
  | '(' => some U
  | ')' => some D
  | _ => none

/-- The parentheses of a text from left to right. -/
def parentheses (cs : List Char) : List DyckStep := cs.filterMap parenthesis?

/-- The parenthesis that a token of a kind is. -/
def parenthesisOf? : TokenKind → Option DyckStep
  | .leftParen => some U
  | .rightParen => some D
  | _ => none

/-- The parentheses among some lexemes. -/
def lexemeParentheses (lexemes : List Lexeme) : List DyckStep :=
  lexemes.filterMap fun lexeme => parenthesisOf? lexeme.1

theorem parenthesis?_eq_none {c : Char} (hopening : c ≠ '(') (hclosing : c ≠ ')') :
    parenthesis? c = none := by
  simp [parenthesis?]

theorem parentheses_eq_nil {cs : List Char} {p : Char → Prop} (hcs : ∀ c ∈ cs, p c)
    (hopening : ¬ p '(') (hclosing : ¬ p ')') : parentheses cs = [] := by
  refine List.filterMap_eq_nil_iff.mpr fun c hc => parenthesis?_eq_none ?_ ?_
  · intro heq
    exact hopening (heq ▸ hcs c hc)
  · intro heq
    exact hclosing (heq ▸ hcs c hc)

theorem parentheses_lexeme {cs text : List Char} {kind : TokenKind}
    (h : lexeme? cs = some (kind, text)) : parentheses text = (parenthesisOf? kind).toList := by
  rcases lexeme?_cases h with ⟨rfl, hnumeral⟩ | ⟨rfl, rfl, _⟩ | ⟨c, rfl, hc⟩
  · exact parentheses_eq_nil (isNumeralChar_numeral hnumeral) (by unfold IsNumeralChar; decide)
      (by unfold IsNumeralChar; decide)
  · have hletters : ∀ c ∈ cs.takeWhile Char.isAlpha, c.isAlpha = true :=
      fun c hc => List.mem_takeWhile_imp hc
    exact parentheses_eq_nil hletters (by decide) (by decide)
  · unfold symbolKind? at hc
    -- one case for each of the ten characters, and one for all others
    split at hc
    all_goals first | contradiction | (cases hc; rfl)

/-- A text and its lexemes have the same parentheses. -/
theorem parentheses_of_lexes {cs : List Char} {lexemes : List Lexeme} (h : Lexes cs lexemes) :
    parentheses cs = lexemeParentheses lexemes := by
  have hblanks : ∀ cs : List Char, parentheses cs = parentheses (cs.dropWhile isSeparator) := by
    intro cs
    have hnil : parentheses (cs.takeWhile isSeparator) = [] :=
      parentheses_eq_nil (fun c hc => List.mem_takeWhile_imp hc) (by decide)
        (by decide)
    conv_lhs => rw [← List.takeWhile_append_dropWhile (p := isSeparator) (l := cs)]
    rw [parentheses, List.filterMap_append, ← parentheses, hnil, List.nil_append, parentheses]
  induction h with
  | finish h => rw [hblanks, h]; rfl
  | @lexeme cs text kind lexemes hlexeme _ ih =>
    obtain ⟨rest, hrest⟩ := lexeme?_isPrefix hlexeme
    rw [← hrest, List.drop_left] at ih
    rw [hblanks, ← hrest, parentheses, List.filterMap_append, ← parentheses, ← parentheses, ih,
      parentheses_lexeme hlexeme]
    cases hkind : parenthesisOf? kind <;> simp [lexemeParentheses, hkind]

/-- The parentheses among some tokens. -/
def parenthesesOf (tokens : List Token) : List DyckStep :=
  tokens.filterMap fun token => parenthesisOf? token.kind

theorem lexemeParentheses_map (tokens : List Token) :
    lexemeParentheses (tokens.map Token.lexeme) = parenthesesOf tokens := by
  rw [lexemeParentheses, List.filterMap_map]
  rfl

@[simp] theorem parenthesesOf_nil : parenthesesOf [] = [] := rfl

@[simp] theorem parenthesesOf_cons (token : Token) (tokens : List Token) :
    parenthesesOf (token :: tokens) =
      (parenthesisOf? token.kind).toList ++ parenthesesOf tokens := by
  cases h : parenthesisOf? token.kind <;> simp [parenthesesOf, h]

@[simp] theorem parenthesesOf_append (tokens more : List Token) :
    parenthesesOf (tokens ++ more) = parenthesesOf tokens ++ parenthesesOf more :=
  List.filterMap_append

/-- Parentheses match in all that the grammar derives. -/
theorem Derives.matched {symbol : Nonterminal} {tokens : List Token} (h : Derives symbol tokens) :
    Matched (parenthesesOf tokens) := by
  induction h with
  | expressionStatement _ hfinish ih => simpa [hfinish, parenthesisOf?] using ih
  | assignmentStatement htarget hequals _ hfinish ih =>
    simpa [htarget, hequals, hfinish, parenthesisOf?] using ih
  | expression _ _ ihterm ihoperations => simpa using ihterm.append ihoperations
  | noOperation | noArgument => exact .nil
  | operation htoken _ _ ihterm ihoperations =>
    rcases htoken with hkind | hkind
    all_goals simpa [hkind, parenthesisOf?] using ihterm.append ihoperations
  | unsigned _ ih => exact ih
  | signed hsign _ ih => simpa [hsign, parenthesisOf?] using ih
  | number htoken | var htoken => simpa [htoken, parenthesisOf?] using Matched.nil
  | called _ ih => exact ih
  | grouped hopening _ hclosing ih => simpa [hopening, hclosing, parenthesisOf?] using ih.nest
  | callEmpty hname hopening hclosing =>
    simpa [hname, hopening, hclosing, parenthesisOf?] using Matched.nil.nest
  | call hname hopening _ _ hclosing ihexpression ihfurther =>
    simpa [hname, hopening, hclosing, parenthesisOf?] using (ihexpression.append ihfurther).nest
  | argument hcomma _ _ ihexpression ihfurther =>
    simpa [hcomma, parenthesisOf?] using ihexpression.append ihfurther

/-! ## Groups -/

/-- Behind `before` stands a group, with `inner` between its parentheses. -/
def HasGroup (tokens before inner : List Token) : Prop :=
  ∃ opening closing more, tokens = before ++ opening :: (inner ++ closing :: more) ∧
    opening.kind = .leftParen ∧ closing.kind = .rightParen ∧ Matched (parenthesesOf inner)

namespace HasGroup

variable {first others before inner : List Token}

theorem not_nil : ¬ HasGroup [] before inner := by
  intro h
  obtain ⟨_, _, _, heq, _⟩ := h
  simp at heq

/-- A token that is no opening parenthesis stands before all groups. -/
theorem of_cons {token : Token} (h : HasGroup (token :: others) before inner)
    (htoken : token.kind ≠ .leftParen) :
    ∃ front, before = token :: front ∧ HasGroup others front inner := by
  obtain ⟨opening, closing, more, heq, hopening, hrest⟩ := h
  cases before with
  | nil =>
    obtain ⟨rfl, _⟩ := List.cons.inj heq
    exact absurd hopening htoken
  | cons other front =>
    obtain ⟨rfl, hothers⟩ := List.cons.inj heq
    exact ⟨front, rfl, opening, closing, more, hothers, hopening, hrest⟩

/-- No group goes over the end of tokens with matching parentheses. -/
theorem of_append (h : HasGroup (first ++ others) before inner)
    (hfirst : Matched (parenthesesOf first)) :
    HasGroup first before inner ∨ ∃ front, before = first ++ front ∧ HasGroup others front inner := by
  obtain ⟨opening, closing, more, heq, hopening, hclosing, hinner⟩ := h
  rcases List.append_eq_append_iff.mp heq with ⟨front, rfl, hothers⟩ | ⟨rest, rfl, hrest⟩
  · exact .inr ⟨front, rfl, opening, closing, more, hothers, hopening, hclosing, hinner⟩
  · cases rest with
    | nil =>
      have hothers : others = opening :: (inner ++ closing :: more) := hrest.symm
      exact .inr ⟨[], by simp, opening, closing, more, hothers, hopening, hclosing, hinner⟩
    | cons token rest =>
      obtain ⟨rfl, htail⟩ := List.cons.inj hrest
      -- the opening parenthesis is one of `first`, so the one that closes it is as well
      have hopen : ∀ behind, inner ≠ rest ++ behind := by
        intro behind hbehind
        rw [hbehind, parenthesesOf_append] at hinner
        exact hinner.not_opening (by simpa [hopening, parenthesisOf?] using hfirst)
      rcases List.append_eq_append_iff.mp htail with ⟨behind, hbehind, hlast⟩ | ⟨behind, hbehind, _⟩
      · cases behind with
        | nil => exact absurd (by simpa using hbehind.symm) (hopen [])
        | cons other behind =>
          obtain ⟨rfl, _⟩ := List.cons.inj hlast
          refine .inl ⟨opening, closing, behind, ?_, hopening, hclosing, hinner⟩
          rw [hbehind]
      · exact absurd hbehind (hopen behind)

/-- A group is the outermost one or stands in it. -/
theorem of_nested {opening closing : Token}
    (h : HasGroup (opening :: others ++ [closing]) before inner)
    (hothers : Matched (parenthesesOf others)) (hclosing : closing.kind = .rightParen) :
    (before = [] ∧ inner = others) ∨
      ∃ front, before = opening :: front ∧ HasGroup others front inner := by
  obtain ⟨first, last, more, heq, hfirst, hlast, hinner⟩ := h
  cases before with
  | nil =>
    obtain ⟨rfl, htail⟩ := List.cons.inj heq
    refine .inl ⟨rfl, ?_⟩
    rcases List.append_eq_append_iff.mp htail with ⟨behind, rfl, hbehind⟩ | ⟨behind, rfl, hbehind⟩
    · -- `last :: more` is a part of `[closing]`, so it is all of it
      cases behind with
      | nil => exact List.append_nil others
      | cons token behind => simp at hbehind
    · cases behind with
      | nil => exact (List.append_nil inner).symm
      | cons token behind =>
        obtain ⟨rfl, _⟩ := List.cons.inj hbehind
        exact absurd (by simpa [hlast, parenthesisOf?] using hothers) hinner.not_closing
  | cons token front =>
    obtain ⟨rfl, htail⟩ := List.cons.inj heq
    have hgroup : HasGroup (others ++ [closing]) front inner :=
      ⟨first, last, more, htail, hfirst, hlast, hinner⟩
    rcases hgroup.of_append hothers with hgroup | ⟨_, _, hgroup⟩
    · exact .inr ⟨front, rfl, hgroup⟩
    · obtain ⟨_, _, hnil⟩ := hgroup.of_cons (by simp [hclosing])
      exact absurd hnil not_nil

end HasGroup

/-- Between the parentheses of a group stands an expression, or right before them a name. -/
def Holds (before inner : List Token) : Prop :=
  Derives .expression inner ∨ ∃ front name, before = front ++ [name] ∧ name.kind = .ident

theorem Holds.behind {before inner : List Token} (h : Holds before inner) (front : List Token) :
    Holds (front ++ before) inner := by
  refine h.imp_right fun hname => ?_
  obtain ⟨middle, name, rfl, hkind⟩ := hname
  exact ⟨front ++ middle, name, (List.append_assoc ..).symm, hkind⟩

/-- Every group among the tokens holds an expression or what a name is called with. -/
def GroupsHold (tokens : List Token) : Prop :=
  ∀ before inner, HasGroup tokens before inner → Holds before inner

namespace GroupsHold

variable {first others : List Token}

theorem nil : GroupsHold [] := fun _ _ hgroup => absurd hgroup HasGroup.not_nil

theorem cons {token : Token} (h : GroupsHold others) (htoken : token.kind ≠ .leftParen) :
    GroupsHold (token :: others) := by
  intro before inner hgroup
  obtain ⟨front, rfl, hrest⟩ := hgroup.of_cons htoken
  exact (h front inner hrest).behind [token]

theorem append (h : GroupsHold first) (hfirst : Matched (parenthesesOf first))
    (h' : GroupsHold others) : GroupsHold (first ++ others) := by
  intro before inner hgroup
  rcases hgroup.of_append hfirst with hgroup | ⟨front, rfl, hrest⟩
  · exact h before inner hgroup
  · exact (h' front inner hrest).behind first

theorem grouped {opening closing : Token} (h : GroupsHold others)
    (hothers : Derives .expression others) (hclosing : closing.kind = .rightParen) :
    GroupsHold (opening :: others ++ [closing]) := by
  intro before inner hgroup
  rcases hgroup.of_nested hothers.matched hclosing with ⟨_, rfl⟩ | ⟨front, rfl, hinner⟩
  · exact .inl hothers
  · exact (h front inner hinner).behind [opening]

theorem called {name opening closing : Token} (h : GroupsHold others)
    (hothers : Matched (parenthesesOf others)) (hname : name.kind = .ident)
    (hclosing : closing.kind = .rightParen) :
    GroupsHold (name :: (opening :: others ++ [closing])) := by
  intro before inner hgroup
  obtain ⟨rest, rfl, hrest⟩ := hgroup.of_cons (by simp [hname])
  rcases hrest.of_nested hothers hclosing with ⟨rfl, _⟩ | ⟨front, rfl, hinner⟩
  · exact .inr ⟨[], name, rfl, hname⟩
  · exact (h front inner hinner).behind [name, opening]

end GroupsHold

/-- Whatever the grammar derives, a group in it is an expression in parentheses or the arguments of a
call. -/
theorem Derives.groupsHold {symbol : Nonterminal} {tokens : List Token} (h : Derives symbol tokens) :
    GroupsHold tokens := by
  induction h with
  | expressionStatement expression hfinish ih =>
    exact ih.append expression.matched (GroupsHold.nil.cons (by simp [hfinish]))
  | @assignmentStatement tokens _ _ finish htarget hequals expression hfinish ih =>
    have hvalue : GroupsHold (tokens ++ [finish]) :=
      ih.append expression.matched (GroupsHold.nil.cons (by simp [hfinish]))
    exact (hvalue.cons (by simp [hequals])).cons (by simp [htarget])
  | expression term _ ihterm ihoperations => exact ihterm.append term.matched ihoperations
  | noOperation | noArgument => exact .nil
  | operation htoken term _ ihterm ihoperations =>
    refine (ihterm.append term.matched ihoperations).cons ?_
    rcases htoken with hkind | hkind <;> simp [hkind]
  | unsigned _ ih => exact ih
  | signed hsign _ ih => exact ih.cons (by simp [hsign])
  | number htoken | var htoken => exact GroupsHold.nil.cons (by simp [htoken])
  | called _ ih => exact ih
  | grouped _ expression hclosing ih => exact ih.grouped expression hclosing
  | callEmpty hname _ hclosing => exact GroupsHold.nil.called .nil hname hclosing
  | call hname _ expression further hclosing ihexpression ihfurther =>
    have hinner := ihexpression.append expression.matched ihfurther
    refine hinner.called ?_ hname hclosing
    rw [parenthesesOf_append]
    exact expression.matched.append further.matched
  | argument hcomma expression _ ihexpression ihfurther =>
    exact (ihexpression.append expression.matched ihfurther).cons (by simp [hcomma])

/-- A group of a statement with no name before it holds an expression. -/
theorem Derives.expression_of_group {symbol : Nonterminal} {before inner more : List Token}
    {opening closing : Token}
    (h : Derives symbol (before ++ opening :: (inner ++ closing :: more)))
    (hopening : opening.kind = .leftParen) (hclosing : closing.kind = .rightParen)
    (hbefore : ∀ token ∈ before.getLast?, token.kind ≠ .ident)
    (hinner : Matched (parenthesesOf inner)) : Derives .expression inner := by
  have hgroup : HasGroup _ before inner := ⟨opening, closing, more, rfl, hopening, hclosing, hinner⟩
  rcases h.groupsHold before inner hgroup with hexpression | ⟨front, name, rfl, hname⟩
  · exact hexpression
  · exact absurd hname (hbefore name (by simp))

end Abacus.Reading
