import Abacus.Proofs.Evaluation.Composition
import Abacus.Proofs.Reading.Parentheses

/-!
# The operands of a composed formula

The text of a composed formula has those of its operands in it as they are, in parentheses.  So if both
are expressions, it is the operation on them (`parse?_compose`).  Conversely it may be an expression
although an operand is none, but only if parentheses of this operand match ones outside it: an operand
with matching parentheses is an expression by itself wherever the whole is one
(`isExpression_iff_matched`).
-/

namespace Abacus

namespace Reading

open Abacus.Parser

variable {g : Grammar}

theorem Overflows.mono {tokens more : List Token} (h : Overflows g tokens) (hsub : tokens <:+: more) :
    Overflows g more := by
  obtain ⟨last, token, op, hpair, hjoins⟩ := h
  exact ⟨last, token, op, hpair.trans hsub, hjoins⟩

/-- The end of a text is no operation. -/
theorem Overflows.of_concat {tokens : List Token} {finish : Token} (h : Overflows g (tokens ++ [finish]))
    (hfinish : finish.kind = .finish) : Overflows g tokens := by
  obtain ⟨last, token, op, hpair, hends, hop, htop⟩ := h
  rcases List.infix_concat_iff.mp hpair with hsuffix | hinfix
  · obtain ⟨front, heq⟩ := hsuffix
    have hlast : token = finish := by simpa using congrArg List.getLast? heq
    have hkind := binaryOp?_kind hop
    simp [hlast, hfinish] at hkind
  · exact ⟨last, token, op, hinfix, hends, hop, htop⟩

/-- An expression of the grammar in which no priority overflows is read up to the end of a text. -/
theorem Derives.spells {tokens : List Token} (h : Derives .expression tokens)
    (hvalid : ∀ token ∈ tokens, IsValid token) (hroom : ¬ Overflows g tokens) :
    ∃ expr, Spells g (tokens.map Token.lexeme) expr := by
  have hspelled : Spelled ((tokens ++ [someEnd]).map .ok) :=
    spelled_of_isValid (List.forall_mem_append.mpr ⟨hvalid, by simp [isValid_someEnd]⟩)
  obtain ⟨hfront, hlast⟩ := carries_append.mp (carries_itemAt [] (tokens ++ [someEnd]))
  have hbetween : Between (itemAt ((tokens ++ [someEnd]).map .ok)) 0 tokens.length tokens :=
    ⟨hfront, (Nat.zero_add _).symm, fun token hmem => (hvalid token hmem).readable⟩
  have hfinish : Stands (itemAt ((tokens ++ [someEnd]).map .ok)) tokens.length .finish someEnd :=
    ⟨by simpa using hlast, rfl⟩
  rcases h.reads (g := g) (fun i token htoken => hspelled token (htoken ▸ itemAt_mem (by simp) i))
    hbetween (.of_stands hfinish (by decide)) with ⟨expr, hread⟩ | hover
  · exact ⟨expr, _, _, someEnd, .of_carries hfront hbetween.stop, hfinish, hread⟩
  · have hended : Ended ((tokens ++ [someEnd]).map .ok) :=
      ended_concat (fun token hmem => (h.kind_ne (by decide) token hmem).1) rfl
    have hitems := (overflows_iff hended).mpr (hover.overflowing rfl trivial)
    exact absurd (hitems.of_concat rfl) hroom

/-- The tokens of a text that makes a statement, and the end behind them. -/
theorem exists_tokens {source : List Char} {statement : Statement}
    (h : Statement.parse? g source = .ok statement) :
    ∃ tokens finish, Lexes source (tokens.map Token.lexeme) ∧ finish.kind = .finish ∧
      Derives .statement (tokens ++ [finish]) ∧ ¬ Overflows g (tokens ++ [finish]) ∧
      ∀ token ∈ tokens, IsValid token := by
  obtain ⟨tokens, htokens, hreadable, hderives, _⟩ :=
    (parse?_eq_ok_iff.mp h).derives (ended_tokenize source) (spelled_tokenize source)
  have hroom := (hderives.parse?_iff htokens hreadable).1.mp ⟨statement, h⟩
  obtain ⟨front, finish, rfl, hfinish⟩ :
      ∃ front finish, tokens = front ++ [finish] ∧ finish.kind = .finish := by
    cases hderives with
    | expressionStatement _ hfinish => exact ⟨_, _, rfl, hfinish⟩
    | assignmentStatement _ _ _ hfinish => exact ⟨_ :: _ :: _, _, rfl, hfinish⟩
  refine ⟨front, finish, lexes_of_tokenize htokens, hfinish, hderives, hroom, fun token hmem => ?_⟩
  have hwhole : token ∈ front ++ [finish] := List.mem_append_left _ hmem
  refine ⟨spelled_tokenize source token ?_, hreadable token hwhole⟩
  rw [htokens]
  exact List.mem_map_of_mem hwhole

theorem matched_of_parse? {source : List Char} {statement : Statement}
    (h : Statement.parse? g source = .ok statement) : Matched (parentheses source) := by
  obtain ⟨tokens, finish, hlexes, hfinish, hderives, _⟩ := exists_tokens h
  have hmatched := hderives.matched
  rw [parentheses_of_lexes hlexes, lexemeParentheses_map]
  simpa [hfinish, parenthesisOf?] using hmatched

/-- A text between the parentheses of a group is an expression, if its own parentheses match. -/
theorem parse?_of_group {source : List Char} {before inner more : List Token}
    {opening closing : Token} (hlexes : Lexes source (inner.map Token.lexeme))
    (hmatched : Matched (parentheses source))
    (h : Derives .statement (before ++ opening :: (inner ++ closing :: more)))
    (hroom : ¬ Overflows g (before ++ opening :: (inner ++ closing :: more)))
    (hvalid : ∀ token ∈ inner, IsValid token)
    (hopening : opening.kind = .leftParen) (hclosing : closing.kind = .rightParen)
    (hbefore : ∀ token ∈ before.getLast?, token.kind ≠ .ident) :
    ∃ value, Statement.parse? g source = .ok (.expression value) := by
  rw [parentheses_of_lexes hlexes, lexemeParentheses_map] at hmatched
  have hinner : inner <:+: before ++ opening :: (inner ++ closing :: more) :=
    ⟨before ++ [opening], closing :: more, by simp⟩
  obtain ⟨expr, hspells⟩ := (h.expression_of_group hopening hclosing hbefore hmatched).spells hvalid
    fun hover => hroom (hover.mono hinner)
  obtain ⟨value, hparse, _⟩ := hspells.parse? hlexes
  exact ⟨value, hparse⟩

theorem map_eq_groupLexemes {tokens : List Token} {lexemes : List Lexeme}
    (h : tokens.map Token.lexeme = groupLexemes lexemes) :
    ∃ opening inner closing, tokens = opening :: (inner ++ [closing]) ∧
      opening.kind = .leftParen ∧ closing.kind = .rightParen ∧
      lexemes = inner.map Token.lexeme := by
  rw [groupLexemes, List.cons_append] at h
  obtain ⟨opening, rest, rfl, hopening, hrest⟩ := List.map_eq_cons_iff.mp h
  obtain ⟨inner, last, rfl, hinner, hlast⟩ := List.map_eq_append_iff.mp hrest
  obtain ⟨closing, rfl, hclosing⟩ := List.map_eq_singleton_iff.mp hlast
  exact ⟨opening, inner, closing, rfl, congrArg Prod.fst hopening, congrArg Prod.fst hclosing,
    hinner.symm⟩

/-- An operand of a text that is composed to a statement is an expression by itself, if its parentheses
match. -/
theorem operands_of_parse?_composed (op : BinaryOp) (first second : String) {statement : Statement}
    (h : Statement.parse? g ("(" ++ first ++ ") " ++ op.symbol ++ " (" ++ second ++ ")").toList =
      .ok statement) :
    (Matched (parentheses first.toList) →
      ∃ value, Statement.parse? g first.toList = .ok (.expression value)) ∧
    (Matched (parentheses second.toList) →
      ∃ value, Statement.parse? g second.toList = .ok (.expression value)) := by
  obtain ⟨tokens, finish, hlexes, hfinish, hderives, hroom, hvalid⟩ := exists_tokens h
  obtain ⟨left, right, hlexemes, hleft, hright⟩ := of_lexes_composed op hlexes
  obtain ⟨front, rest, rfl, hfront, hrest⟩ := List.map_eq_append_iff.mp hlexemes
  obtain ⟨token, others, rfl, htoken, hothers⟩ := List.map_eq_cons_iff.mp hrest
  obtain ⟨opening, inner, closing, rfl, hopening, hclosing, rfl⟩ := map_eq_groupLexemes hfront
  obtain ⟨opening', inner', closing', rfl, hopening', hclosing', rfl⟩ := map_eq_groupLexemes hothers
  constructor
  · intro hmatched
    have htokens : opening :: (inner ++ [closing]) ++ token :: opening' :: (inner' ++ [closing']) ++
        [finish] = [] ++ opening :: (inner ++ closing ::
          (token :: opening' :: (inner' ++ [closing']) ++ [finish])) := by simp
    rw [htokens] at hderives hroom
    apply parse?_of_group hleft hmatched hderives hroom _ hopening hclosing (by simp)
    exact fun other hmem => hvalid other (by simp [hmem])
  · intro hmatched
    have htokens : opening :: (inner ++ [closing]) ++ token :: opening' :: (inner' ++ [closing']) ++
        [finish] = (opening :: (inner ++ [closing]) ++ [token]) ++
          opening' :: (inner' ++ closing' :: [finish]) := by simp
    rw [htokens] at hderives hroom
    apply parse?_of_group hright hmatched hderives hroom _ hopening' hclosing'
    · -- the group stands behind the operator
      rw [List.getLast?_concat]
      intro last hlast
      obtain rfl := Option.some.inj hlast
      have hkind : token.kind = opKind op := congrArg Prod.fst htoken
      rw [hkind]
      cases op <;> decide
    · exact fun other hmem => hvalid other (by simp [hmem])

end Reading

namespace Formula

open Reading

/-- The text of a composed formula is read as the operation on what the texts of its operands are read
as, up to places, whatever the priorities are; but if the operation groups to the left and has the greatest
priority, that of its second operand overflows. -/
theorem parse?_compose {g : Grammar} (op : BinaryOp) {first second : Formula} {lhs rhs : Expr}
    (hfirst : Statement.parse? g first.source.toList = .ok (.expression lhs))
    (hsecond : Statement.parse? g second.source.toList = .ok (.expression rhs)) :
    (¬ AtTop g op → ∃ span place lhs' rhs',
      Statement.parse? g (first.compose op second).source.toList =
        .ok (.expression (.binary span lhs' ⟨place, op⟩ rhs')) ∧
      lhs.Alike (· = ·) lhs' ∧ rhs.Alike (· = ·) rhs') ∧
    (AtTop g op → Statement.parse? g (first.compose op second).source.toList = .error .overflow) :=
  parse?_composed op hfirst hsecond

/-- Neither a line break, a tab nor the parentheses around a variable make a difference. -/
theorem parse?_compose_of_variable :
    ∃ span place lhs rhs,
      Statement.parse? .default
          ((ofSource "\n(a)").power (ofSource "f(1,\t-2)\r\n+ b ")).source.toList =
        .ok (.expression (.binary span lhs ⟨place, .pow⟩ rhs)) ∧
      (Expr.var ⟨2, 1, 2⟩ "a").Alike (· = ·) lhs ∧
      (Expr.binary ⟨0, 13, 1⟩ (.call ⟨0, 8, 1⟩ ⟨⟨0, 1, 1⟩, "f"⟩ [.number ⟨2, 1, 1⟩ ⟨1, 0⟩,
          .unary ⟨5, 2, 1⟩ ⟨⟨5, 1, 1⟩, .minus⟩ (.number ⟨6, 1, 1⟩ ⟨2, 0⟩)]) ⟨⟨10, 1, 2⟩, .add⟩
        (.var ⟨12, 1, 2⟩ "b")).Alike (· = ·) rhs := by
  have hfirst : Statement.parse? .default (ofSource "\n(a)").source.toList =
      .ok (.expression (.var ⟨2, 1, 2⟩ "a")) := by
    cbv
  have hsecond : Statement.parse? .default (ofSource "f(1,\t-2)\r\n+ b ").source.toList =
      .ok (.expression (.binary ⟨0, 13, 1⟩ (.call ⟨0, 8, 1⟩ ⟨⟨0, 1, 1⟩, "f"⟩
        [.number ⟨2, 1, 1⟩ ⟨1, 0⟩,
          .unary ⟨5, 2, 1⟩ ⟨⟨5, 1, 1⟩, .minus⟩ (.number ⟨6, 1, 1⟩ ⟨2, 0⟩)]) ⟨⟨10, 1, 2⟩, .add⟩
        (.var ⟨12, 1, 2⟩ "b"))) := by
    cbv
  exact (parse?_compose .pow hfirst hsecond).1 fun htop => htop.1 rfl

/-- With the greatest priority for the times sign, the product of two numbers is not read. -/
theorem multiply_overflows_at_top :
    Statement.parse? (only .mul topPriority).grammar "1".toList =
        .ok (.expression (.number ⟨0, 1, 1⟩ ⟨1, 0⟩)) ∧
      Statement.parse? (only .mul topPriority).grammar "2".toList =
        .ok (.expression (.number ⟨0, 1, 1⟩ ⟨2, 0⟩)) ∧
      Statement.parse? (only .mul topPriority).grammar
          ((ofSource "1").multiply (ofSource "2")).source.toList = .error .overflow :=
  ⟨by cbv, by cbv, by cbv⟩

/-- The text of the formula is an expression, and no assignment. -/
def IsExpression (formula : Formula) : Prop :=
  ∃ value, formula.statement = .ok (.expression value)

theorem isExpression_iff {formula : Formula} :
    formula.IsExpression ↔
      ∃ value, Statement.parse? formula.scope.registry.grammar formula.source.toList =
        .ok (.expression value) := by
  simp only [IsExpression, statement_eq_ok_iff]

theorem IsExpression.matched {formula : Formula} (h : formula.IsExpression) :
    Matched (parentheses formula.source.toList) := by
  obtain ⟨value, hparse⟩ := isExpression_iff.mp h
  exact matched_of_parse? hparse

/-- Where a formula that is composed in one registry makes a statement, an operand is an expression by
itself exactly if its parentheses match. -/
theorem isExpression_iff_matched (op : BinaryOp) {first second : Formula} {statement : Statement}
    (hregistry : first.scope.registry = second.scope.registry)
    (h : (first.compose op second).statement = .ok statement) :
    (first.IsExpression ↔ Matched (parentheses first.source.toList)) ∧
      (second.IsExpression ↔ Matched (parentheses second.source.toList)) := by
  have hparse := statement_eq_ok_iff.mp h
  obtain ⟨hfirst, hsecond⟩ := operands_of_parse?_composed op first.source second.source hparse
  constructor
  · constructor
    · exact IsExpression.matched
    · intro hmatched
      exact isExpression_iff.mpr (hfirst hmatched)
  · constructor
    · exact IsExpression.matched
    · intro hmatched
      rw [isExpression_iff, ← hregistry]
      exact hsecond hmatched

/-- The parentheses of the second operand match, and those of the first one do not. -/
theorem isExpression_iff_matched_of_product :
    (∃ statement, ((ofSource "1) * (2").multiply (ofSource "f(3)")).statement = .ok statement) ∧
      ¬ (ofSource "1) * (2").IsExpression ∧ (ofSource "f(3)").IsExpression := by
  have hproduct : ((ofSource "1) * (2").multiply (ofSource "f(3)")).statement =
      .ok (.expression (.binary ⟨0, 18, 1⟩ (.binary ⟨0, 9, 1⟩ (.number ⟨0, 3, 1⟩ ⟨1, 0⟩)
        ⟨⟨4, 1, 1⟩, .mul⟩ (.number ⟨6, 3, 1⟩ ⟨2, 0⟩)) ⟨⟨10, 1, 1⟩, .mul⟩
        (.call ⟨12, 6, 1⟩ ⟨⟨13, 1, 1⟩, "f"⟩ [.number ⟨15, 1, 1⟩ ⟨3, 0⟩]))) := by
    cbv
  have hregistry : (ofSource "1) * (2").scope.registry = (ofSource "f(3)").scope.registry := rfl
  obtain ⟨hfirst, hsecond⟩ := isExpression_iff_matched .mul hregistry hproduct
  have hopen : parentheses "1) * (2".toList = [] ++ .D :: [.U] := by decide
  have hmatched : parentheses "f(3)".toList = .U :: [] ++ [.D] := by decide
  refine ⟨⟨_, hproduct⟩, ?_, hsecond.mpr ?_⟩
  · rw [hfirst]
    change ¬ Matched (parentheses "1) * (2".toList)
    rw [hopen]
    exact Matched.nil.not_closing
  · change Matched (parentheses "f(3)".toList)
    rw [hmatched]
    exact Matched.nil.nest

/-- The first operand closes a parenthesis that is not its own and opens another one, so the product
makes a statement although this operand makes none. -/
theorem multiply_hides_error :
    (ofSource "1) * (2").scope.registry = (ofSource "3").scope.registry ∧
      (∃ statement, ((ofSource "1) * (2").multiply (ofSource "3")).statement = .ok statement) ∧
      ¬ (ofSource "1) * (2").IsExpression := by
  have herror : Statement.parse? (ofSource "1) * (2").scope.registry.grammar "1) * (2".toList =
      .error (.refused ⟨⟨1, 1, 1⟩, .mismatched .expression .finish .rightParen⟩) := by
    cbv
  refine ⟨rfl, ⟨.expression (.binary ⟨0, 15, 1⟩
    (.binary ⟨0, 9, 1⟩ (.number ⟨0, 3, 1⟩ ⟨1, 0⟩) ⟨⟨4, 1, 1⟩, .mul⟩ (.number ⟨6, 3, 1⟩ ⟨2, 0⟩))
    ⟨⟨10, 1, 1⟩, .mul⟩ (.number ⟨12, 3, 1⟩ ⟨3, 0⟩)), by cbv⟩, ?_⟩
  intro hexpression
  obtain ⟨value, hvalue⟩ := isExpression_iff.mp hexpression
  cases hvalue.symm.trans herror

end Formula

end Abacus
