import Abacus.Variable
import Abacus.Proofs.Expr.Uses
import Abacus.Proofs.Reading.Lexemes
import Abacus.Proofs.Reading.Grammar

/-!
# The order of the uses

A lexer goes through its text from left to right, so every token starts after those before it
(`pairwise_tokenize`).  The variables of a statement are words of the text, in the same order.  So the
uses of variables in a statement that was read stand in the text in the order in which the tree has
them, and each has a name that a variable can have: `parse?_uses`.
-/

namespace Abacus

/-! ## Tokens -/

theorem byteSize_pos {cs : List Char} (h : cs ≠ []) : 0 < byteSize cs := by
  cases cs with
  | nil => exact absurd rfl h
  | cons c cs => exact Nat.add_pos_left (Char.utf8Size_pos c) _

/-- The first item starts after the first. -/
def Lexed.Before (first second : Lexed) : Prop :=
  ∀ token token', first = .ok token → second = .ok token' → token.span.offset < token'.span.offset

namespace Lexer

/-- A token stands where the lexer is or later, and the lexer goes on behind it unless it was the last
one. -/
theorem next?_offset {lexer after : Lexer} {item : Lexed} (h : lexer.next? = some (item, after)) :
    (∀ token, item = .ok token → lexer.cursor.offset ≤ token.span.offset) ∧
      (after.finished = true ∨
        ∃ token, item = .ok token ∧ token.span.offset < after.cursor.offset) := by
  have hskip : lexer.cursor.offset ≤ lexer.cursor.skipSeparators.offset := Nat.le_add_right _ _
  have hstart : ∀ kind text size token,
      Except.ok (Token.mk kind text (lexer.cursor.skipSeparators.spanOf size)) =
        (.ok token : Lexed) → lexer.cursor.offset ≤ token.span.offset := by
    intro kind text size token htoken
    obtain rfl := Except.ok.inj htoken
    exact hskip
  unfold next? at h
  by_cases hfinished : lexer.finished = true
  · simp [hfinished] at h
  · simp only [hfinished, if_false, Bool.false_eq_true] at h
    split at h
    · obtain ⟨rfl, rfl⟩ := Prod.mk.inj (Option.some.inj h)
      exact ⟨hstart _ _ _, .inl rfl⟩
    · rename_i hrest
      split at h
      · rename_i kind text htext
        obtain ⟨rfl, rfl⟩ := Prod.mk.inj (Option.some.inj h)
        refine ⟨hstart _ _ _, .inr ⟨_, rfl, Nat.lt_add_of_pos_right (byteSize_pos ?_)⟩⟩
        intro hnil
        rcases List.take_eq_nil_iff.mp hnil with hlength | hempty
        · exact lexeme?_ne_nil htext (List.length_eq_zero_iff.mp hlength)
        · simp [hempty] at hrest
      · obtain ⟨rfl, rfl⟩ := Prod.mk.inj (Option.some.inj h)
        exact ⟨fun token htoken => (by cases htoken), .inl rfl⟩

theorem Gives.eq_nil {lexer : Lexer} {items : List Lexed} (h : lexer.Gives items)
    (hfinished : lexer.finished = true) : items = [] := by
  cases h with
  | nil _ => rfl
  | cons hnext _ =>
    rw [next?_of_finished hfinished] at hnext
    cases hnext

theorem Gives.offsets {lexer : Lexer} {items : List Lexed} (h : lexer.Gives items) :
    (∀ token, .ok token ∈ items → lexer.cursor.offset ≤ token.span.offset) ∧
      items.Pairwise Lexed.Before := by
  induction h with
  | nil _ => exact ⟨fun token hmem => (by cases hmem), .nil⟩
  | @cons lexer after item items hnext rest ih =>
    obtain ⟨hstart, hgoes⟩ := next?_offset hnext
    rcases hgoes with hfinished | ⟨token, rfl, hlt⟩
    · obtain rfl := rest.eq_nil hfinished
      exact ⟨fun token hmem => hstart token (List.mem_singleton.mp hmem).symm,
        List.pairwise_singleton _ _⟩
    · obtain ⟨hlater, hpairwise⟩ := ih
      have hle := hstart token rfl
      refine ⟨fun other hmem => ?_, .cons (fun second hmem => ?_) hpairwise⟩
      · rcases List.mem_cons.mp hmem with heq | hmem
        · exact hstart other heq.symm
        · have hother := hlater other hmem
          omega
      · intro first other hfirst hsecond
        obtain rfl := Except.ok.inj hfirst
        have hother := hlater other (hsecond ▸ hmem)
        omega

end Lexer

theorem pairwise_tokenize (source : List Char) : (tokenize source).Pairwise Lexed.Before :=
  (gives_tokenize source).offsets.2

/-! ## Names -/

theorem isBlank_of_isAlpha {c : Char} (h : c.isAlpha = true) : isBlank c = false := by
  simp only [Char.isAlpha, Char.isUpper, Char.isLower, Bool.or_eq_true, Bool.and_eq_true,
    decide_eq_true_eq, ge_iff_le, UInt32.le_iff_toNat_le] at h
  have hval : c.val.toNat = c.toNat := rfl
  simp [isBlank] at h ⊢
  omega

/-- A run of letters can be the name of a variable. -/
theorem IsName.isName {name : String} (h : IsName name) : Variable.isName name = true := by
  obtain ⟨hne, halpha⟩ := h
  unfold Variable.isName
  cases hcs : name.toList with
  | nil => exact absurd hcs hne
  | cons first rest =>
    rw [hcs] at halpha
    have hblank : (first :: rest).any isBlank = false := by
      rw [List.any_eq_false]
      intro c hc
      simp [isBlank_of_isAlpha (halpha c hc)]
    simp only [halpha first List.mem_cons_self, hblank]
    rfl

/-! ## Uses -/

namespace Reading

/-- The first name stands before the second. -/
def Word.Before (first second : Word) : Prop :=
  ∀ name name', first = .name name → second = .name name' → name.span.offset < name'.span.offset

theorem uses_sublist_argumentWords {args : List Expr}
    (h : ∀ arg ∈ args, (arg.uses.map Word.name).Sublist (words arg)) :
    ((usesAll args).map Word.name).Sublist (argumentWords args) := by
  induction args with
  | nil => exact .slnil
  | cons arg args ih =>
    rw [usesAll, argumentWords, List.map_append]
    exact (h arg List.mem_cons_self).append (ih fun other hmem => h other (List.mem_cons_of_mem _ hmem))

/-- The uses are words of the tree, in the same order. -/
theorem uses_sublist_words (expr : Expr) : (expr.uses.map Word.name).Sublist (words expr) := by
  induction expr using Expr.induct with
  | number span value =>
    rw [Expr.uses, words]
    exact List.nil_sublist _
  | var span name => exact .refl _
  | call span name args ih =>
    rw [Expr.uses, words]
    exact (uses_sublist_argumentWords ih).cons _
  | unary span op operand ih =>
    rw [Expr.uses, words]
    exact ih.cons _
  | binary span lhs op rhs ihlhs ihrhs =>
    rw [Expr.uses, words, List.map_append]
    exact ihlhs.append (ihrhs.cons _)

theorem uses_sublist_statementWords (statement : Statement) :
    (statement.uses.map Word.name).Sublist (statementWords statement) := by
  cases statement with
  | expression value => exact uses_sublist_words value
  | assignment span target value => exact (uses_sublist_words value).cons _

theorem word?_eq_name {token : Token} {name : Located String} (h : word? token = some (.name name)) :
    token.kind = .ident ∧ name = ⟨token.span, token.text⟩ := by
  unfold word? at h
  split at h
  · simp at h
  · rename_i hkind
    exact ⟨hkind, (Word.name.inj (Option.some.inj h)).symm⟩
  all_goals simp at h

/-- The uses in a statement stand in its text in the order of the tree, and have names of variables. -/
theorem parse?_uses {g : Grammar} {source : List Char} {statement : Statement}
    (h : Statement.parse? g source = .ok statement) :
    statement.uses.Pairwise (fun first second => first.span.offset < second.span.offset) ∧
      ∀ use ∈ statement.uses, Variable.isName use.val = true := by
  obtain ⟨tokens, htokens, _, _, hwords, _⟩ :=
    (parse?_eq_ok_iff.mp h).derives (ended_tokenize source) (spelled_tokenize source)
  have hsublist := uses_sublist_statementWords statement
  rw [hwords] at hsublist
  constructor
  · have hordered : (wordsOf tokens).Pairwise Word.Before := by
      have hbefore := pairwise_tokenize source
      rw [htokens, List.pairwise_map] at hbefore
      rw [wordsOf, List.pairwise_filterMap]
      refine hbefore.imp fun {first second} hlt => ?_
      intro word hword word' hword' name name' hname hname'
      obtain rfl := hname
      obtain rfl := hname'
      rw [(word?_eq_name hword).2, (word?_eq_name hword').2]
      exact hlt first second rfl rfl
    have huses := hordered.sublist hsublist
    rw [List.pairwise_map] at huses
    exact huses.imp fun hlt => hlt _ _ rfl rfl
  · intro use hmem
    have hword := hsublist.subset (List.mem_map_of_mem hmem)
    obtain ⟨token, htoken, hname⟩ := List.mem_filterMap.mp hword
    obtain ⟨hkind, rfl⟩ := word?_eq_name hname
    have hspelled := spelled_tokenize source token (htokens ▸ List.mem_map_of_mem htoken)
    exact (hspelled.name hkind).isName

end Reading

end Abacus
