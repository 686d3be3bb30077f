import Abacus.Expr.Parser
import Mathlib

/-!
# The items of a source text

A lexer gives finitely many items: tokens, and last the end of the input or the one character that
starts no token.  A parser asks for the item with some number, and past the last one it meets the
last one again.  `itemAt` is that endless view of a list of items.

The key facts are `gives_tokenize`, that `tokenize` lists everything the lexer gives, and
`Ended.lt_length`, that a token other than the end has an item behind it.
-/

namespace Abacus

/-! ## Lexemes -/

/-- A numeral has at least one character. -/
theorem numeral?_ne_nil {cs text : List Char} (h : numeral? cs = some text) : text ≠ [] := by
  obtain ⟨mantissa, hmantissa, rfl⟩ := Option.map_eq_some_iff.mp h
  have hne : mantissa ≠ [] := by
    simp only [mantissa?] at hmantissa
    split at hmantissa
    · split at hmantissa
      · obtain rfl := Option.some.inj hmantissa
        simp
      · obtain ⟨hwhole, heq⟩ := Option.ite_none_right_eq_some.mp hmantissa
        obtain rfl := Option.some.inj heq
        simpa using hwhole
    · obtain ⟨hwhole, heq⟩ := Option.ite_none_right_eq_some.mp hmantissa
      obtain rfl := Option.some.inj heq
      simpa using hwhole
  simp [hne]

/-- What a token can be: a numeral, a run of letters, or one of the single characters. -/
theorem lexeme?_cases {cs text : List Char} {kind : TokenKind}
    (h : lexeme? cs = some (kind, text)) :
    (kind = .number ∧ numeral? cs = some text) ∨
      (kind = .ident ∧ text = cs.takeWhile Char.isAlpha ∧ text ≠ []) ∨
      ∃ c, text = [c] ∧ symbolKind? c = some kind := by
  unfold lexeme? at h
  split at h
  · rename_i numeral hnumeral
    obtain ⟨rfl, rfl⟩ := Prod.mk.inj (Option.some.inj h)
    exact Or.inl ⟨rfl, hnumeral⟩
  · split at h
    · obtain ⟨c, _, h⟩ := Option.bind_eq_some_iff.mp h
      obtain ⟨found, hfound, h⟩ := Option.bind_eq_some_iff.mp h
      obtain ⟨rfl, rfl⟩ := Prod.mk.inj (Option.some.inj h)
      exact Or.inr (Or.inr ⟨c, rfl, hfound⟩)
    · rename_i letters hne
      obtain ⟨rfl, rfl⟩ := Prod.mk.inj (Option.some.inj h)
      exact Or.inr (Or.inl ⟨rfl, rfl, hne⟩)

theorem lexeme?_ne_nil {cs text : List Char} {kind : TokenKind}
    (h : lexeme? cs = some (kind, text)) : text ≠ [] := by
  rcases lexeme?_cases h with ⟨_, hnumeral⟩ | ⟨_, _, hne⟩ | ⟨c, rfl, _⟩
  · exact numeral?_ne_nil hnumeral
  · exact hne
  · simp

/-- No characters make the end of the input. -/
theorem lexeme?_kind_ne_finish {cs text : List Char} {kind : TokenKind}
    (h : lexeme? cs = some (kind, text)) : kind ≠ .finish := by
  rcases lexeme?_cases h with ⟨rfl, _⟩ | ⟨rfl, _⟩ | ⟨c, _, hc⟩
  · decide
  · decide
  · intro heq
    subst heq
    unfold symbolKind? at hc
    split at hc <;> simp at hc

/-! ## What a lexer gives -/

/-- The lexer gives exactly these items and then nothing. -/
inductive Lexer.Gives : Lexer → List Lexed → Prop
  | nil {lexer : Lexer} (h : lexer.next? = none) : Gives lexer []
  | cons {lexer after : Lexer} {item : Lexed} {items : List Lexed}
      (h : lexer.next? = some (item, after)) (rest : Gives after items) :
      Gives lexer (item :: items)

/-- The items of a whole text: tokens, and last the end of the input or an error. -/
inductive Ended : List Lexed → Prop
  | finish {token : Token} (h : token.kind = .finish) : Ended [.ok token]
  | error (span : Span) : Ended [.error span]
  | token {token : Token} {items : List Lexed} (h : token.kind ≠ .finish) (rest : Ended items) :
      Ended (.ok token :: items)

/-- The token is spelled in the way of its kind. -/
def Token.Spelled (token : Token) : Prop :=
  token.kind = .finish ∨
    ∃ cs text, lexeme? cs = some (token.kind, text) ∧ token.text = String.ofList text

namespace Token.Spelled

variable {token : Token}

theorem cases_symbol (h : token.Spelled) (hfinish : token.kind ≠ .finish)
    (hnumber : token.kind ≠ .number) (hident : token.kind ≠ .ident) :
    ∃ c, token.text = String.ofList [c] ∧ symbolKind? c = some token.kind := by
  obtain ⟨cs, text, hlexeme, htext⟩ := h.resolve_left hfinish
  rcases lexeme?_cases hlexeme with ⟨hkind, _⟩ | ⟨hkind, _⟩ | ⟨c, rfl, hc⟩
  · exact absurd hkind hnumber
  · exact absurd hkind hident
  · exact ⟨c, htext, hc⟩

theorem of_sign (h : token.Spelled) (hkind : token.kind = .sign) :
    token.text = "+" ∨ token.text = "-" := by
  obtain ⟨c, htext, hc⟩ := h.cases_symbol (by simp [hkind]) (by simp [hkind]) (by simp [hkind])
  rw [hkind] at hc
  unfold symbolKind? at hc
  split at hc <;> simp at hc
  · exact Or.inl htext
  · exact Or.inr htext

theorem of_operator (h : token.Spelled) (hkind : token.kind = .operator) :
    token.text ∈ ["*", "/", "%", "^"] := by
  obtain ⟨c, htext, hc⟩ := h.cases_symbol (by simp [hkind]) (by simp [hkind]) (by simp [hkind])
  rw [hkind] at hc
  unfold symbolKind? at hc
  split at hc <;> simp at hc <;> rw [htext] <;> decide

/-- The tokens that may stand between two terms write one of the operations. -/
theorem binaryOp (h : token.Spelled) (hkind : token.kind = .sign ∨ token.kind = .operator) :
    ∃ op, Parser.binaryOp? token = some op ∧ token.text = op.symbol := by
  have hop : ∃ op ∈ BinaryOp.all, token.text = op.symbol := by
    rcases hkind with hkind | hkind
    · rcases h.of_sign hkind with htext | htext <;> rw [htext] <;> decide
    · have htext := h.of_operator hkind
      simp only [List.mem_cons, List.not_mem_nil, or_false] at htext
      rcases htext with htext | htext | htext | htext <;> rw [htext] <;> decide
  obtain ⟨op, _, htext⟩ := hop
  refine ⟨op, ?_, htext⟩
  rcases hkind with hkind | hkind <;> simp [Parser.binaryOp?, hkind, htext]

/-- A sign writes the operation on one operand. -/
theorem unaryOp (h : token.Spelled) (hkind : token.kind = .sign) :
    ∃ op, Parser.unaryOp? token = some op ∧ token.text = op.symbol := by
  rcases h.of_sign hkind with htext | htext
  · exact ⟨.plus, by simp [Parser.unaryOp?, hkind, htext], htext⟩
  · exact ⟨.minus, by simp [Parser.unaryOp?, hkind, htext], htext⟩

end Token.Spelled

/-- All tokens among the items are spelled in the way of their kinds. -/
def Spelled (items : List Lexed) : Prop := ∀ token, .ok token ∈ items → token.Spelled

namespace Lexer

theorem next?_of_finished {lexer : Lexer} (h : lexer.finished = true) : lexer.next? = none := by
  simp [next?, h]

/-- The steps of a lexer that has not finished. -/
theorem next?_cases {lexer : Lexer} (h : lexer.finished = false) :
    (∃ token after, lexer.next? = some (.ok token, after) ∧ token.kind = .finish ∧
      after.finished = true) ∨
    (∃ span after, lexer.next? = some (.error span, after) ∧ after.finished = true) ∨
    ∃ token after, lexer.next? = some (.ok token, after) ∧ token.kind ≠ .finish ∧
      token.Spelled ∧ after.finished = false ∧
      after.cursor.rest.length < lexer.cursor.rest.length := by
  unfold next?
  simp only [h, Bool.false_eq_true, if_false]
  split
  · exact Or.inl ⟨_, _, rfl, rfl, rfl⟩
  · rename_i hrest
    split
    · rename_i kind text htext
      refine Or.inr (Or.inr ⟨_, _, rfl, lexeme?_kind_ne_finish htext,
        Or.inr ⟨_, _, htext, rfl⟩, rfl, ?_⟩)
      have hpos : 0 < text.length := List.length_pos_iff.mpr (lexeme?_ne_nil htext)
      have hskip : lexer.cursor.skipSeparators.rest.length ≤ lexer.cursor.rest.length := by
        simp [Cursor.skipSeparators, Cursor.advance]
      have hne : 0 < lexer.cursor.skipSeparators.rest.length := by
        simpa [List.length_pos_iff, List.isEmpty_iff] using hrest
      simp only [Cursor.advance, List.length_drop]
      omega
    · exact Or.inr (Or.inl ⟨_, _, rfl, rfl⟩)

theorem take_of_finished {lexer : Lexer} (h : lexer.finished = true) (count : Nat) :
    lexer.take count = [] := by
  cases count with
  | zero => rfl
  | succ count => simp [take, next?_of_finished h]

/-- With more steps than characters left, `take` lists everything that the lexer gives. -/
theorem take_complete (count : Nat) {lexer : Lexer} (h : lexer.finished = false)
    (hcount : lexer.cursor.rest.length < count) :
    lexer.Gives (lexer.take count) ∧ Ended (lexer.take count) ∧ Spelled (lexer.take count) := by
  induction count generalizing lexer with
  | zero => exact absurd hcount (Nat.not_lt_zero _)
  | succ count ih =>
    rcases next?_cases h with ⟨token, after, hnext, hkind, hafter⟩ |
      ⟨span, after, hnext, hafter⟩ | ⟨token, after, hnext, hkind, hspelled, hafter, hless⟩
    · have htake : lexer.take (count + 1) = [.ok token] := by
        simp [take, hnext, take_of_finished hafter]
      rw [htake]
      refine ⟨.cons hnext (.nil (next?_of_finished hafter)), .finish hkind, ?_⟩
      simp [Spelled, Token.Spelled, hkind]
    · have htake : lexer.take (count + 1) = [.error span] := by
        simp [take, hnext, take_of_finished hafter]
      rw [htake]
      exact ⟨.cons hnext (.nil (next?_of_finished hafter)), .error span, by simp [Spelled]⟩
    · have htake : lexer.take (count + 1) = .ok token :: after.take count := by
        simp [take, hnext]
      obtain ⟨hgives, hended, hrest⟩ := ih hafter (by omega)
      rw [htake]
      refine ⟨.cons hnext hgives, .token hkind hended, ?_⟩
      intro other hother
      rcases List.mem_cons.mp hother with heq | hmem
      · obtain rfl : other = token := by simpa using heq
        exact hspelled
      · exact hrest other hmem

end Lexer

/-- The tokens of a source text are all that its lexer gives. -/
theorem gives_tokenize (source : List Char) :
    (Lexer.ofSource source).Gives (tokenize source) :=
  (Lexer.take_complete _ rfl (Nat.lt_succ_self _)).1

theorem ended_tokenize (source : List Char) : Ended (tokenize source) :=
  (Lexer.take_complete _ rfl (Nat.lt_succ_self _)).2.1

theorem spelled_tokenize (source : List Char) : Spelled (tokenize source) :=
  (Lexer.take_complete _ rfl (Nat.lt_succ_self _)).2.2

theorem tokenize_length_le (source : List Char) :
    (tokenize source).length ≤ source.length + 1 := by
  have hle : ∀ (count : Nat) (lexer : Lexer), (lexer.take count).length ≤ count := by
    intro count
    induction count with
    | zero => intro lexer; exact Nat.le_refl 0
    | succ count ih =>
      intro lexer
      unfold Lexer.take
      split
      · exact Nat.zero_le _
      · exact Nat.succ_le_succ (ih _)
  exact hle _ _

/-! ## The endless view -/

/-- The item with a number; past the end it is the last one again. -/
def itemAt (items : List Lexed) (index : Nat) : Lexed :=
  (items[index]? <|> items.getLast?).getD (.error ⟨0, 0, 1⟩)

theorem itemAt_eq_getElem {items : List Lexed} {index : Nat} {item : Lexed}
    (h : items[index]? = some item) : itemAt items index = item := by
  simp [itemAt, h]

theorem itemAt_of_length_le {items : List Lexed} {index : Nat} (h : items.length ≤ index) :
    itemAt items index = items.getLast?.getD (.error ⟨0, 0, 1⟩) := by
  simp [itemAt, List.getElem?_eq_none h]

theorem itemAt_mem {items : List Lexed} (hne : items ≠ []) (index : Nat) :
    itemAt items index ∈ items := by
  rcases Nat.lt_or_ge index items.length with h | h
  · rw [itemAt_eq_getElem (List.getElem?_eq_getElem h)]
    exact List.getElem_mem h
  · rw [itemAt_of_length_le h, List.getLast?_eq_some_getLast hne]
    exact List.getLast_mem hne

namespace Ended

theorem ne_nil {items : List Lexed} (h : Ended items) : items ≠ [] := by
  cases h <;> simp

/-- Only the last item can be an error. -/
theorem itemAt_of_error {items : List Lexed} (h : Ended items) {index : Nat} {span : Span}
    (herror : items[index]? = some (.error span)) {later : Nat} (hle : index ≤ later) :
    itemAt items later = .error span := by
  induction h generalizing index later with
  | finish hkind => cases index <;> simp at herror
  | error last =>
    cases index with
    | zero => cases later <;> simp_all [itemAt]
    | succ index => simp at herror
  | @token token items hkind rest ih =>
    cases index with
    | zero => simp at herror
    | succ index =>
      obtain ⟨later, rfl⟩ : ∃ k, later = k + 1 := ⟨later - 1, by omega⟩
      have herror' : items[index]? = some (.error span) := by simpa using herror
      have htail := ih herror' (Nat.le_of_succ_le_succ hle)
      have hlast := List.getLast?_cons_of_ne_nil (x := Except.ok token) rest.ne_nil
      simpa [itemAt, hlast] using htail

/-- A token other than the end has an item behind it. -/
theorem lt_length {items : List Lexed} (h : Ended items) {index : Nat} {token : Token}
    (hitem : itemAt items index = .ok token) (hkind : token.kind ≠ .finish) :
    index + 1 < items.length := by
  induction h generalizing index with
  | finish hfinish => cases index <;> simp_all [itemAt]
  | error last => cases index <;> simp [itemAt] at hitem
  | @token first items hfirst rest ih =>
    have hpos : 0 < items.length := List.length_pos_iff.mpr rest.ne_nil
    cases index with
    | zero => simpa using hpos
    | succ index =>
      have hlast := List.getLast?_cons_of_ne_nil (x := Except.ok first) rest.ne_nil
      have hitem' : itemAt items index = .ok token := by simpa [itemAt, hlast] using hitem
      have hlt := ih hitem'
      simpa using hlt

/-- Behind the end there is nothing. -/
theorem length_le_of_finish {items : List Lexed} (h : Ended items) {index : Nat} {token : Token}
    (hitem : itemAt items index = .ok token) (hkind : token.kind = .finish) :
    items.length ≤ index + 1 := by
  induction h generalizing index with
  | finish _ | error _ => simp
  | @token first items hfirst rest ih =>
    cases index with
    | zero =>
      obtain rfl : first = token := by simpa [itemAt] using hitem
      exact absurd hkind hfirst
    | succ index =>
      have hlast := List.getLast?_cons_of_ne_nil (x := Except.ok first) rest.ne_nil
      have hitem' : itemAt items index = .ok token := by simpa [itemAt, hlast] using hitem
      exact Nat.succ_le_succ (ih hitem')

/-- All items before the last one are tokens. -/
theorem token_of_lt {items : List Lexed} (h : Ended items) {index : Nat}
    (hindex : index + 1 < items.length) : ∃ token, itemAt items index = .ok token := by
  induction h generalizing index with
  | finish _ | error _ => exact absurd hindex (by simp)
  | @token first items _ rest ih =>
    cases index with
    | zero => exact ⟨first, rfl⟩
    | succ index =>
      obtain ⟨token, htoken⟩ := ih (Nat.lt_of_succ_lt_succ hindex)
      have hlast := List.getLast?_cons_of_ne_nil (x := Except.ok first) rest.ne_nil
      exact ⟨token, by simpa [itemAt, hlast] using htoken⟩

end Ended

end Abacus
