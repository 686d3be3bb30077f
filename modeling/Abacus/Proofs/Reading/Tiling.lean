import Abacus.Proofs.Reading.LongestLexeme
import Abacus.Proofs.Reading.Order

/-!
# The pieces of a text

`Tiles before rest items` reads a text from left to right: separators are passed, and the longest lexeme
is taken, until the text ends or no lexeme starts.  Each item has the place that follows from the text
before it.  A lexer does exactly this (`tiles_iff_gives`), so there is one way to tile a text, and what the
pieces are, how they lie and where an error stands follow by induction on it: `isTiling_tokenize`.
-/

namespace Abacus

/-- The place of a text behind another one. -/
def Span.behind (before text : List Char) : Span :=
  ⟨byteSize before, byteSize text, 1 + newlines before⟩

/-- The token at the end of a source. -/
def Token.finishOf (source : List Char) : Token := ⟨.finish, "", .behind source []⟩

/-- The place of an item. -/
def Lexed.span : Lexed → Span
  | .ok token => token.span
  | .error span => span

/-- No lexeme starts the text. -/
def NoLexeme (cs : List Char) : Prop := ∀ kind text, IsLexeme kind text → ¬text <+: cs

/-- The items of what is left of a text behind its first part. -/
inductive Tiles : List Char → List Char → List Lexed → Prop
  | finish {before gap : List Char} (hgap : ∀ c ∈ gap, isSeparator c = true) :
      Tiles before gap [.ok (.finishOf (before ++ gap))]
  | error {before gap more : List Char} {c : Char} (hgap : ∀ c ∈ gap, isSeparator c = true)
      (hc : isSeparator c = false) (hno : NoLexeme (c :: more)) :
      Tiles before (gap ++ c :: more) [.error (.behind (before ++ gap) [c])]
  | token {before gap text more : List Char} {kind : TokenKind} {items : List Lexed}
      (hgap : ∀ c ∈ gap, isSeparator c = true) (hlongest : IsLongest (text ++ more) kind text)
      (rest : Tiles (before ++ gap ++ text) more items) :
      Tiles before (gap ++ (text ++ more))
        (.ok ⟨kind, String.ofList text, .behind (before ++ gap) text⟩ :: items)

/-- The token stands between these parts of its source, and is as long as its kind allows. -/
structure Token.Between (before more : List Char) (token : Token) : Prop where
  ne_nil : token.text.toList ≠ []
  span : token.span = .behind before token.text.toList
  fragment : token.span.fragment (before ++ (token.text.toList ++ more)) = token.text.toList
  number : token.kind = .number → IsNumeral token.text.toList ∧
    ∀ numeral, IsNumeral numeral → numeral <+: token.text.toList ++ more →
      numeral.length ≤ token.text.toList.length
  ident : token.kind = .ident → (∀ c ∈ token.text.toList, c.isAlpha = true) ∧
    (∀ c ∈ before.getLast?, c.isAlpha = false) ∧ ∀ c ∈ more.head?, c.isAlpha = false

/-- The items are the pieces of the source, in its order. -/
structure IsTiling (source : List Char) (items : List Lexed) : Prop where
  tiles : Tiles [] source items
  /-- Tokens, and behind them the end of the source or one error. -/
  ended : ∃ (tokens : List Token) (last : Lexed), items = tokens.map .ok ++ [last] ∧
    (∀ token ∈ tokens, token.kind ≠ .finish) ∧
    (last = .ok (.finishOf source) ∨ ∃ span, last = .error span)
  ordered : items.Pairwise fun first second => first.span.stop ≤ second.span.offset
  between : ∀ token, .ok token ∈ items → token.kind ≠ .finish →
    ∃ before more, source = before ++ (token.text.toList ++ more) ∧ token.Between before more
  /-- An error covers the one character where no lexeme starts. -/
  refused : ∀ span, .error span ∈ items →
    ∃ before c more, source = before ++ c :: more ∧ span = .behind before [c] ∧
      span.fragment source = [c] ∧ isSeparator c = false ∧ NoLexeme (c :: more)

/-! ## Places -/

theorem dropBytes_byteSize (before cs : List Char) :
    dropBytes (byteSize before) (before ++ cs) = cs := by
  induction before with
  | nil => cases cs <;> rfl
  | cons c before ih =>
    have hpos := byteSize_pos (List.cons_ne_nil c before)
    rw [List.cons_append, dropBytes, if_neg (Nat.ne_of_gt hpos), byteSize, Nat.add_sub_cancel_left, ih]

theorem takeBytes_byteSize (text cs : List Char) :
    takeBytes (byteSize text) (text ++ cs) = text := by
  induction text with
  | nil =>
    cases cs with
    | nil => rfl
    | cons c cs => exact if_neg (Nat.not_le_of_gt (Char.utf8Size_pos c))
  | cons c text ih =>
    rw [List.cons_append, takeBytes, byteSize, if_pos (Nat.le_add_right ..), Nat.add_sub_cancel_left, ih]

/-- The place of a text leads back to it. -/
theorem fragment_behind (before text more : List Char) :
    (Span.behind before text).fragment (before ++ (text ++ more)) = text := by
  rw [Span.fragment, Span.behind, dropBytes_byteSize, takeBytes_byteSize]

/-! ## A lexer tiles -/

/-- The cursor behind the first part of a text. -/
def Cursor.behind (before rest : List Char) : Cursor := ⟨rest, byteSize before, 1 + newlines before⟩

namespace Cursor

variable (before : List Char)

theorem rest_behind (rest : List Char) : (behind before rest).rest = rest := rfl

theorem advance_behind (passed rest : List Char) :
    (behind before (passed ++ rest)).advance passed.length = behind (before ++ passed) rest := by
  simp [advance, behind, Nat.add_assoc]

theorem skipSeparators_behind {gap rest : List Char} (hgap : ∀ c ∈ gap, isSeparator c = true)
    (hrest : ∀ c ∈ rest.head?, isSeparator c = false) :
    (behind before (gap ++ rest)).skipSeparators = behind (before ++ gap) rest := by
  have htake : (gap ++ rest).takeWhile isSeparator = gap := (takeWhile_run hgap hrest).1
  rw [skipSeparators, behind, htake]
  exact advance_behind before gap rest

theorem spanOf_behind (text rest : List Char) :
    (behind before (text ++ rest)).spanOf text.length = .behind before text := by
  simp [spanOf, behind, Span.behind]

end Cursor

namespace Lexer

variable (before : List Char) {gap : List Char}

/-- What is left of a text, before its tokens have been looked for. -/
def behind (rest : List Char) : Lexer := ⟨.behind before rest, false⟩

variable (hgap : ∀ c ∈ gap, isSeparator c = true)
include hgap

theorem next?_finish :
    (behind before gap).next? =
      some (.ok (.finishOf (before ++ gap)), ⟨.behind (before ++ gap) [], true⟩) := by
  have hhead : ∀ c ∈ ([] : List Char).head?, isSeparator c = false := by simp
  have hskip := Cursor.skipSeparators_behind before hgap hhead
  rw [List.append_nil] at hskip
  simp only [next?, behind, hskip, Bool.false_eq_true, if_false]
  rfl

theorem next?_error {c : Char} {more : List Char} (hc : isSeparator c = false)
    (hno : NoLexeme (c :: more)) :
    (behind before (gap ++ c :: more)).next? =
      some (.error (.behind (before ++ gap) [c]), ⟨.behind (before ++ gap) (c :: more), true⟩) := by
  have hhead : ∀ d ∈ (c :: more).head?, isSeparator d = false := by simpa using hc
  have hlexeme : lexeme? (c :: more) = none := lexeme?_eq_none_iff.mpr hno
  simp only [next?, behind, Cursor.skipSeparators_behind before hgap hhead, Bool.false_eq_true,
    if_false, Cursor.rest_behind, hlexeme]
  rfl

theorem next?_token {text more : List Char} {kind : TokenKind}
    (hlongest : IsLongest (text ++ more) kind text) :
    (behind before (gap ++ (text ++ more))).next? =
      some (.ok ⟨kind, String.ofList text, .behind (before ++ gap) text⟩,
        behind (before ++ gap ++ text) more) := by
  have hhead : ∀ c ∈ (text ++ more).head?, isSeparator c = false := by
    intro c hc
    rw [List.head?_append_of_ne_nil _ hlongest.ne_nil] at hc
    exact hlongest.not_separator c (List.mem_of_mem_head? hc)
  have hne : (text ++ more).isEmpty = false := by simp [hlongest.ne_nil]
  simp only [next?, behind, Cursor.skipSeparators_behind before hgap hhead,
    Bool.false_eq_true, if_false, Cursor.rest_behind, hne, lexeme?_eq_some_iff.mpr hlongest,
    Cursor.advance_behind, Cursor.spanOf_behind]

end Lexer

/-- The lexer gives what tiles the rest of its text. -/
theorem Tiles.gives {before rest : List Char} {items : List Lexed} (h : Tiles before rest items) :
    (Lexer.behind before rest).Gives items := by
  induction h with
  | @finish before gap hgap =>
    exact .cons (Lexer.next?_finish before hgap) (.nil (Lexer.next?_of_finished rfl))
  | @error before gap more c hgap hc hno =>
    exact .cons (Lexer.next?_error before hgap hc hno) (.nil (Lexer.next?_of_finished rfl))
  | @token before gap text more kind items hgap hlongest rest ih =>
    exact .cons (Lexer.next?_token before hgap hlongest) ih

/-- Behind its first separators a text ends, starts with no lexeme or starts with a longest one. -/
theorem exists_piece (rest : List Char) :
    ∃ gap left, rest = gap ++ left ∧ (∀ c ∈ gap, isSeparator c = true) ∧
      (left = [] ∨ (∃ c more, left = c :: more ∧ isSeparator c = false ∧ NoLexeme (c :: more)) ∨
        ∃ kind text more, left = text ++ more ∧ IsLongest (text ++ more) kind text) := by
  refine ⟨rest.takeWhile isSeparator, rest.dropWhile isSeparator, List.takeWhile_append_dropWhile.symm,
    fun c hc => List.mem_takeWhile_imp hc, ?_⟩
  cases hleft : rest.dropWhile isSeparator with
  | nil => exact .inl rfl
  | cons c more =>
    right
    cases hlexeme : lexeme? (c :: more) with
    | none =>
      have hc : isSeparator c = false :=
        head?_dropWhile_eq_false isSeparator rest c (by rw [hleft]; rfl)
      exact .inl ⟨c, more, rfl, hc, lexeme?_eq_none_iff.mp hlexeme⟩
    | some lexeme =>
      have hlongest : IsLongest (c :: more) lexeme.1 lexeme.2 := lexeme?_eq_some_iff.mp hlexeme
      obtain ⟨others, hothers⟩ := hlongest.starts
      exact .inr ⟨lexeme.1, lexeme.2, others, hothers.symm, hothers ▸ hlongest⟩

/-- Every text can be tiled. -/
theorem exists_tiles (before rest : List Char) : ∃ items, Tiles before rest items := by
  -- each lexeme leaves a shorter text
  induction hlength : rest.length using Nat.strongRecOn generalizing before rest with
  | ind length ih =>
    obtain ⟨gap, left, rfl, hgap, rfl | ⟨c, more, rfl, hc, hno⟩ | ⟨kind, text, more, rfl, hlongest⟩⟩ :=
      exists_piece rest
    · rw [List.append_nil]
      exact ⟨_, .finish hgap⟩
    · exact ⟨_, .error hgap hc hno⟩
    · have hpos := List.length_pos_iff.mpr hlongest.ne_nil
      simp only [List.length_append] at hlength
      obtain ⟨items, hitems⟩ := ih more.length (by omega) (before ++ gap ++ text) more rfl
      exact ⟨_, .token hgap hlongest hitems⟩

/-- A lexer gives the tiling of what is left of its text. -/
theorem tiles_iff_gives {before rest : List Char} {items : List Lexed} :
    Tiles before rest items ↔ (Lexer.behind before rest).Gives items := by
  constructor
  · exact Tiles.gives
  · intro h
    obtain ⟨items', htiles⟩ := exists_tiles before rest
    rwa [h.unique htiles.gives]

theorem tiles_tokenize (source : List Char) : Tiles [] source (tokenize source) :=
  tiles_iff_gives.mpr (gives_tokenize source)

/-! ## What the pieces are -/

namespace Tiles

variable {before rest : List Char} {items : List Lexed}

theorem ended (h : Tiles before rest items) :
    ∃ (tokens : List Token) (last : Lexed), items = tokens.map .ok ++ [last] ∧
      (∀ token ∈ tokens, token.kind ≠ .finish) ∧
      (last = .ok (.finishOf (before ++ rest)) ∨ ∃ span, last = .error span) := by
  induction h with
  | finish => exact ⟨[], _, rfl, List.forall_mem_nil _, .inl rfl⟩
  | error => exact ⟨[], _, rfl, List.forall_mem_nil _, .inr ⟨_, rfl⟩⟩
  | @token before gap text more kind items hgap hlongest rest ih =>
    obtain ⟨tokens, last, rfl, htokens, hlast⟩ := ih
    have hkind : kind ≠ .finish := lexeme?_kind_ne_finish (lexeme?_eq_some_iff.mpr hlongest)
    have hsource : before ++ gap ++ text ++ more = before ++ (gap ++ (text ++ more)) := by simp
    exact ⟨_ :: tokens, last, rfl, List.forall_mem_cons.mpr ⟨hkind, htokens⟩, hsource ▸ hlast⟩

/-- No item starts before the text, or before the end of an earlier one. -/
theorem ordered (h : Tiles before rest items) :
    (∀ item ∈ items, byteSize before ≤ item.span.offset) ∧
      items.Pairwise fun first second => first.span.stop ≤ second.span.offset := by
  have hstart : ∀ {front gap text : List Char},
      byteSize front ≤ (Span.behind (front ++ gap) text).offset := by
    simp [Span.behind]
  induction h with
  | finish | error =>
    exact ⟨List.forall_mem_singleton.mpr hstart, List.pairwise_singleton _ _⟩
  | @token before gap text more kind items hgap hlongest rest ih =>
    obtain ⟨hlater, hpairwise⟩ := ih
    have hbehind : byteSize before ≤ byteSize (before ++ gap ++ text) := by
      simp only [byteSize_append]
      omega
    refine ⟨List.forall_mem_cons.mpr ⟨hstart, fun item hitem => ?_⟩,
      .cons (fun item hitem => ?_) hpairwise⟩
    · exact hbehind.trans (hlater item hitem)
    · have hstop : (Span.behind (before ++ gap) text).stop = byteSize (before ++ gap ++ text) := by
        simp [Span.behind, Span.stop, Nat.add_assoc]
      exact hstop.trans_le (hlater item hitem)

end Tiles

/-- No run of letters goes on from the first text into the second. -/
def LettersApart (before rest : List Char) : Prop :=
  ∀ c ∈ before.getLast?, c.isAlpha = true → ∀ d ∈ rest.head?, d.isAlpha = false

theorem LettersApart.gap {before gap rest : List Char} (h : LettersApart before (gap ++ rest))
    (hgap : ∀ c ∈ gap, isSeparator c = true) : LettersApart (before ++ gap) rest := by
  intro c hc halpha
  by_cases hnil : gap = []
  · subst hnil
    rw [List.append_nil] at hc
    exact h c hc halpha
  · rw [List.getLast?_append_of_ne_nil _ hnil] at hc
    have hseparator := hgap c (List.mem_of_getLast? hc)
    simp [(isAlpha_facts halpha).1] at hseparator

theorem IsLongest.apart {text more : List Char} {kind : TokenKind}
    (h : IsLongest (text ++ more) kind text) (before : List Char) :
    LettersApart (before ++ text) more := by
  intro c hc
  rw [List.getLast?_append_of_ne_nil _ h.ne_nil] at hc
  exact h.not_alpha c hc

/-- The token of a longest lexeme. -/
theorem IsLongest.between {before text more : List Char} {kind : TokenKind}
    (h : IsLongest (text ++ more) kind text) (hapart : LettersApart before (text ++ more)) :
    (Token.mk kind (String.ofList text) (.behind before text)).Between before more := by
  have hkind := h.lexeme
  constructor <;> simp only [String.toList_ofList]
  · exact h.ne_nil
  · exact fragment_behind before text more
  · intro hnumber
    subst hnumber
    cases hkind with
    | number hnumeral =>
      exact ⟨hnumeral, fun numeral hnumeral => h.longest .number numeral (.number hnumeral)⟩
  · intro hident
    subst hident
    cases hkind with
    | ident hne hletters =>
      refine ⟨hletters, fun c hc => ?_, ?_⟩
      · apply Bool.eq_false_of_not_eq_true
        intro halpha
        have hhead : text.head hne ∈ (text ++ more).head? := by
          rw [List.head?_append_of_ne_nil _ hne]
          exact List.head?_eq_some_head hne
        have hfirst := hapart c hc halpha _ hhead
        simp [hletters _ (List.head_mem hne)] at hfirst
      · have hlast := hletters _ (List.getLast_mem hne)
        exact h.not_alpha _ (List.getLast?_eq_some_getLast hne) hlast

namespace Tiles

variable {before rest : List Char} {items : List Lexed}

theorem between (h : Tiles before rest items) (hapart : LettersApart before rest) {token : Token}
    (hmem : .ok token ∈ items) (hkind : token.kind ≠ .finish) :
    ∃ front more, before ++ rest = front ++ (token.text.toList ++ more) ∧ token.Between front more := by
  induction h with
  | finish =>
    obtain rfl := Except.ok.inj (List.mem_singleton.mp hmem)
    exact absurd rfl hkind
  | error => cases List.mem_singleton.mp hmem
  | @token before gap text more kind items hgap hlongest rest ih =>
    have hbehind := hapart.gap hgap
    rcases List.mem_cons.mp hmem with heq | hmem
    · obtain rfl := Except.ok.inj heq
      exact ⟨before ++ gap, more, by simp, hlongest.between hbehind⟩
    · obtain ⟨front, others, hsource, hbetween⟩ := ih (hlongest.apart _) hmem
      exact ⟨front, others, by simpa using hsource, hbetween⟩

theorem refused (h : Tiles before rest items) {span : Span} (hmem : .error span ∈ items) :
    ∃ front c more, before ++ rest = front ++ c :: more ∧ span = .behind front [c] ∧
      span.fragment (before ++ rest) = [c] ∧ isSeparator c = false ∧ NoLexeme (c :: more) := by
  induction h with
  | finish => cases List.mem_singleton.mp hmem
  | @error before gap more c hgap hc hno =>
    obtain rfl := Except.error.inj (List.mem_singleton.mp hmem)
    have hsource : before ++ (gap ++ c :: more) = before ++ gap ++ ([c] ++ more) := by simp
    refine ⟨before ++ gap, c, more, hsource, rfl, ?_, hc, hno⟩
    rw [hsource]
    exact fragment_behind ..
  | @token before gap text more kind items hgap hlongest rest ih =>
    have hsource : before ++ gap ++ text ++ more = before ++ (gap ++ (text ++ more)) := by simp
    rw [← hsource]
    exact ih ((List.mem_cons.mp hmem).resolve_left (by simp))

end Tiles

/-- A lexer gives the one tiling of its text, and nothing after it. -/
theorem isTiling_tokenize (source : List Char) :
    (Lexer.ofSource source).Gives (tokenize source) ∧ IsTiling source (tokenize source) ∧
      ∀ items, Tiles [] source items ↔ items = tokenize source := by
  have hgives := gives_tokenize source
  have htiles := tiles_tokenize source
  refine ⟨hgives, ⟨htiles, htiles.ended, htiles.ordered.2, ?_, ?_⟩, ?_⟩
  · intro token hmem hkind
    exact htiles.between (by simp [LettersApart]) hmem hkind
  · intro span hmem
    exact htiles.refused hmem
  · intro items
    constructor
    · intro h
      exact h.gives.unique hgives
    · intro h
      exact h ▸ htiles

/-- A point and an exponent belong to a number only with digits behind them. -/
example : tokenize "1.2e+ \n é".toList =
    [.ok ⟨.number, "1.2", ⟨0, 3, 1⟩⟩, .ok ⟨.ident, "e", ⟨3, 1, 1⟩⟩, .ok ⟨.sign, "+", ⟨4, 1, 1⟩⟩,
      .error ⟨8, 2, 2⟩] := by
  cbv

end Abacus
