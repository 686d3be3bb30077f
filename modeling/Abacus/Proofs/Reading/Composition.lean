import Abacus.Proofs.Reading.Appended
import Abacus.Proofs.Reading.RoundTrip

/-!
# Reading a composed text

The rules look at the kinds and the characters of tokens, but not at their places, and of what stands
behind an expression they only ask whether it goes on with it.  So an expression that was read up to the
end of its text is read as the same tree, up to places, wherever its tokens stand before something that
does not go on with it (`Reads.moved`).

The text of a composed formula puts two such expressions into parentheses.  It is cut into the lexemes of
both and those between them, and into nothing else (`lexes_composed`, `of_lexes_composed`).  The main
statement is `parse?_composed`.
-/

namespace Abacus.Reading

open Abacus.Parser

variable {g : Grammar} {s s' : Nat → Lexed} {shift stop : Nat}

/-! ## Tokens at another place -/

theorem lexeme_eq_iff {token token' : Token} :
    token.lexeme = token'.lexeme ↔ token.kind = token'.kind ∧ token.text = token'.text := by
  rw [Token.lexeme, Token.lexeme, Prod.mk.injEq, String.toList_inj]

/-- The items of `s` before item `stop` stand again in `s'`, `shift` places further on.  If item `stop` is
a token, it is the end of the text, and something follows there that goes on with no expression. -/
structure Copied (s s' : Nat → Lexed) (shift stop : Nat) : Prop where
  token : ∀ i < stop, ∃ token token', s i = .ok token ∧ s' (shift + i) = .ok token' ∧
    token.lexeme = token'.lexeme
  last : ∀ token, s stop = .ok token → token.kind = .finish ∧ NoMore s' (shift + stop)

namespace Copied

theorem cases (h : Copied s s' shift stop) {i : Nat} (hi : i ≤ stop) {token : Token}
    (htoken : s i = .ok token) :
    (i < stop ∧ ∃ token', s' (shift + i) = .ok token' ∧ token.kind = token'.kind ∧
      token.text = token'.text) ∨ (token.kind = .finish ∧ NoMore s' (shift + i)) := by
  rcases Nat.lt_or_eq_of_le hi with hlt | rfl
  · obtain ⟨found, token', hfound, htoken', hlexeme⟩ := h.token i hlt
    obtain rfl := Except.ok.inj (htoken.symm.trans hfound)
    exact .inl ⟨hlt, token', htoken', lexeme_eq_iff.mp hlexeme⟩
  · exact .inr (h.last token htoken)

theorem stands (h : Copied s s' shift stop) {i : Nat} (hi : i ≤ stop) {kind : TokenKind}
    {token : Token} (htoken : Stands s i kind token) (hkind : kind ≠ .finish) :
    i < stop ∧ ∃ token', Stands s' (shift + i) kind token' ∧ token.text = token'.text := by
  obtain ⟨hitem, rfl⟩ := htoken
  rcases h.cases hi hitem with ⟨hlt, token', htoken', hkind', htext⟩ | ⟨hfinish, _⟩
  · exact ⟨hlt, token', ⟨htoken', hkind'.symm⟩, htext⟩
  · exact absurd hfinish hkind

end Copied

theorem binaryOp?_congr {token token' : Token} (hkind : token.kind = token'.kind)
    (htext : token.text = token'.text) : binaryOp? token = binaryOp? token' := by
  simp [binaryOp?, hkind, htext]

theorem unaryOp?_congr {token token' : Token} (hkind : token.kind = token'.kind)
    (htext : token.text = token'.text) : unaryOp? token = unaryOp? token' := by
  simp [unaryOp?, hkind, htext]

namespace Copied

theorem done (h : Copied s s' shift stop) {i : Nat} (hi : i ≤ stop) {token : Token} {least : UInt64}
    (htoken : s i = .ok token) (hjoins : joins? g least token = none) :
    ∃ token', s' (shift + i) = .ok token' ∧ joins? g least token' = none := by
  rcases h.cases hi htoken with ⟨_, token', htoken', hkind, htext⟩ | ⟨_, next, hnext, _, hbinary⟩
  · exact ⟨token', htoken', by rwa [joins?, ← binaryOp?_congr hkind htext]⟩
  · exact ⟨next, hnext, by simp [joins?, binaryOp?_eq_none hbinary]⟩

theorem join (h : Copied s s' shift stop) {i : Nat} (hi : i ≤ stop) {token : Token} {least : UInt64}
    {op : BinaryOp} (htoken : s i = .ok token) (hjoins : joins? g least token = some op) :
    i < stop ∧ ∃ token', s' (shift + i) = .ok token' ∧ joins? g least token' = some op := by
  rcases h.cases hi htoken with ⟨hlt, token', htoken', hkind, htext⟩ | ⟨hfinish, _⟩
  · exact ⟨hlt, token', htoken', by rwa [joins?, ← binaryOp?_congr hkind htext]⟩
  · have hbinary := binaryOp?_kind (joins?_binaryOp? hjoins)
    simp [hfinish] at hbinary

theorem noCall (h : Copied s s' shift stop) {i : Nat} (hi : i ≤ stop) {next : Token}
    (hnext : s i = .ok next) (hkind : next.kind ≠ .leftParen) : NoCall s' (shift + i) := by
  rcases h.cases hi hnext with ⟨_, next', hnext', hkind', _⟩ | ⟨_, hmore⟩
  · exact ⟨next', hnext', hkind' ▸ hkind⟩
  · exact hmore.noCall

theorem starts (h : Copied s s' shift stop) {i : Nat} (hi : i ≤ stop) {next : Token}
    (hnext : s i = .ok next) (hstarts : startsOperand next = true) :
    ∃ next', s' (shift + i) = .ok next' ∧ startsOperand next' = true := by
  rcases h.cases hi hnext with ⟨_, next', hnext', hkind, _⟩ | ⟨hfinish, _⟩
  · exact ⟨next', hnext', by rwa [startsOperand, ← hkind]⟩
  · simp [startsOperand, hfinish] at hstarts

end Copied

/-! ## Readings at another place -/

/-- The goal is read `shift` places further on as well, and gives an expression that is alike, if what
was read before is. -/
def Goal.Moves (g : Grammar) (s' : Nat → Lexed) (shift : Nat) (goal : Goal) (i j : Nat)
    (expr : Expr) : Prop :=
  match goal with
  | .extend least lhs => ∀ lhs', lhs.Alike (· = ·) lhs' →
      ∃ expr', expr.Alike (· = ·) expr' ∧
        Reads g s' (.extend least lhs') (shift + i) (shift + j) expr'
  | .arguments name args => ∀ name' args', name.text = name'.text → AllAlike (· = ·) args args' →
      ∃ expr', expr.Alike (· = ·) expr' ∧
        Reads g s' (.arguments name' args') (shift + i) (shift + j) expr'
  | goal => ∃ expr', expr.Alike (· = ·) expr' ∧ Reads g s' goal (shift + i) (shift + j) expr'

/-- Expressions that are read before the end of their text are read wherever their tokens stand. -/
theorem Reads.moved (hcopied : Copied s s' shift stop) {goal : Goal} {i j : Nat} {expr : Expr}
    (h : Reads g s goal i j expr) (hi : i ≤ stop) :
    j ≤ stop ∧ goal.Moves g s' shift i j expr := by
  -- A token that is read is not the end, so it is a copied one, and reading stays before the end.  Only
  -- a chain, a name and a sign look at a token that they leave.
  induction h with
  | chain _ _ ihfirst ihrest =>
    obtain ⟨hj, lhs', hlhs, hfirst⟩ := ihfirst hi
    obtain ⟨hk, hrest⟩ := ihrest hj
    obtain ⟨expr', hexpr, hextend⟩ := hrest lhs' hlhs
    exact ⟨hk, expr', hexpr, .chain hfirst hextend⟩
  | done htoken hjoins =>
    obtain ⟨token', htoken', hjoins'⟩ := hcopied.done hi htoken hjoins
    exact ⟨hi, fun lhs' hlhs => ⟨lhs', hlhs, .done htoken' hjoins'⟩⟩
  | join htoken hjoins hinner _ _ ihoperand ihrest =>
    obtain ⟨hlt, token', htoken', hjoins'⟩ := hcopied.join hi htoken hjoins
    obtain ⟨hj, rhs', hrhs, hoperand⟩ := ihoperand hlt
    obtain ⟨hk, hrest⟩ := ihrest hj
    refine ⟨hk, fun lhs' hlhs => ?_⟩
    obtain ⟨expr', hexpr, hextend⟩ := hrest (binaryOf lhs' token' _ rhs') ⟨hlhs, rfl, hrhs⟩
    exact ⟨expr', hexpr, .join htoken' hjoins' hinner hoperand hextend⟩
  | number htoken hvalue =>
    obtain ⟨hlt, token', htoken', htext⟩ := hcopied.stands hi htoken (by decide)
    refine ⟨hlt, .number token'.span _, ?_, .number htoken' (htext ▸ hvalue)⟩
    rfl
  | var htoken hnext hkind =>
    obtain ⟨hlt, token', htoken', htext⟩ := hcopied.stands hi htoken (by decide)
    obtain ⟨next', hnext', hkind'⟩ := hcopied.noCall hlt hnext hkind
    exact ⟨hlt, .var token'.span token'.text, htext, .var htoken' hnext' hkind'⟩
  | called _ ih =>
    obtain ⟨hj, expr', hexpr, hcall⟩ := ih hi
    exact ⟨hj, expr', hexpr, .called hcall⟩
  | grouped _ ih =>
    obtain ⟨hj, expr', hexpr, hparen⟩ := ih hi
    exact ⟨hj, expr', hexpr, .grouped hparen⟩
  | signed _ ih =>
    obtain ⟨hj, expr', hexpr, hunary⟩ := ih hi
    exact ⟨hj, expr', hexpr, .signed hunary⟩
  | callEmpty hname hopening hclosing =>
    obtain ⟨hlt, name', hname', htext⟩ := hcopied.stands hi hname (by decide)
    obtain ⟨hlt', opening', hopening', _⟩ := hcopied.stands hlt hopening (by decide)
    obtain ⟨hlt'', closing', hclosing', _⟩ := hcopied.stands hlt' hclosing (by decide)
    refine ⟨hlt'', callOf name' closing' [], ?_, .callEmpty hname' hopening' hclosing'⟩
    exact And.intro htext trivial
  | callFirst hname hopening _ _ ihargument ihrest =>
    obtain ⟨hlt, name', hname', htext⟩ := hcopied.stands hi hname (by decide)
    obtain ⟨hlt', opening', hopening', _⟩ := hcopied.stands hlt hopening (by decide)
    obtain ⟨hj, first', hfirst, hargument⟩ := ihargument hlt'
    obtain ⟨hk, hrest⟩ := ihrest hj
    obtain ⟨expr', hexpr, harguments⟩ := hrest name' [first'] htext ⟨hfirst, trivial⟩
    exact ⟨hk, expr', hexpr, .callFirst hname' hopening' hargument harguments⟩
  | next hcomma _ _ ihargument ihrest =>
    obtain ⟨hlt, comma', hcomma', _⟩ := hcopied.stands hi hcomma (by decide)
    obtain ⟨hj, arg', harg, hargument⟩ := ihargument hlt
    obtain ⟨hk, hrest⟩ := ihrest hj
    refine ⟨hk, fun name' args' htext hargs => ?_⟩
    obtain ⟨expr', hexpr, harguments⟩ :=
      hrest name' (args' ++ [arg']) htext (hargs.append ⟨harg, trivial⟩)
    exact ⟨expr', hexpr, .next hcomma' hargument harguments⟩
  | close hclosing =>
    obtain ⟨hlt, closing', hclosing', _⟩ := hcopied.stands hi hclosing (by decide)
    refine ⟨hlt, fun name' args' htext hargs => ⟨callOf name' closing' args', ?_, .close hclosing'⟩⟩
    exact And.intro htext hargs
  | paren hopening _ hclosing ih =>
    obtain ⟨hlt, opening', hopening', _⟩ := hcopied.stands hi hopening (by decide)
    obtain ⟨hj, inner', hinner, hexpression⟩ := ih hlt
    obtain ⟨hlt', closing', hclosing', _⟩ := hcopied.stands hj hclosing (by decide)
    exact ⟨hlt', _, (hinner.parenthesized _).parenthesized_left _, .paren hopening' hexpression hclosing'⟩
  | unary htoken hop hnext hstarts _ ih =>
    obtain ⟨hlt, token', htoken', htext⟩ :=
      hcopied.stands hi ⟨htoken, rfl⟩ (by simp [unaryOp?_kind hop])
    obtain ⟨next', hnext', hstarts'⟩ := hcopied.starts hlt hnext hstarts
    obtain ⟨hj, operand', hoperand, hterm⟩ := ih hlt
    have hop' := unaryOp?_congr htoken'.2.symm htext ▸ hop
    refine ⟨hj, unaryOf token' _ operand', ?_, .unary htoken'.1 hop' hnext' hstarts' hterm⟩
    exact And.intro rfl hoperand

/-! ## Expressions in parentheses -/

theorem Shows.length_eq {i j : Nat} {lexemes : List Lexeme} (h : Shows s i j lexemes) :
    j = i + lexemes.length := by
  induction h with
  | nil => rfl
  | cons _ _ ih => rw [ih, List.length_cons, Nat.add_assoc, Nat.add_comm 1]

theorem Shows.getElem {i j k : Nat} {lexemes : List Lexeme} (h : Shows s i j lexemes)
    (hk : k < lexemes.length) : ∃ token, s (i + k) = .ok token ∧ token.lexeme = lexemes[k] := by
  induction h generalizing k with
  | nil => exact absurd hk (Nat.not_lt_zero k)
  | @cons i _ token _ htoken _ ih =>
    cases k with
    | zero => exact ⟨token, htoken, rfl⟩
    | succ k =>
      obtain ⟨found, hfound, hlexeme⟩ := ih (Nat.lt_of_succ_lt_succ hk)
      rw [Nat.add_assoc, Nat.add_comm 1] at hfound
      exact ⟨found, hfound, hlexeme⟩

/-- The lexemes, up to the end of a text, are read as the expression. -/
def Spells (g : Grammar) (lexemes : List Lexeme) (expr : Expr) : Prop :=
  ∃ s stop finish, Shows s 0 stop lexemes ∧ Stands s stop .finish finish ∧
    Reads g s (.chain 0) 0 stop expr

/-- What shows the same lexemes, before something that goes on with no expression, is a copy. -/
theorem Shows.copied {lexemes : List Lexeme} (h : Shows s 0 stop lexemes) {finish : Token}
    (hfinish : Stands s stop .finish finish) {i j : Nat} (h' : Shows s' i j lexemes)
    (hmore : NoMore s' j) : j = i + stop ∧ Copied s s' i stop := by
  have hstop := h.length_eq
  obtain rfl : j = i + stop := by
    have hj := h'.length_eq
    omega
  refine ⟨rfl, fun n hn => ?_, fun token htoken => ?_⟩
  · have hlength : n < lexemes.length := by omega
    obtain ⟨token, htoken, hlexeme⟩ := h.getElem hlength
    obtain ⟨token', htoken', hlexeme'⟩ := h'.getElem hlength
    rw [Nat.zero_add] at htoken
    exact ⟨token, token', htoken, htoken', hlexeme.trans hlexeme'.symm⟩
  · obtain rfl := Except.ok.inj (htoken.symm.trans hfinish.1)
    exact ⟨hfinish.2, hmore⟩

/-- What is an expression up to the end of a text is one before anything that does not go on with it. -/
theorem Spells.reads {lexemes : List Lexeme} {expr : Expr} (h : Spells g lexemes expr) {i j : Nat}
    (hshows : Shows s' i j lexemes) (hmore : NoMore s' j) :
    ∃ expr', Reads g s' (.chain 0) i j expr' ∧ expr.Alike (· = ·) expr' := by
  obtain ⟨s, stop, finish, hlexemes, hfinish, hread⟩ := h
  obtain ⟨rfl, hcopied⟩ := hlexemes.copied hfinish hshows hmore
  obtain ⟨_, expr', halike, hmoved⟩ := hread.moved hcopied (Nat.zero_le stop)
  exact ⟨expr', hmoved, halike⟩

/-- The lexemes in parentheses. -/
def groupLexemes (lexemes : List Lexeme) : List Lexeme :=
  (.leftParen, ['(']) :: lexemes ++ [(.rightParen, [')'])]

/-- What is an expression up to the end of a text is a term in parentheses. -/
theorem Spells.reads_group {lexemes : List Lexeme} {expr : Expr} (h : Spells g lexemes expr)
    {i j : Nat} (hshows : Shows s' i j (groupLexemes lexemes)) :
    ∃ expr', Reads g s' .term i j expr' ∧ expr.Alike (· = ·) expr' := by
  obtain ⟨opening, hopening, _, hrest⟩ := hshows.uncons
  obtain ⟨k, hinner, hlast⟩ := hrest.split
  obtain ⟨closing, hclosing, rfl⟩ := hlast.last
  obtain ⟨expr', hread, halike⟩ := h.reads hinner (.of_stands hclosing (by decide))
  exact ⟨_, .grouped (.paren hopening hread hclosing), halike.parenthesized _⟩

/-- A text that is read as an expression is cut into lexemes that spell it. -/
theorem exists_spells {source : List Char} {expr : Expr}
    (h : Statement.parse? g source = .ok (.expression expr)) :
    ∃ lexemes, Lexes source lexemes ∧ Spells g lexemes expr := by
  have hended := ended_tokenize source
  have hspelled := Ended.spelled_itemAt hended (spelled_tokenize source)
  cases parse?_eq_ok_iff.mp h with
  | @expression stop _ finish hread hfinish =>
    obtain ⟨tokens, hbetween, _⟩ := hread.derives hspelled
    have hkinds := hread.kind_ne hspelled hbetween
    have hwhole := hbetween.append (.stands hfinish (by decide))
    have htokens := eq_map_of_carries hended hwhole.carries hfinish.2 fun token h => (hkinds token h).1
    exact ⟨tokens.map Token.lexeme, lexes_of_tokenize htokens, _, stop, finish,
      .of_carries hbetween.carries hbetween.stop, hfinish, hread⟩

/-- A text with lexemes that spell an expression is read as that, up to places. -/
theorem Spells.parse? {lexemes : List Lexeme} {expr : Expr} (h : Spells g lexemes expr)
    {source : List Char} (hlexes : Lexes source lexemes) :
    ∃ expr', Statement.parse? g source = .ok (.expression expr') ∧ expr.Alike (· = ·) expr' := by
  obtain ⟨stop, finish, hshows, hfinish⟩ := shows_of_lexes hlexes
  obtain ⟨expr', hread, halike⟩ := h.reads hshows (.of_stands hfinish (by decide))
  exact ⟨expr', parse?_eq_ok_iff.mpr (.expression hread hfinish), halike⟩

/-! ## Composed texts -/

/-- The lexemes of a composed text. -/
def composedLexemes (op : BinaryOp) (first second : List Lexeme) : List Lexeme :=
  groupLexemes first ++ (opKind op, op.symbol.toList) :: groupLexemes second

theorem Lexes.group {text cs : List Char} {lexemes more : List Lexeme} (h : Lexes text lexemes)
    (hmore : Lexes cs more) :
    Lexes ('(' :: text ++ ')' :: cs) (groupLexemes lexemes ++ more) := by
  have hclosing : Lexes (')' :: cs) ((.rightParen, [')']) :: more) := hmore.symbol rfl
  have hinner := h.append (endsLiteral_cons (by simp) cs) hclosing
  simpa [groupLexemes] using hinner.symbol (c := '(') rfl

theorem Lexes.of_group {text cs : List Char} {lexemes : List Lexeme}
    (h : Lexes ('(' :: text ++ ')' :: cs) lexemes) :
    ∃ inner more, lexemes = groupLexemes inner ++ more ∧ Lexes text inner ∧ Lexes cs more := by
  obtain ⟨rest, rfl, hrest⟩ := h.of_symbol (c := '(') rfl
  obtain ⟨inner, last, rfl, hinner, hlast⟩ := hrest.of_append (endsLiteral_cons (by simp) cs)
  obtain ⟨more, rfl, hmore⟩ := hlast.of_symbol (c := ')') rfl
  exact ⟨inner, more, by simp [groupLexemes], hinner, hmore⟩

theorem lexes_composed (op : BinaryOp) {first second : String} {lexemes more : List Lexeme}
    (hfirst : Lexes first.toList lexemes) (hsecond : Lexes second.toList more) :
    Lexes ("(" ++ first ++ ") " ++ op.symbol ++ " (" ++ second ++ ")").toList
      (composedLexemes op lexemes more) := by
  obtain ⟨c, hc, hkind⟩ := opKind_symbol op
  have hempty : Lexes [] [] := .finish rfl
  have hright := Lexes.group hsecond hempty
  have hop := ((hright.blank (c := ' ') rfl).symbol hkind).blank (c := ' ') rfl
  have hwhole := Lexes.group hfirst hop
  simpa [composedLexemes, hc] using hwhole

/-- A composed text is cut apart at the operator. -/
theorem of_lexes_composed (op : BinaryOp) {first second : String} {lexemes : List Lexeme}
    (h : Lexes ("(" ++ first ++ ") " ++ op.symbol ++ " (" ++ second ++ ")").toList lexemes) :
    ∃ left right, lexemes = composedLexemes op left right ∧ Lexes first.toList left ∧
      Lexes second.toList right := by
  obtain ⟨c, hc, hkind⟩ := opKind_symbol op
  have hgroup : Lexes ('(' :: first.toList ++ ')' ::
      (' ' :: c :: ' ' :: ('(' :: second.toList ++ ')' :: []))) lexemes := by
    simpa [hc] using h
  obtain ⟨left, rest, rfl, hleft, hrest⟩ := Lexes.of_group hgroup
  obtain ⟨others, rfl, hothers⟩ := ((Lexes.blank_iff (by rfl)).mp hrest).of_symbol hkind
  obtain ⟨right, more, rfl, hright, hmore⟩ := Lexes.of_group ((Lexes.blank_iff (by rfl)).mp hothers)
  obtain rfl : more = [] := by
    cases hmore with
    | finish _ => rfl
    | lexeme hlexeme _ => cases hlexeme
  exact ⟨left, right, by simp [composedLexemes, hc], hleft, hright⟩

/-- The text of a composed formula is read as the operation on the trees of the two texts, up to
places, whatever the priorities are, unless there is none for the right operand. -/
theorem parse?_composed (op : BinaryOp) {first second : String} {lhs rhs : Expr}
    (hfirst : Statement.parse? g first.toList = .ok (.expression lhs))
    (hsecond : Statement.parse? g second.toList = .ok (.expression rhs)) :
    (¬ AtTop g op → ∃ span place lhs' rhs',
      Statement.parse? g ("(" ++ first ++ ") " ++ op.symbol ++ " (" ++ second ++ ")").toList =
        .ok (.expression (.binary span lhs' ⟨place, op⟩ rhs')) ∧
      lhs.Alike (· = ·) lhs' ∧ rhs.Alike (· = ·) rhs') ∧
    (AtTop g op →
      Statement.parse? g ("(" ++ first ++ ") " ++ op.symbol ++ " (" ++ second ++ ")").toList =
        .error .overflow) := by
  obtain ⟨lexemes, hlexes, hspells⟩ := exists_spells hfirst
  obtain ⟨more, hlexes', hspells'⟩ := exists_spells hsecond
  obtain ⟨stop, finish, hshows, hfinish⟩ := shows_of_lexes (lexes_composed op hlexes hlexes')
  obtain ⟨k, hleft, hrest⟩ := hshows.split
  obtain ⟨token, htoken, htext, hright⟩ := hrest.uncons
  obtain ⟨lhs', hlhs, halike⟩ := hspells.reads_group hleft
  obtain ⟨rhs', hrhs, halike'⟩ := hspells'.reads_group hright
  have hop := binaryOp?_of_symbol htoken.2 (by simpa using htext)
  refine ⟨fun hsafe => ?_, fun htop => ?_⟩
  · have hread := hlhs.binary htoken.1 hop hsafe hrhs (.of_stands hfinish (by decide))
    exact ⟨_, _, lhs', rhs', parse?_eq_ok_iff.mpr (.expression hread hfinish), halike, halike'⟩
  · have hfails : Fails g _ (.chain 0) 0 .overflow := .chainRest hlhs
      (.extendOverflow htoken.1 (by simp [joins?, hop]) (rightPriority?_eq_none_iff.mpr htop))
    exact parse?_eq_error_iff.mpr (.fatal (.expression hfails) rfl)

end Abacus.Reading
