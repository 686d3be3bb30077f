import Abacus.Proofs.Reading.Composition
import Abacus.Proofs.Reading.Offence

/-!
# The layout of a text

Two texts that are cut into the same lexemes have other blanks between these, so that tokens stand at other
places.  The rules look at no place: what is read from the one text is read from the other, up to places
(`Reads.moved`), and a rule that stops in the one stops in the other, for the same reason and at the item
with the same number (`Fails.aligned`).

Places count where both alternatives of a statement stop, for the one that got further is reported.  But
items stand in the order of their numbers, so the answer is the same in both texts
(`SameBlame.offset_lt_iff`).  The main statement is `parse?_of_lexemes_eq`.
-/

namespace Abacus

/-- What an item is apart from its place: a lexeme, or a character that starts none. -/
def Lexed.lexeme? : Lexed → Option Lexeme
  | .ok token => some token.lexeme
  | .error _ => none

namespace Reading

variable {g : Grammar} {s s' : Nat → Lexed} {stop i j : Nat} {error error' : Located SyntaxError}

/-! ## Items at other places -/

/-- The items of both streams have the same lexemes up to item `stop`, which is the last one. -/
structure Aligned (s s' : Nat → Lexed) (stop : Nat) : Prop where
  lexeme_eq : ∀ i ≤ stop, (s i).lexeme? = (s' i).lexeme?
  before : ∀ i < stop, ∃ token, s i = .ok token
  last : ∀ token, s stop = .ok token → token.kind = .finish

/-- The errors have one reason and are about items with one number. -/
def SameBlame (s s' : Nat → Lexed) (stop : Nat) (error error' : Located SyntaxError) : Prop :=
  error.val = error'.val ∧ ∃ k ≤ stop, Blames error (s k) ∧ Blames error' (s' k)

theorem SameBlame.token {token token' : Token} {reason : TokenKind → SyntaxError}
    (hlexical : ∀ kind, (reason kind).isLexical = false) (hi : i ≤ stop) (htoken : s i = .ok token)
    (htoken' : s' i = .ok token') (hkind : token.kind = token'.kind) :
    SameBlame s s' stop ⟨token.span, reason token.kind⟩ ⟨token'.span, reason token'.kind⟩ :=
  ⟨congrArg reason hkind, i, hi, htoken ▸ .token token (hlexical _),
    htoken' ▸ .token token' (hlexical _)⟩

/-- Reading stops alike in both streams: with errors that have one reason and are about items with one
number, or with an overflow in both. -/
inductive SameFailure (s s' : Nat → Lexed) (stop : Nat) : SyntaxFailure → SyntaxFailure → Prop
  | refused {error error' : Located SyntaxError} (h : SameBlame s s' stop error error') :
      SameFailure s s' stop (.refused error) (.refused error')
  | overflow : SameFailure s s' stop .overflow .overflow

namespace SameFailure

theorem isFatal_eq {why why' : SyntaxFailure} (h : SameFailure s s' stop why why') :
    why.isFatal = why'.isFatal := by
  cases h with
  | refused hsame => rw [SyntaxFailure.isFatal_refused, hsame.1, SyntaxFailure.isFatal_refused]
  | overflow => rfl

theorem of_refused {why' : SyntaxFailure} (h : SameFailure s s' stop (.refused error) why') :
    ∃ error', why' = .refused error' ∧ SameBlame s s' stop error error' := by
  cases h with
  | refused hsame => exact ⟨_, rfl, hsame⟩

end SameFailure

namespace Aligned

theorem item (h : Aligned s s' stop) (hi : i ≤ stop) {token : Token} (htoken : s i = .ok token) :
    ∃ token', s' i = .ok token' ∧ token.kind = token'.kind ∧ token.text = token'.text := by
  have hlexeme := h.lexeme_eq i hi
  rw [htoken] at hlexeme
  cases hitem : s' i with
  | error span =>
    rw [hitem] at hlexeme
    cases hlexeme
  | ok token' =>
    rw [hitem] at hlexeme
    exact ⟨token', rfl, lexeme_eq_iff.mp (Option.some.inj hlexeme)⟩

theorem char (h : Aligned s s' stop) (hi : i ≤ stop) {span : Span} (hchar : s i = .error span) :
    ∃ span', s' i = .error span' ∧
      SameBlame s s' stop ⟨span, .unexpectedChar⟩ ⟨span', .unexpectedChar⟩ := by
  have hlexeme := h.lexeme_eq i hi
  rw [hchar] at hlexeme
  cases hitem : s' i with
  | ok token =>
    rw [hitem] at hlexeme
    cases hlexeme
  | error span' => exact ⟨span', rfl, rfl, i, hi, hchar ▸ .char span, hitem ▸ .char span'⟩

/-- A token other than the end has an item behind it. -/
theorem lt (h : Aligned s s' stop) (hi : i ≤ stop) {token : Token} (htoken : s i = .ok token)
    (hkind : token.kind ≠ .finish) : i < stop := by
  rcases Nat.lt_or_eq_of_le hi with hlt | rfl
  · exact hlt
  · exact absurd (h.last token htoken) hkind

theorem stands (h : Aligned s s' stop) (hi : i ≤ stop) {kind : TokenKind} {token : Token}
    (htoken : Stands s i kind token) :
    ∃ token', Stands s' i kind token' ∧ token.text = token'.text := by
  obtain ⟨token', htoken', hkind, htext⟩ := h.item hi htoken.1
  exact ⟨token', ⟨htoken', hkind.symm.trans htoken.2⟩, htext⟩

theorem stands_lt (h : Aligned s s' stop) (hi : i ≤ stop) {kind : TokenKind} {token : Token}
    (htoken : Stands s i kind token) (hkind : kind ≠ .finish) :
    i < stop ∧ ∃ token', Stands s' i kind token' ∧ token.text = token'.text :=
  ⟨h.lt hi htoken.1 (htoken.2 ▸ hkind), h.stands hi htoken⟩

theorem stands_pair (h : Aligned s s' stop) (hi : i ≤ stop) {kind kind' : TokenKind} {token next : Token}
    (htoken : Stands s i kind token) (hnext : Stands s (i + 1) kind' next) (hkind : kind ≠ .finish)
    (hkind' : kind' ≠ .finish) :
    i + 2 ≤ stop ∧ ∃ token' next', Stands s' i kind token' ∧ Stands s' (i + 1) kind' next' ∧
      token.text = token'.text := by
  obtain ⟨hlt, token', htoken', htext⟩ := h.stands_lt hi htoken hkind
  obtain ⟨hlt', next', hnext', _⟩ := h.stands_lt hlt hnext hkind'
  exact ⟨hlt', token', next', htoken', hnext', htext⟩

theorem join (h : Aligned s s' stop) (hi : i ≤ stop) {token : Token} {least : UInt64} {op : BinaryOp}
    (htoken : s i = .ok token) (hjoins : joins? g least token = some op) :
    i < stop ∧ ∃ token', s' i = .ok token' ∧ joins? g least token' = some op := by
  obtain ⟨token', htoken', hkind, htext⟩ := h.item hi htoken
  have hfinish : token.kind ≠ .finish := by
    rcases binaryOp?_kind (joins?_binaryOp? hjoins) with hsign | hoperator
    · simp [hsign]
    · simp [hoperator]
  exact ⟨h.lt hi htoken hfinish, token', htoken', by rwa [joins?, ← binaryOp?_congr hkind htext]⟩

theorem sign (h : Aligned s s' stop) (hi : i ≤ stop) {token : Token} {op : UnaryOp}
    (htoken : s i = .ok token) (hop : Parser.unaryOp? token = some op) :
    i < stop ∧ ∃ token', s' i = .ok token' ∧ Parser.unaryOp? token' = some op := by
  obtain ⟨token', htoken', hkind, htext⟩ := h.item hi htoken
  exact ⟨h.lt hi htoken (by simp [unaryOp?_kind hop]), token', htoken', unaryOp?_congr hkind htext ▸ hop⟩

/-- A token of a kind is missing in both streams. -/
theorem missing (h : Aligned s s' stop) (hi : i ≤ stop) {kind : TokenKind} {context : Context}
    (hmissing : missing? kind context (s i) = some error) :
    ∃ error', SameBlame s s' stop error error' ∧ missing? kind context (s' i) = some error' := by
  cases hitem : s i with
  | error span =>
    rw [hitem] at hmissing
    obtain rfl := Option.some.inj hmissing
    obtain ⟨span', hchar, hsame⟩ := h.char hi hitem
    exact ⟨_, hsame, by rw [hchar, missing?]⟩
  | ok token =>
    rw [hitem] at hmissing
    obtain ⟨hother, hsome⟩ := Option.ite_none_left_eq_some.mp hmissing
    obtain rfl := Option.some.inj hsome
    obtain ⟨token', htoken', hkind, _⟩ := h.item hi hitem
    refine ⟨_, .token (fun _ => rfl) hi hitem htoken' hkind, ?_⟩
    rw [htoken', missing?, if_neg (hkind ▸ hother)]

theorem copied (h : Aligned s s' stop) : Copied s s' 0 stop where
  token i hi := by
    obtain ⟨token, htoken⟩ := h.before i hi
    obtain ⟨token', htoken', hlexeme⟩ := h.item hi.le htoken
    exact ⟨token, token', htoken, by rwa [Nat.zero_add], lexeme_eq_iff.mpr hlexeme⟩
  last token htoken := by
    have hkind := h.last token htoken
    obtain ⟨finish, hfinish, _⟩ := h.stands le_rfl ⟨htoken, hkind⟩
    rw [Nat.zero_add]
    exact ⟨hkind, .of_stands hfinish (by decide)⟩

/-! ## Expressions that are read -/

theorem term (h : Aligned s s' stop) {expr : Expr} (hread : Reads g s .term i j expr) (hi : i ≤ stop) :
    j ≤ stop ∧ ∃ expr', expr.Alike (· = ·) expr' ∧ Reads g s' .term i j expr' := by
  simpa [Goal.Moves] using hread.moved h.copied hi

theorem chain (h : Aligned s s' stop) {least : UInt64} {expr : Expr}
    (hread : Reads g s (.chain least) i j expr) (hi : i ≤ stop) :
    j ≤ stop ∧ ∃ expr', expr.Alike (· = ·) expr' ∧ Reads g s' (.chain least) i j expr' := by
  simpa [Goal.Moves] using hread.moved h.copied hi

end Aligned

/-! ## Rules that stop -/

/-- The goal stops alike in the other stream, whatever expressions were read before it. -/
def Goal.StopsAlike (g : Grammar) (s s' : Nat → Lexed) (stop : Nat) (goal : Goal) (i : Nat)
    (why : SyntaxFailure) : Prop :=
  match goal with
  | .extend least _ => ∀ lhs', ∃ why', SameFailure s s' stop why why' ∧
      Fails g s' (.extend least lhs') i why'
  | .arguments _ _ => ∀ name' args', ∃ why', SameFailure s s' stop why why' ∧
      Fails g s' (.arguments name' args') i why'
  | goal => ∃ why', SameFailure s s' stop why why' ∧ Fails g s' goal i why'

theorem Fails.aligned (h : Aligned s s' stop) {goal : Goal} {why : SyntaxFailure}
    (hfails : Fails g s goal i why) (hi : i ≤ stop) : goal.StopsAlike g s s' stop i why := by
  -- A token that is passed is not the end, so that reading stays before the end.  What was read before the
  -- rule stopped is read from the other items too, up to places.
  induction hfails with
  | chainFirst _ ih =>
    obtain ⟨why', hsame, hfirst⟩ := ih hi
    exact ⟨why', hsame, .chainFirst hfirst⟩
  | chainRest first _ ih =>
    obtain ⟨hj, lhs', _, hfirst⟩ := h.term first hi
    obtain ⟨why', hsame, hrest⟩ := ih hj lhs'
    exact ⟨why', hsame, .chainRest hfirst hrest⟩
  | extendChar hchar =>
    obtain ⟨span', hchar', hsame⟩ := h.char hi hchar
    exact fun lhs' => ⟨_, .refused hsame, .extendChar hchar'⟩
  | extendOverflow htoken hjoins hinner =>
    obtain ⟨_, token', htoken', hjoins'⟩ := h.join hi htoken hjoins
    exact fun lhs' => ⟨_, .overflow, .extendOverflow htoken' hjoins' hinner⟩
  | extendOperand htoken hjoins hinner _ ih =>
    obtain ⟨hlt, token', htoken', hjoins'⟩ := h.join hi htoken hjoins
    obtain ⟨why', hsame, hoperand⟩ := ih hlt
    exact fun lhs' => ⟨why', hsame, .extendOperand htoken' hjoins' hinner hoperand⟩
  | extendRest htoken hjoins hinner operand _ ih =>
    intro lhs'
    obtain ⟨hlt, token', htoken', hjoins'⟩ := h.join hi htoken hjoins
    obtain ⟨hj, rhs', _, hoperand⟩ := h.chain operand hlt
    obtain ⟨why', hsame, hrest⟩ := ih hj (binaryOf lhs' token' _ rhs')
    exact ⟨why', hsame, .extendRest htoken' hjoins' hinner hoperand hrest⟩
  | termChar hchar =>
    obtain ⟨span', hchar', hsame⟩ := h.char hi hchar
    exact ⟨_, .refused hsame, .termChar hchar'⟩
  | termNumber htoken hvalue =>
    obtain ⟨token', htoken', htext⟩ := h.stands hi htoken
    have hvalue' : Decimal.ofText? token'.text = .error _ := htext ▸ hvalue
    exact ⟨.refused ⟨token'.span, .malformedNumber⟩, .refused ⟨rfl, _, hi,
      htoken.1 ▸ .number htoken.2 hvalue, htoken'.1 ▸ .number htoken'.2 hvalue'⟩,
      .termNumber htoken' hvalue'⟩
  | termNextChar htoken hchar =>
    obtain ⟨hlt, token', htoken', _⟩ := h.stands_lt hi htoken (by decide)
    obtain ⟨span', hchar', hsame⟩ := h.char hlt hchar
    exact ⟨_, .refused hsame, .termNextChar htoken' hchar'⟩
  | termCall htoken hopening _ ih =>
    obtain ⟨hlt, token', htoken', _⟩ := h.stands_lt hi htoken (by decide)
    obtain ⟨opening', hopening', _⟩ := h.stands hlt hopening
    obtain ⟨why', hsame, hcall⟩ := ih hi
    exact ⟨why', hsame, .termCall htoken' hopening' hcall⟩
  | termParen htoken _ ih =>
    obtain ⟨token', htoken', _⟩ := h.stands hi htoken
    obtain ⟨why', hsame, hparen⟩ := ih hi
    exact ⟨why', hsame, .termParen htoken' hparen⟩
  | termUnary htoken _ ih =>
    obtain ⟨token', htoken', _⟩ := h.stands hi htoken
    obtain ⟨why', hsame, hunary⟩ := ih hi
    exact ⟨why', hsame, .termUnary htoken' hunary⟩
  | termNone htoken hstarts =>
    obtain ⟨token', htoken', hkind, _⟩ := h.item hi htoken
    exact ⟨_, .refused (.token (fun _ => rfl) hi htoken htoken' hkind),
      .termNone htoken' (by rwa [startsNoTerm, ← hkind])⟩
  | callName hname =>
    obtain ⟨error', hsame, hname'⟩ := h.missing hi hname
    exact ⟨_, .refused hsame, .callName hname'⟩
  | callOpening hname hopening =>
    obtain ⟨hlt, name', hname', _⟩ := h.stands_lt hi hname (by decide)
    obtain ⟨error', hsame, hopening'⟩ := h.missing hlt hopening
    exact ⟨_, .refused hsame, .callOpening hname' hopening'⟩
  | callChar hname hopening hchar =>
    obtain ⟨hlt, name', opening', hname', hopening', _⟩ :=
      h.stands_pair hi hname hopening (by decide) (by decide)
    obtain ⟨span', hchar', hsame⟩ := h.char hlt hchar
    exact ⟨_, .refused hsame, .callChar hname' hopening' hchar'⟩
  | callFirst hname hopening hnext hkind _ ih =>
    obtain ⟨hlt, name', opening', hname', hopening', _⟩ :=
      h.stands_pair hi hname hopening (by decide) (by decide)
    obtain ⟨next', hnext', hkind', _⟩ := h.item hlt hnext
    obtain ⟨why', hsame, hargument⟩ := ih hlt
    exact ⟨why', hsame, .callFirst hname' hopening' hnext' (hkind' ▸ hkind) hargument⟩
  | callRest hname hopening argument _ ih =>
    obtain ⟨hlt, name', opening', hname', hopening', _⟩ :=
      h.stands_pair hi hname hopening (by decide) (by decide)
    obtain ⟨hj, first', _, hargument⟩ := h.chain argument hlt
    obtain ⟨why', hsame, hrest⟩ := ih hj name' [first']
    exact ⟨why', hsame, .callRest hname' hopening' hargument hrest⟩
  | nextArgument hcomma _ ih =>
    obtain ⟨hlt, comma', hcomma', _⟩ := h.stands_lt hi hcomma (by decide)
    obtain ⟨why', hsame, hargument⟩ := ih hlt
    exact fun name' args' => ⟨why', hsame, .nextArgument hcomma' hargument⟩
  | nextRest hcomma argument _ ih =>
    intro name' args'
    obtain ⟨hlt, comma', hcomma', _⟩ := h.stands_lt hi hcomma (by decide)
    obtain ⟨hj, arg', _, hargument⟩ := h.chain argument hlt
    obtain ⟨why', hsame, hrest⟩ := ih hj name' (args' ++ [arg'])
    exact ⟨why', hsame, .nextRest hcomma' hargument hrest⟩
  | @close i _ _ _ hcomma hclosing =>
    obtain ⟨error', hsame, hclosing'⟩ := h.missing hi hclosing
    refine fun name' args' => ⟨_, .refused hsame, .close (fun comma' hcomma' => ?_) hclosing'⟩
    cases hitem : s i with
    | error span =>
      obtain ⟨span', hchar, _⟩ := h.char hi hitem
      cases hchar.symm.trans hcomma'.1
    | ok token =>
      obtain ⟨token', htoken', hkind, _⟩ := h.item hi hitem
      obtain rfl := Except.ok.inj (htoken'.symm.trans hcomma'.1)
      exact hcomma token ⟨hitem, hkind.trans hcomma'.2⟩
  | parenOpening hopening =>
    obtain ⟨error', hsame, hopening'⟩ := h.missing hi hopening
    exact ⟨_, .refused hsame, .parenOpening hopening'⟩
  | parenInner hopening _ ih =>
    obtain ⟨hlt, opening', hopening', _⟩ := h.stands_lt hi hopening (by decide)
    obtain ⟨why', hsame, hexpression⟩ := ih hlt
    exact ⟨why', hsame, .parenInner hopening' hexpression⟩
  | parenClosing hopening expression hclosing =>
    obtain ⟨hlt, opening', hopening', _⟩ := h.stands_lt hi hopening (by decide)
    obtain ⟨hj, inner', _, hexpression⟩ := h.chain expression hlt
    obtain ⟨error', hsame, hclosing'⟩ := h.missing hj hclosing
    exact ⟨_, .refused hsame, .parenClosing hopening' hexpression hclosing'⟩
  | unaryChar hchar =>
    obtain ⟨span', hchar', hsame⟩ := h.char hi hchar
    exact ⟨_, .refused hsame, .unaryChar hchar'⟩
  | unarySign htoken hop =>
    obtain ⟨token', htoken', hkind, htext⟩ := h.item hi htoken
    exact ⟨_, .refused (.token (fun _ => rfl) hi htoken htoken' hkind),
      .unarySign htoken' (unaryOp?_congr hkind htext ▸ hop)⟩
  | unaryNextChar htoken hop hchar =>
    obtain ⟨hlt, token', htoken', hop'⟩ := h.sign hi htoken hop
    obtain ⟨span', hchar', hsame⟩ := h.char hlt hchar
    exact ⟨_, .refused hsame, .unaryNextChar htoken' hop' hchar'⟩
  | unaryOperand htoken hop hnext hstarts =>
    obtain ⟨hlt, token', htoken', hop'⟩ := h.sign hi htoken hop
    obtain ⟨next', hnext', hkind, _⟩ := h.item hlt hnext
    exact ⟨_, .refused (.token (fun _ => rfl) hlt hnext hnext' hkind),
      .unaryOperand htoken' hop' hnext' (by rwa [Parser.startsOperand, ← hkind])⟩
  | unaryTerm htoken hop hnext hstarts _ ih =>
    obtain ⟨hlt, token', htoken', hop'⟩ := h.sign hi htoken hop
    obtain ⟨next', hnext', hkind, _⟩ := h.item hlt hnext
    obtain ⟨why', hsame, hterm⟩ := ih hlt
    have hstarts' : Parser.startsOperand next' = true := by rwa [Parser.startsOperand, ← hkind]
    exact ⟨why', hsame, .unaryTerm htoken' hop' hnext' hstarts' hterm⟩

/-! ## Statements -/

theorem ReadsWhole.aligned (h : Aligned s s' stop) {statement : Statement}
    (hwhole : ReadsWhole g s statement) :
    ∃ statement', statement.Alike (· = ·) statement' ∧ ReadsWhole g s' statement' := by
  cases hwhole with
  | expression expression hfinish =>
    obtain ⟨hj, expr', halike, hexpression⟩ := h.chain expression (Nat.zero_le stop)
    obtain ⟨finish', hfinish', _⟩ := h.stands hj hfinish
    exact ⟨.expression expr', halike, .expression hexpression hfinish'⟩
  | assignment htarget hequals expression hfinish =>
    obtain ⟨hlt, target', equals', htarget', hequals', htext⟩ :=
      h.stands_pair (Nat.zero_le stop) htarget hequals (by decide) (by decide)
    obtain ⟨hj, expr', halike, hexpression⟩ := h.chain expression hlt
    obtain ⟨finish', hfinish', _⟩ := h.stands hj hfinish
    exact ⟨.assignment (target'.span.unite expr'.span) ⟨target'.span, target'.text⟩ expr',
      ⟨htext, halike⟩, .assignment htarget' hequals' hexpression hfinish'⟩

theorem NoExpression.aligned (h : Aligned s s' stop) {why : SyntaxFailure}
    (hno : NoExpression g s why) :
    ∃ why', SameFailure s s' stop why why' ∧ NoExpression g s' why' := by
  cases hno with
  | expression expression =>
    obtain ⟨why', hsame, hexpression⟩ := expression.aligned h (Nat.zero_le stop)
    exact ⟨why', hsame, .expression hexpression⟩
  | finish expression hfinish =>
    obtain ⟨hj, expr', _, hexpression⟩ := h.chain expression (Nat.zero_le stop)
    obtain ⟨error', hsame, hfinish'⟩ := h.missing hj hfinish
    exact ⟨_, .refused hsame, .finish hexpression hfinish'⟩

theorem NoAssignment.aligned (h : Aligned s s' stop) {why : SyntaxFailure}
    (hno : NoAssignment g s why) :
    ∃ why', SameFailure s s' stop why why' ∧ NoAssignment g s' why' := by
  cases hno with
  | target htarget =>
    obtain ⟨error', hsame, htarget'⟩ := h.missing (Nat.zero_le stop) htarget
    exact ⟨_, .refused hsame, .target htarget'⟩
  | equals htarget hequals =>
    obtain ⟨hlt, target', htarget', _⟩ := h.stands_lt (Nat.zero_le stop) htarget (by decide)
    obtain ⟨error', hsame, hequals'⟩ := h.missing hlt hequals
    exact ⟨_, .refused hsame, .equals htarget' hequals'⟩
  | expression htarget hequals expression =>
    obtain ⟨hlt, target', equals', htarget', hequals', _⟩ :=
      h.stands_pair (Nat.zero_le stop) htarget hequals (by decide) (by decide)
    obtain ⟨why', hsame, hexpression⟩ := expression.aligned h hlt
    exact ⟨why', hsame, .expression htarget' hequals' hexpression⟩
  | finish htarget hequals expression hfinish =>
    obtain ⟨hlt, target', equals', htarget', hequals', _⟩ :=
      h.stands_pair (Nat.zero_le stop) htarget hequals (by decide) (by decide)
    obtain ⟨hj, expr', _, hexpression⟩ := h.chain expression hlt
    obtain ⟨error', hsame, hfinish'⟩ := h.missing hj hfinish
    exact ⟨_, .refused hsame, .finish htarget' hequals' hexpression hfinish'⟩

/-! ## The alternative that got further -/

section Items

variable {items items' : List Lexed}

/-- Errors about tokens stand in one order in both streams. -/
theorem SameBlame.offset_lt_iff (hordered : items.Pairwise Lexed.Before)
    (hordered' : items'.Pairwise Lexed.Before) (hstop : stop < items.length)
    (hstop' : stop < items'.length) {other other' : Located SyntaxError}
    (h : SameBlame (itemAt items) (itemAt items') stop error error')
    (hother : SameBlame (itemAt items) (itemAt items') stop other other')
    (hlexical : error.val.isLexical = false) (hlexical' : other.val.isLexical = false) :
    error.span.offset < other.span.offset ↔ error'.span.offset < other'.span.offset := by
  obtain ⟨hval, k, hk, hblames, hblames'⟩ := h
  obtain ⟨hval', l, hl, hblamesOther, hblamesOther'⟩ := hother
  obtain ⟨token, htoken, hspan⟩ := hblames.token_of hlexical
  obtain ⟨token', htoken', hspan'⟩ := hblames'.token_of (hval ▸ hlexical)
  obtain ⟨found, hfound, hplace⟩ := hblamesOther.token_of hlexical'
  obtain ⟨found', hfound', hplace'⟩ := hblamesOther'.token_of (hval' ▸ hlexical')
  rw [hspan, hspan', hplace, hplace']
  calc token.span.offset < found.span.offset
      ↔ k < l := Reading.offset_lt_iff hordered (by omega) (by omega) htoken hfound
    _ ↔ token'.span.offset < found'.span.offset :=
      (Reading.offset_lt_iff hordered' (by omega) (by omega) htoken' hfound').symm

theorem Unread.aligned (hordered : items.Pairwise Lexed.Before)
    (hordered' : items'.Pairwise Lexed.Before) (hstop : stop < items.length)
    (hstop' : stop < items'.length) (h : Aligned (itemAt items) (itemAt items') stop)
    {why : SyntaxFailure} (hunread : Unread g (itemAt items) why) :
    ∃ why', SameFailure (itemAt items) (itemAt items') stop why why' ∧
      Unread g (itemAt items') why' := by
  cases hunread with
  | fatal expression hfatal =>
    obtain ⟨why', hsame, hexpression⟩ := expression.aligned h
    exact ⟨why', hsame, .fatal hexpression (hsame.isFatal_eq ▸ hfatal)⟩
  | assignmentFatal expression hexpression assignment hfatal =>
    obtain ⟨_, hother, hno⟩ := expression.aligned h
    obtain ⟨other', rfl, hblame⟩ := hother.of_refused
    obtain ⟨why', hsame, hassignment⟩ := assignment.aligned h
    exact ⟨why', hsame, .assignmentFatal hno (hblame.1 ▸ hexpression) hassignment
      (hsame.isFatal_eq ▸ hfatal)⟩
  | neither expression hexpression assignment hassignment =>
    obtain ⟨_, hother, hno⟩ := expression.aligned h
    obtain ⟨first', rfl, hfirst⟩ := hother.of_refused
    obtain ⟨_, hother', hno'⟩ := assignment.aligned h
    obtain ⟨second', rfl, hsecond⟩ := hother'.of_refused
    have hoffset := hfirst.offset_lt_iff hordered hordered' hstop hstop' hsecond hexpression hassignment
    refine ⟨_, .refused ?_, .neither hno (hfirst.1 ▸ hexpression) hno' (hsecond.1 ▸ hassignment)⟩
    simp only [hoffset]
    split
    · exact hsecond
    · exact hfirst

/-! ## Texts -/

theorem aligned_itemAt (hended : Ended items)
    (h : items.map Lexed.lexeme? = items'.map Lexed.lexeme?) :
    Aligned (itemAt items) (itemAt items') (items.length - 1) where
  lexeme_eq i hi := by
    have hpos : 0 < items.length := List.length_pos_iff.mpr hended.ne_nil
    have hlength : items.length = items'.length := by simpa using congrArg List.length h
    have hlt : i < items.length := by omega
    have hlt' : i < items'.length := by omega
    have hitem := congrArg (·[i]?) h
    simpa [itemAt_eq_getElem (List.getElem?_eq_getElem hlt),
      itemAt_eq_getElem (List.getElem?_eq_getElem hlt'), hlt, hlt'] using hitem
  before i hi := hended.token_of_lt (by omega)
  last token htoken := by
    by_contra hkind
    have hlt := hended.lt_length htoken hkind
    omega

end Items

/-- Of two texts that are cut into the same lexemes, with any blanks between these, either both are read as
statements that are alike up to their places, or both are refused for the same reason at the item with the
same number, or a priority overflows in both.  This holds for all priorities of operators. -/
theorem parse?_of_lexemes_eq {source source' : List Char}
    (h : (tokenize source).map Lexed.lexeme? = (tokenize source').map Lexed.lexeme?) (g : Grammar) :
    (∃ statement statement' : Statement, Statement.parse? g source = .ok statement ∧
      Statement.parse? g source' = .ok statement' ∧ statement.Alike (· = ·) statement') ∨
    (∃ (error error' : Located SyntaxError) (k : Nat) (item item' : Lexed),
      Statement.parse? g source = .error (.refused error) ∧
      Statement.parse? g source' = .error (.refused error') ∧ error.val = error'.val ∧
      (tokenize source)[k]? = some item ∧ (tokenize source')[k]? = some item' ∧
      error.span = placeOf item ∧ error'.span = placeOf item') ∨
    (Statement.parse? g source = .error .overflow ∧ Statement.parse? g source' = .error .overflow) := by
  have haligned := aligned_itemAt (ended_tokenize source) h
  have hpos : 0 < (tokenize source).length := List.length_pos_iff.mpr (ended_tokenize source).ne_nil
  have hlength : (tokenize source).length = (tokenize source').length := by
    simpa using congrArg List.length h
  cases hparse : Statement.parse? g source with
  | ok statement =>
    obtain ⟨statement', halike, hwhole⟩ := (parse?_eq_ok_iff.mp hparse).aligned haligned
    exact .inl ⟨statement, statement', rfl, parse?_eq_ok_iff.mpr hwhole, halike⟩
  | error why =>
    obtain ⟨why', hsame, hunread⟩ :=
      (parse?_eq_error_iff.mp hparse).aligned (pairwise_tokenize source) (pairwise_tokenize source')
        (by omega) (by omega) haligned
    cases hsame with
    | overflow => exact .inr (.inr ⟨rfl, parse?_eq_error_iff.mpr hunread⟩)
    | @refused error error' hsame =>
      obtain ⟨hval, k, hk, hblames, hblames'⟩ := hsame
      have hitem := List.getElem?_eq_getElem (l := tokenize source) (i := k) (by omega)
      have hitem' := List.getElem?_eq_getElem (l := tokenize source') (i := k) (by omega)
      rw [itemAt_eq_getElem hitem] at hblames
      rw [itemAt_eq_getElem hitem'] at hblames'
      exact .inr (.inl ⟨error, error', k, _, _, rfl, parse?_eq_error_iff.mpr hunread, hval, hitem,
        hitem', hblames.span_eq, hblames'.span_eq⟩)

/-- An operator stands where a term should, in a text without blanks and in one with blanks and lines. -/
theorem parse?_of_lexemes_eq_of_lines :
    (tokenize "1+*2".toList).map Lexed.lexeme? = (tokenize " 1 +\n * 2".toList).map Lexed.lexeme? ∧
    Statement.parse? .default "1+*2".toList =
      .error (.refused ⟨⟨2, 1, 1⟩, .noViableAlternative .expression .operator⟩) ∧
    ∃ (error : Located SyntaxError) (k : Nat) (item : Lexed),
      Statement.parse? .default " 1 +\n * 2".toList = .error (.refused error) ∧
      error.val = .noViableAlternative .expression .operator ∧
      (tokenize " 1 +\n * 2".toList)[k]? = some item ∧ error.span = placeOf item := by
  have hlexemes : (tokenize "1+*2".toList).map Lexed.lexeme? =
      (tokenize " 1 +\n * 2".toList).map Lexed.lexeme? := by cbv
  have hparse : Statement.parse? .default "1+*2".toList =
      .error (.refused ⟨⟨2, 1, 1⟩, .noViableAlternative .expression .operator⟩) := by cbv
  refine ⟨hlexemes, hparse, ?_⟩
  rcases parse?_of_lexemes_eq hlexemes .default with
    ⟨_, _, hok, _, _⟩ | ⟨error, error', k, item, item', herror, herror', hval, _, hitem', _, hspan'⟩ |
    ⟨hoverflow, _⟩
  · cases hparse.symm.trans hok
  · obtain rfl := Failure.refused.inj (Except.error.inj (hparse.symm.trans herror))
    exact ⟨error', k, item', herror', hval.symm, hitem', hspan'⟩
  · cases hparse.symm.trans hoverflow

end Reading

end Abacus
