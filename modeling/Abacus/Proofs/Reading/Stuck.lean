import Abacus.Proofs.Reading.Viable

/-!
# Where a rule stops

A rule that stops is stuck at an item, the one that its error is about.  The tokens that it read before
can be gone on with, and if the item is a literal that is no decimal, then with a literal in its place.
Otherwise no token of the same kind can take its place: what a rule does depends on no item behind the
one at which it stops, and of that one only on its kind and on the operation that it writes
(`Reads.agrees`, `Stuck.frame`).

There is one lemma for each way in which a part of a goal is met.  The main statement is `Fails.stuck`.
-/

namespace Abacus.Reading

open Abacus.Parser

variable {g : Grammar} {s s' : Nat → Lexed} {goal goal' : Goal} {i j k : Nat}
  {error : Located SyntaxError}

/-! ## The item that an error is about -/

/-- The error is about the item. -/
inductive Blames : Located SyntaxError → Lexed → Prop
  | char (span : Span) : Blames ⟨span, .unexpectedChar⟩ (.error span)
  | number {token : Token} {why : LiteralError} (hkind : token.kind = .number)
      (hvalue : Decimal.ofText? token.text = .error why) :
      Blames ⟨token.span, .malformedNumber⟩ (.ok token)
  | token (token : Token) {error : SyntaxError} (hlexical : error.isLexical = false) :
      Blames ⟨token.span, error⟩ (.ok token)

/-- Where an item stands. -/
def placeOf : Lexed → Span
  | .ok token => token.span
  | .error span => span

theorem Blames.span_eq {item : Lexed} (h : Blames error item) : error.span = placeOf item := by
  cases h <;> rfl

/-- An error that is not lexical is about a token, at the place of which it is. -/
theorem Blames.token_of {item : Lexed} (h : Blames error item) (hlexical : error.val.isLexical = false) :
    ∃ token, item = .ok token ∧ error.span = token.span := by
  cases h with
  | char | number => cases hlexical
  | token token => exact ⟨token, rfl, rfl⟩

/-- What can stand in the place of the item that an error is about: a literal, if the error is about one
that is no decimal. -/
def Fits (error : SyntaxError) (middle : List Token) : Prop :=
  middle = [] ∨ error = .malformedNumber ∧ middle = [someNumber]

theorem Fits.eq_nil {middle : List Token} {error : SyntaxError} (h : Fits error middle)
    (herror : error ≠ .malformedNumber) : middle = [] :=
  h.resolve_right fun hnumber => herror hnumber.1

theorem missing?_blames {kind : TokenKind} {context : Context} {item : Lexed}
    (h : missing? kind context item = some error) :
    Blames error item ∧ error.val ≠ .malformedNumber := by
  cases item with
  | error span =>
    obtain rfl := Option.some.inj h
    exact ⟨.char span, by simp⟩
  | ok token =>
    obtain ⟨_, hsome⟩ := Option.ite_none_left_eq_some.mp h
    obtain rfl := Option.some.inj hsome
    exact ⟨.token token rfl, by simp⟩

/-! ## Items that a rule does not tell apart -/

/-- The items are the same up to item `k`, where there is a token of the same kind on both sides, and the
same operation if it is one. -/
structure Agrees (s s' : Nat → Lexed) (k : Nat) : Prop where
  before : ∀ l < k, s' l = s l
  last : ∃ token token', s k = .ok token ∧ s' k = .ok token' ∧ token'.kind = token.kind ∧
    binaryOp? token' = binaryOp? token

namespace Agrees

theorem item (h : Agrees s s' k) (hi : i ≤ k) {token : Token} (htoken : s i = .ok token) :
    ∃ token', s' i = .ok token' ∧ token'.kind = token.kind ∧ binaryOp? token' = binaryOp? token := by
  rcases Nat.lt_or_eq_of_le hi with hlt | rfl
  · exact ⟨token, (h.before i hlt).trans htoken, rfl, rfl⟩
  · obtain ⟨found, token', hfound, htoken', hsame⟩ := h.last
    obtain rfl := Except.ok.inj (htoken.symm.trans hfound)
    exact ⟨token', htoken', hsame⟩

theorem stands (h : Agrees s s' k) (hi : i < k) {kind : TokenKind} {token : Token}
    (htoken : Stands s i kind token) : Stands s' i kind token :=
  ⟨(h.before i hi).trans htoken.1, htoken.2⟩

theorem missing (h : Agrees s s' k) {kind : TokenKind} {context : Context}
    (hmissing : missing? kind context (s k) = some error) :
    ∃ error', error'.val.isLexical = false ∧ missing? kind context (s' k) = some error' := by
  obtain ⟨token, token', htoken, htoken', hkind, _⟩ := h.last
  rw [htoken] at hmissing
  obtain ⟨hother, _⟩ := Option.ite_none_left_eq_some.mp hmissing
  rw [htoken', missing?, if_neg (hkind ▸ hother)]
  exact ⟨_, rfl, rfl⟩

theorem joins (h : Agrees s s' k) (hi : i ≤ k) {token : Token} (htoken : s i = .ok token)
    (least : UInt64) : ∃ token', s' i = .ok token' ∧ joins? g least token' = joins? g least token := by
  obtain ⟨token', htoken', _, hop⟩ := h.item hi htoken
  exact ⟨token', htoken', by rw [joins?, joins?, hop]⟩

end Agrees

/-- What is read depends on no item behind the one at which the reading ends. -/
theorem Reads.agrees {expr : Expr} (h : Reads g s goal i j expr) (hagrees : Agrees s s' k)
    (hj : j ≤ k) : Reads g s' goal i j expr := by
  induction h with
  | chain _ rest ihfirst ihrest =>
    have hle := rest.progress
    exact .chain (ihfirst (hle.trans hj)) (ihrest hj)
  | done htoken hjoins =>
    obtain ⟨token', htoken', hjoins'⟩ := hagrees.joins hj htoken _
    exact .done htoken' (hjoins'.trans hjoins)
  | join htoken hjoins hinner operand rest ihoperand ihrest =>
    have hlt := operand.progress
    have hle := rest.progress
    dsimp only at hlt hle
    exact .join ((hagrees.before _ (by omega)).trans htoken) hjoins hinner (ihoperand (by omega))
      (ihrest hj)
  | number htoken hvalue => exact .number (hagrees.stands (by omega) htoken) hvalue
  | var htoken hnext hkind =>
    obtain ⟨next', hnext', hkind', _⟩ := hagrees.item hj hnext
    exact .var (hagrees.stands (by omega) htoken) hnext' (hkind' ▸ hkind)
  | called _ ih => exact .called (ih hj)
  | grouped _ ih => exact .grouped (ih hj)
  | signed _ ih => exact .signed (ih hj)
  | callEmpty hname hopening hclosing =>
    exact .callEmpty (hagrees.stands (by omega) hname) (hagrees.stands (by omega) hopening)
      (hagrees.stands (by omega) hclosing)
  | callFirst hname hopening argument rest ihargument ihrest =>
    have hlt := argument.progress
    have hle := rest.progress
    dsimp only at hlt hle
    exact .callFirst (hagrees.stands (by omega) hname) (hagrees.stands (by omega) hopening)
      (ihargument (by omega)) (ihrest hj)
  | next hcomma argument rest ihargument ihrest =>
    have hlt := argument.progress
    have hle := rest.progress
    dsimp only at hlt hle
    exact .next (hagrees.stands (by omega) hcomma) (ihargument (by omega)) (ihrest hj)
  | close hclosing => exact .close (hagrees.stands (by omega) hclosing)
  | paren hopening expression hclosing ih =>
    have hlt := expression.progress
    dsimp only at hlt
    exact .paren (hagrees.stands (by omega) hopening) (ih (by omega))
      (hagrees.stands (by omega) hclosing)
  | unary htoken hop hnext hstarts term ih =>
    have hlt := term.progress
    dsimp only at hlt
    exact .unary ((hagrees.before _ (by omega)).trans htoken) hop
      ((hagrees.before _ (by omega)).trans hnext) hstarts (ih hj)

/-! ## Where a rule stops -/

/-- The tokens that are known to stand where the goal is met. -/
def Goal.Entered (goal : Goal) (s : Nat → Lexed) (i : Nat) : Prop :=
  match goal with
  | .call => (∃ name, Stands s i .ident name) ∧ ∃ opening, Stands s (i + 1) .leftParen opening
  | .paren => ∃ opening, Stands s i .leftParen opening
  | .unary => ∃ sign, Stands s i .sign sign
  | .chain _ | .extend _ _ | .term | .arguments _ _ => True

/-- The first item that an error of a goal met at item `i` can be about. -/
def Goal.entry (goal : Goal) (i : Nat) : Nat :=
  match goal with
  | .chain _ | .extend _ _ | .term | .arguments _ _ => i
  | .paren | .unary => i + 1
  | .call => i + 2

/-- The goal stops at item `k`, which its error is about, behind tokens that can be gone on with.  It
stops there in all items that agree with these ones. -/
structure Stuck (g : Grammar) (s : Nat → Lexed) (goal : Goal) (i k : Nat)
    (error : Located SyntaxError) (front : List Token) : Prop where
  entry : goal.entry i ≤ k
  between : Between s i k front
  blames : Blames error (s k)
  begins : ∀ middle, Fits error.val middle → goal.Begins (front ++ middle)
  frame : error.val.isLexical = false → ∀ s', Agrees s s' k →
    ∃ error', error'.val.isLexical = false ∧ Fails g s' goal i (.refused error')

namespace Stuck

variable {front before : List Token}

/-- A goal stops where a part of it stops. -/
theorem lift {i' : Nat} (h : Stuck g s goal i k error front) (ending : List Token)
    (hbefore : Between s i' i before) (hentry : goal'.entry i' ≤ k)
    (hending : ∀ token ∈ ending, IsValid token)
    (hgoal : ∀ tokens, goal.Derived tokens → goal'.Derived (before ++ tokens ++ ending))
    (hframe : ∀ s' error', Agrees s s' k → Fails g s' goal i (.refused error') →
      Fails g s' goal' i' (.refused error')) :
    Stuck g s goal' i' k error (before ++ front) where
  entry := hentry
  between := hbefore.append h.between
  blames := h.blames
  begins middle hfits := by
    rw [List.append_assoc]
    exact (h.begins middle hfits).lift hending hgoal
  frame hlexical s' hagrees := by
    obtain ⟨error', hlexical', hfails⟩ := h.frame hlexical s' hagrees
    exact ⟨error', hlexical', hframe s' error' hagrees hfails⟩

/-- A goal stops at an item that no token of its kind can take the place of. -/
theorem here (hentry : goal.entry i ≤ k) (hbetween : Between s i k front)
    (hblames : Blames error (s k)) (hnumber : error.val ≠ .malformedNumber)
    (hbegins : goal.Begins front)
    (hframe : error.val.isLexical = false → ∀ s', Agrees s s' k →
      ∃ error', error'.val.isLexical = false ∧ Fails g s' goal i (.refused error')) :
    Stuck g s goal i k error front where
  entry := hentry
  between := hbetween
  blames := hblames
  begins middle hfits := by rwa [hfits.eq_nil hnumber, List.append_nil]
  frame := hframe

/-- A goal stops at a character that starts no token. -/
theorem char {span : Span} (hentry : goal.entry i ≤ k) (hbetween : Between s i k front)
    (hchar : s k = .error span) (hbegins : goal.Begins front) :
    Stuck g s goal i k ⟨span, .unexpectedChar⟩ front :=
  here hentry hbetween (hchar ▸ .char span) (by simp) hbegins fun hlexical => by cases hlexical

/-- A goal stops where it misses a token of some kind. -/
theorem missing {kind : TokenKind} {context : Context} (hentry : goal.entry i ≤ k)
    (hbetween : Between s i k front) (hmissing : missing? kind context (s k) = some error)
    (hbegins : goal.Begins front)
    (hframe : ∀ s' error', Agrees s s' k → missing? kind context (s' k) = some error' →
      Fails g s' goal i (.refused error')) :
    Stuck g s goal i k error front := by
  obtain ⟨hblames, hnumber⟩ := missing?_blames hmissing
  refine here hentry hbetween hblames hnumber hbegins fun _ s' hagrees => ?_
  obtain ⟨error', hlexical', hmissing'⟩ := hagrees.missing hmissing
  exact ⟨error', hlexical', hframe s' error' hagrees hmissing'⟩

end Stuck

/-! ## One lemma for each way to meet a part of a goal -/

theorem Goal.Begins.of_derived {front : List Token} (h : goal.Derived front) : goal.Begins front :=
  ⟨[], by rwa [List.append_nil], by simp⟩

theorem Between.binary {token : Token} {least : UInt64} {op : BinaryOp} (htoken : s i = .ok token)
    (hjoins : joins? g least token = some op) : IsBinary token ∧ Between s i (i + 1) [token] := by
  have hbinary : IsBinary token := binaryOp?_kind (joins?_binaryOp? hjoins)
  refine ⟨hbinary, .stands ⟨htoken, rfl⟩ ?_⟩
  rcases hbinary with h | h <;> simp [h]

namespace Stuck

variable {front : List Token} {token name opening : Token} {least least' : UInt64} {op : BinaryOp}
  {lhs rhs inner : Expr} {args : List Expr}

theorem chainFirst (h : Stuck g s .term i k error front) :
    Stuck g s (.chain least) i k error front := by
  refine h.lift [] (.nil s i) h.entry (by simp) (fun tokens hterm => ?_)
    fun _ _ _ hfails => .chainFirst hfails
  simpa [Goal.Derived] using Derives.expression hterm .noOperation

theorem extendOperand (htoken : s i = .ok token) (hjoins : joins? g least token = some op)
    (hinner : rightPriority? g op = some least')
    (h : Stuck g s (.chain least') (i + 1) k error front) :
    Stuck g s (.extend least lhs) i k error (token :: front) := by
  obtain ⟨hbinary, hbetween⟩ := Between.binary htoken hjoins
  have hk : i + 1 ≤ k := h.entry
  refine h.lift [] hbetween (Nat.le_of_succ_le hk) (by simp) (fun tokens hoperand => ?_)
    fun s' error' hagrees hfails => ?_
  · simpa [Goal.Derived] using Derives.operations_of_expression hbinary hoperand
  · exact .extendOperand ((hagrees.before i hk).trans htoken) hjoins hinner hfails

theorem termCall (hname : Stands s i .ident name) (hopening : Stands s (i + 1) .leftParen opening)
    (h : Stuck g s .call i k error front) : Stuck g s .term i k error front := by
  have hk : i + 2 ≤ k := h.entry
  refine h.lift [] (.nil s i) (by change i ≤ k; omega) (by simp) (fun tokens hcall => ?_)
    fun s' error' hagrees hfails => ?_
  · simpa [Goal.Derived] using Derives.unsigned (.called hcall)
  · exact .termCall (hagrees.stands (by omega) hname) (hagrees.stands hk hopening) hfails

theorem termParen (hopening : Stands s i .leftParen opening)
    (h : Stuck g s .paren i k error front) : Stuck g s .term i k error front := by
  have hk : i + 1 ≤ k := h.entry
  refine h.lift [] (.nil s i) (Nat.le_of_succ_le hk) (by simp) (fun tokens hparen => ?_)
    fun s' error' hagrees hfails => .termParen (hagrees.stands hk hopening) hfails
  simpa [Goal.Derived] using Derives.unsigned hparen

theorem termUnary (hsign : Stands s i .sign token) (h : Stuck g s .unary i k error front) :
    Stuck g s .term i k error front := by
  have hk : i + 1 ≤ k := h.entry
  refine h.lift [] (.nil s i) (Nat.le_of_succ_le hk) (by simp) (fun tokens hunary => ?_)
    fun s' error' hagrees hfails => .termUnary (hagrees.stands hk hsign) hfails
  simpa [Goal.Derived] using hunary

theorem callFirst (hname : Stands s i .ident name) (hopening : Stands s (i + 1) .leftParen opening)
    {next : Token} (hnext : s (i + 2) = .ok next) (hkind : next.kind ≠ .rightParen)
    (h : Stuck g s (.chain 0) (i + 2) k error front) :
    Stuck g s .call i k error (name :: opening :: front) := by
  have hk : i + 2 ≤ k := h.entry
  refine h.lift [someClosing] ((Between.stands hname (by decide)).append
    (.stands hopening (by decide))) hk (by simp [isValid_someClosing]) (fun tokens hargument => ?_)
    fun s' error' hagrees hfails => ?_
  · simpa [Goal.Derived] using Derives.call hname.2 hopening.2 hargument .noArgument rfl
  · obtain ⟨next', hnext', hkind', _⟩ := hagrees.item hk hnext
    exact .callFirst (hagrees.stands (by omega) hname) (hagrees.stands hk hopening) hnext'
      (hkind' ▸ hkind) hfails

theorem nextArgument (hcomma : Stands s i .comma token)
    (h : Stuck g s (.chain 0) (i + 1) k error front) :
    Stuck g s (.arguments name args) i k error (token :: front) := by
  have hk : i + 1 ≤ k := h.entry
  refine h.lift [someClosing] (.stands hcomma (by decide)) (Nat.le_of_succ_le hk)
    (by simp [isValid_someClosing]) (fun tokens hargument => ?_)
    fun s' error' hagrees hfails => .nextArgument (hagrees.stands hk hcomma) hfails
  exact ⟨token :: tokens, someClosing, rfl, rfl, by
    simpa using Derives.argument hcomma.2 hargument .noArgument⟩

theorem parenInner (hopening : Stands s i .leftParen opening)
    (h : Stuck g s (.chain 0) (i + 1) k error front) :
    Stuck g s .paren i k error (opening :: front) := by
  have hk : i + 1 ≤ k := h.entry
  refine h.lift [someClosing] (.stands hopening (by decide)) hk (by simp [isValid_someClosing])
    (fun tokens hinner => .grouped hopening.2 hinner rfl)
    fun s' error' hagrees hfails => .parenInner (hagrees.stands hk hopening) hfails

/-- A sign goes on with a term that starts with no sign, and if there is nothing of it with a name. -/
theorem unaryTerm (htoken : s i = .ok token) {sign : UnaryOp} (hop : unaryOp? token = some sign)
    {next : Token} (hnext : s (i + 1) = .ok next) (hstarts : startsOperand next = true)
    (h : Stuck g s .term (i + 1) k error front) :
    Stuck g s .unary i k error (token :: front) where
  entry := h.entry
  between := (Between.stands ⟨htoken, unaryOp?_kind hop⟩ (by decide)).append h.between
  blames := h.blames
  begins middle hfits := by
    -- `lift` does not apply: a term can begin with a sign, and a sign cannot follow a sign
    have hsign := unaryOp?_kind hop
    have hfirst : ∀ first rest, front ++ middle = first :: rest → first.kind ≠ .sign := by
      intro first rest heq
      cases front with
      | nil =>
        rcases hfits with rfl | ⟨_, rfl⟩
        · cases heq
        · obtain ⟨rfl, _⟩ := List.cons.inj heq
          decide
      | cons token front =>
        obtain ⟨rfl, _⟩ := List.cons.inj heq
        obtain rfl := Except.ok.inj (hnext.symm.trans h.between.uncons.1)
        intro hkind
        simp [startsOperand, hkind] at hstarts
    obtain ⟨more, hterm, hvalid⟩ := h.begins middle hfits
    rw [List.cons_append]
    cases hall : front ++ middle with
    | nil => exact ⟨[someName], .signed hsign derives_someName, by simp [isValid_someName]⟩
    | cons first rest =>
      rw [hall] at hterm
      exact ⟨more, .signed hsign (hterm.operand_of_term (hfirst first rest hall)), hvalid⟩
  frame hlexical s' hagrees := by
    have hk : i + 1 ≤ k := h.entry
    obtain ⟨error', hlexical', hfails⟩ := h.frame hlexical s' hagrees
    obtain ⟨next', hnext', hkind, _⟩ := hagrees.item hk hnext
    refine ⟨error', hlexical', .unaryTerm ((hagrees.before i hk).trans htoken) hop hnext' ?_ hfails⟩
    rwa [startsOperand, hkind]

section Read

variable {tokens : List Token}

theorem chainRest (first : Reads g s .term i j lhs) (hbetween : Between s i j tokens)
    (hterm : Derives .term tokens) (h : Stuck g s (.extend least lhs) j k error front) :
    Stuck g s (.chain least) i k error (tokens ++ front) := by
  have hk : j ≤ k := h.entry
  have hlt : i < j := first.progress
  refine h.lift [] hbetween (hlt.le.trans hk) (by simp) (fun others hothers => ?_)
    fun s' error' hagrees hfails => .chainRest (first.agrees hagrees hk) hfails
  simpa [Goal.Derived] using Derives.expression hterm hothers

theorem extendRest (htoken : s i = .ok token) (hjoins : joins? g least token = some op)
    (hinner : rightPriority? g op = some least') (operand : Reads g s (.chain least') (i + 1) j rhs)
    (hbetween : Between s (i + 1) j tokens) (hoperand : Derives .expression tokens)
    (h : Stuck g s (.extend least (binaryOf lhs token op rhs)) j k error front) :
    Stuck g s (.extend least lhs) i k error (token :: tokens ++ front) := by
  have hk : j ≤ k := h.entry
  have hlt : i + 1 < j := operand.progress
  obtain ⟨hbinary, hfirst⟩ := Between.binary htoken hjoins
  refine h.lift [] (hfirst.append hbetween) (by change i ≤ k; omega) (by simp)
    (fun others hothers => ?_) fun s' error' hagrees hfails => ?_
  · have hmore := (Derives.operations_of_expression hbinary hoperand).append_operations hothers
    simpa [Goal.Derived] using hmore
  · exact .extendRest ((hagrees.before i (by omega)).trans htoken) hjoins hinner
      (operand.agrees hagrees hk) hfails

theorem callRest (hname : Stands s i .ident name) (hopening : Stands s (i + 1) .leftParen opening)
    {first : Expr} (argument : Reads g s (.chain 0) (i + 2) j first)
    (hbetween : Between s (i + 2) j tokens) (hargument : Derives .expression tokens)
    (h : Stuck g s (.arguments name [first]) j k error front) :
    Stuck g s .call i k error (name :: opening :: tokens ++ front) := by
  have hk : j ≤ k := h.entry
  have hlt : i + 2 < j := argument.progress
  have hstart := (Between.stands hname (by decide)).append (.stands hopening (by decide))
  refine h.lift [] (hstart.append hbetween) (by change i + 2 ≤ k; omega) (by simp)
    (fun others hothers => ?_) fun s' error' hagrees hfails => ?_
  · obtain ⟨more, closing, rfl, hclosing, hfurther⟩ := hothers
    simpa [Goal.Derived] using Derives.call hname.2 hopening.2 hargument hfurther hclosing
  · exact .callRest (hagrees.stands (by omega) hname) (hagrees.stands (by omega) hopening)
      (argument.agrees hagrees hk) hfails

theorem nextRest (hcomma : Stands s i .comma token) {arg : Expr}
    (argument : Reads g s (.chain 0) (i + 1) j arg) (hbetween : Between s (i + 1) j tokens)
    (hargument : Derives .expression tokens)
    (h : Stuck g s (.arguments name (args ++ [arg])) j k error front) :
    Stuck g s (.arguments name args) i k error (token :: tokens ++ front) := by
  have hk : j ≤ k := h.entry
  have hlt : i + 1 < j := argument.progress
  refine h.lift [] ((Between.stands hcomma (by decide)).append hbetween) (by change i ≤ k; omega)
    (by simp) (fun others hothers => ?_) fun s' error' hagrees hfails => ?_
  · obtain ⟨more, closing, rfl, hclosing, hfurther⟩ := hothers
    exact ⟨token :: tokens ++ more, closing, by simp, hclosing,
      .argument hcomma.2 hargument hfurther⟩
  · exact .nextRest (hagrees.stands (by omega) hcomma) (argument.agrees hagrees hk) hfails

theorem parenClosing (hopening : Stands s i .leftParen opening)
    (expression : Reads g s (.chain 0) (i + 1) j inner) (hbetween : Between s (i + 1) j tokens)
    (hinner : Derives .expression tokens)
    (hclosing : missing? .rightParen .expression (s j) = some error) :
    Stuck g s .paren i j error (opening :: tokens) := by
  have hlt : i + 1 < j := expression.progress
  refine .missing hlt.le ((Between.stands hopening (by decide)).append hbetween) hclosing
    ⟨[someClosing], .grouped hopening.2 hinner rfl, by simp [isValid_someClosing]⟩
    fun s' error' hagrees hmissing => ?_
  exact .parenClosing (hagrees.stands (by omega) hopening) (expression.agrees hagrees le_rfl) hmissing

end Read

end Stuck

/-- A rule that stops with an error is stuck at an item. -/
theorem Fails.stuck (hspelled : ∀ i token, s i = .ok token → token.Spelled) {why : SyntaxFailure}
    (h : Fails g s goal i why) (hwhy : why = .refused error) :
    goal.Entered s i → ∃ k front, Stuck g s goal i k error front := by
  have hterm : Goal.term.Begins [] := ⟨[someName], .unsigned derives_someName, by
    simp [isValid_someName]⟩
  -- what stands where a goal is entered is known in the case of the goal around it
  induction h with
  | chainFirst _ ih =>
    intro _
    obtain ⟨k, front, h⟩ := ih hwhy trivial
    exact ⟨k, front, h.chainFirst⟩
  | chainRest first _ ih =>
    intro _
    obtain ⟨k, front, h⟩ := ih hwhy trivial
    obtain ⟨tokens, hbetween, hderives, _⟩ := first.derives hspelled
    exact ⟨k, _, h.chainRest first hbetween hderives⟩
  | extendChar hchar =>
    obtain rfl := Failure.refused.inj hwhy
    exact fun _ => ⟨_, [], .char le_rfl (.nil s _) hchar (.of_derived .noOperation)⟩
  | extendOverflow => cases hwhy
  | extendOperand htoken hjoins hinner _ ih =>
    intro _
    obtain ⟨k, front, h⟩ := ih hwhy trivial
    exact ⟨k, _, h.extendOperand htoken hjoins hinner⟩
  | extendRest htoken hjoins hinner operand _ ih =>
    intro _
    obtain ⟨k, front, h⟩ := ih hwhy trivial
    obtain ⟨tokens, hbetween, hderives, _⟩ := operand.derives hspelled
    exact ⟨k, _, h.extendRest htoken hjoins hinner operand hbetween hderives⟩
  | termChar hchar =>
    obtain rfl := Failure.refused.inj hwhy
    exact fun _ => ⟨_, [], .char le_rfl (.nil s _) hchar hterm⟩
  | @termNumber i token _ htoken hvalue =>
    obtain rfl := Failure.refused.inj hwhy
    intro _
    refine ⟨i, [], le_rfl, .nil s i, htoken.1 ▸ .number htoken.2 hvalue, fun middle hfits => ?_,
      fun hlexical => by cases hlexical⟩
    rcases hfits with rfl | ⟨_, rfl⟩
    · exact hterm
    · exact .of_derived (.unsigned derives_someNumber)
  | termNextChar hname hchar =>
    obtain rfl := Failure.refused.inj hwhy
    exact fun _ => ⟨_, [_], .char (Nat.le_succ _) (.stands hname (by decide)) hchar
      (.of_derived (.unsigned (.var hname.2)))⟩
  | termCall hname hopening _ ih =>
    intro _
    obtain ⟨k, front, h⟩ := ih hwhy ⟨⟨_, hname⟩, ⟨_, hopening⟩⟩
    exact ⟨k, front, h.termCall hname hopening⟩
  | termParen hopening _ ih =>
    intro _
    obtain ⟨k, front, h⟩ := ih hwhy ⟨_, hopening⟩
    exact ⟨k, front, h.termParen hopening⟩
  | termUnary hsign _ ih =>
    intro _
    obtain ⟨k, front, h⟩ := ih hwhy ⟨_, hsign⟩
    exact ⟨k, front, h.termUnary hsign⟩
  | termNone htoken hstarts =>
    obtain rfl := Failure.refused.inj hwhy
    intro _
    refine ⟨_, [], .here le_rfl (.nil s _) (htoken ▸ .token _ rfl) (by simp) hterm
      fun _ s' hagrees => ?_⟩
    obtain ⟨token', htoken', hkind, _⟩ := hagrees.item le_rfl htoken
    exact ⟨_, rfl, .termNone htoken' (by rwa [startsNoTerm, hkind])⟩
  | callName hmissing =>
    obtain rfl := Failure.refused.inj hwhy
    intro hentered
    obtain ⟨⟨name, hname⟩, _⟩ := hentered
    cases (hname.missing? _).symm.trans hmissing
  | callOpening _ hmissing =>
    obtain rfl := Failure.refused.inj hwhy
    intro hentered
    obtain ⟨_, opening, hopening⟩ := hentered
    cases (hopening.missing? _).symm.trans hmissing
  | callChar hname hopening hchar =>
    obtain rfl := Failure.refused.inj hwhy
    intro _
    have hstart := (Between.stands hname (by decide)).append (.stands hopening (by decide))
    exact ⟨_, _, .char le_rfl hstart hchar ⟨[someClosing], .callEmpty hname.2 hopening.2 rfl, by
      simp [isValid_someClosing]⟩⟩
  | callFirst hname hopening hnext hkind _ ih =>
    intro _
    obtain ⟨k, front, h⟩ := ih hwhy trivial
    exact ⟨k, _, h.callFirst hname hopening hnext hkind⟩
  | callRest hname hopening argument _ ih =>
    intro _
    obtain ⟨k, front, h⟩ := ih hwhy trivial
    obtain ⟨tokens, hbetween, hderives, _⟩ := argument.derives hspelled
    exact ⟨k, _, h.callRest hname hopening argument hbetween hderives⟩
  | nextArgument hcomma _ ih =>
    intro _
    obtain ⟨k, front, h⟩ := ih hwhy trivial
    exact ⟨k, _, h.nextArgument hcomma⟩
  | nextRest hcomma argument _ ih =>
    intro _
    obtain ⟨k, front, h⟩ := ih hwhy trivial
    obtain ⟨tokens, hbetween, hderives, _⟩ := argument.derives hspelled
    exact ⟨k, _, h.nextRest hcomma argument hbetween hderives⟩
  | close hcomma hclosing =>
    obtain rfl := Failure.refused.inj hwhy
    intro _
    refine ⟨_, [], .here le_rfl (.nil s _) (missing?_blames hclosing).1 (missing?_blames hclosing).2
      ⟨[someClosing], ⟨[], someClosing, rfl, rfl, .noArgument⟩, by simp [isValid_someClosing]⟩
      fun _ s' hagrees => ?_⟩
    obtain ⟨token, token', htoken, htoken', hkind, _⟩ := hagrees.last
    obtain ⟨error', hlexical', hclosing'⟩ := hagrees.missing hclosing
    refine ⟨error', hlexical', .close (fun comma hstands => ?_) hclosing'⟩
    obtain rfl := Except.ok.inj (htoken'.symm.trans hstands.1)
    exact hcomma token ⟨htoken, hkind.symm.trans hstands.2⟩
  | parenOpening hmissing =>
    obtain rfl := Failure.refused.inj hwhy
    intro hentered
    obtain ⟨opening, hopening⟩ := hentered
    cases (hopening.missing? _).symm.trans hmissing
  | parenInner hopening _ ih =>
    intro _
    obtain ⟨k, front, h⟩ := ih hwhy trivial
    exact ⟨k, _, h.parenInner hopening⟩
  | parenClosing hopening expression hclosing =>
    obtain rfl := Failure.refused.inj hwhy
    intro _
    obtain ⟨tokens, hbetween, hderives, _⟩ := expression.derives hspelled
    exact ⟨_, _, .parenClosing hopening expression hbetween hderives hclosing⟩
  | unaryChar hchar =>
    obtain rfl := Failure.refused.inj hwhy
    intro hentered
    obtain ⟨sign, hsign⟩ := hentered
    cases hchar.symm.trans hsign.1
  | unarySign htoken hop =>
    obtain rfl := Failure.refused.inj hwhy
    intro hentered
    obtain ⟨sign, hsign⟩ := hentered
    obtain rfl := Except.ok.inj (htoken.symm.trans hsign.1)
    obtain ⟨op, hsome, _⟩ := (hspelled _ _ htoken).unaryOp hsign.2
    cases hop.symm.trans hsome
  | unaryNextChar htoken hop hchar =>
    obtain rfl := Failure.refused.inj hwhy
    intro _
    have hsign := unaryOp?_kind hop
    exact ⟨_, [_], .char le_rfl (.stands ⟨htoken, hsign⟩ (by decide)) hchar
      ⟨[someName], .signed hsign derives_someName, by simp [isValid_someName]⟩⟩
  | unaryOperand htoken hop hnext hstarts =>
    obtain rfl := Failure.refused.inj hwhy
    intro _
    have hsign := unaryOp?_kind hop
    refine ⟨_, [_], .here le_rfl (.stands ⟨htoken, hsign⟩ (by decide)) (hnext ▸ .token _ rfl)
      (by simp) ⟨[someName], .signed hsign derives_someName, by simp [isValid_someName]⟩
      fun _ s' hagrees => ?_⟩
    obtain ⟨next', hnext', hkind, _⟩ := hagrees.item le_rfl hnext
    exact ⟨_, rfl, .unaryOperand ((hagrees.before _ (Nat.lt_succ_self _)).trans htoken) hop hnext'
      (by rwa [startsOperand, hkind])⟩
  | unaryTerm htoken hop hnext hstarts _ ih =>
    intro _
    obtain ⟨k, front, h⟩ := ih hwhy trivial
    exact ⟨k, _, h.unaryTerm htoken hop hnext hstarts⟩

end Abacus.Reading
