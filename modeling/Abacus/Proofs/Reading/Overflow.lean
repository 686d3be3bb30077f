import Abacus.Proofs.Reading.Grammar
import Abacus.Proofs.Registry

/-!
# Priorities that overflow

The right operand of an operation that groups to the left needs a priority above that of the operation.
Above the greatest word there is none, so reading gives up at such an operation.  It is met behind the
end of a term, where no sign stands; so the tokens alone tell whether reading gives up.

`Reads.isQuiet` and `Fails.overflowing` are about one goal, `Derives.parse?_iff` is about a statement of
the grammar.  The main statement is `parse?_ok_iff_derives`.
-/

namespace Abacus.Reading

open Abacus.Parser

/-- The greatest priority. -/
def topPriority : UInt64 := 18446744073709551615

/-- The operation groups to the left and has the greatest priority. -/
def AtTop (g : Grammar) (op : BinaryOp) : Prop := op ≠ .pow ∧ g.priority op = topPriority

/-- A term can end with the token. -/
def endsTerm (token : Token) : Bool :=
  match token.kind with
  | .number | .ident | .rightParen => true
  | _ => false

/-- Among the tokens, behind the end of a term, stands an operation of the greatest priority that groups
to the left. -/
def Overflows (g : Grammar) (tokens : List Token) : Prop :=
  ∃ last token op, [last, token] <:+: tokens ∧ endsTerm last = true ∧
    binaryOp? token = some op ∧ AtTop g op

mutual

/-- The operations on two operands in an expression. -/
def operations : Expr → List BinaryOp
  | .number .. | .var .. => []
  | .call _ _ args => operationsOf args
  | .unary _ _ operand => operations operand
  | .binary _ lhs op rhs => operations lhs ++ op.val :: operations rhs

/-- The operations on two operands in some arguments. -/
def operationsOf : List Expr → List BinaryOp
  | [] => []
  | arg :: args => operations arg ++ operationsOf args

end

variable {g : Grammar} {s : Nat → Lexed}

/-! ## The priority behind an operation -/

theorem rightPriority?_of_ne_pow {op : BinaryOp} (hop : op ≠ .pow) :
    rightPriority? g op =
      if (g.priority op).toNat + 1 < UInt64.size then some (g.priority op + 1) else none := by
  simp [rightPriority?, BinaryOp.isRightGrouping, hop]

theorem rightPriority?_pow : rightPriority? g .pow = some (g.priority .pow) := rfl

theorem toNat_succ_lt_size_iff {priority : UInt64} :
    priority.toNat + 1 < UInt64.size ↔ priority ≠ topPriority := by
  have hlt := priority.toNat_lt
  have htop : topPriority.toNat = 2 ^ 64 - 1 := rfl
  rw [ne_eq, ← UInt64.toNat_inj, htop, UInt64.size]
  omega

/-- Only an operation of the greatest priority leaves none for its right operand. -/
theorem rightPriority?_eq_none_iff {op : BinaryOp} : rightPriority? g op = none ↔ AtTop g op := by
  by_cases hop : op = .pow
  · subst hop
    simp [AtTop, rightPriority?_pow]
  · rw [rightPriority?_of_ne_pow hop, ite_eq_right_iff, AtTop, toNat_succ_lt_size_iff]
    simp [hop]

theorem exists_rightPriority? {op : BinaryOp} (h : ¬ AtTop g op) :
    ∃ inner, rightPriority? g op = some inner :=
  Option.ne_none_iff_exists'.mp (mt rightPriority?_eq_none_iff.mp h)

/-- The priorities that operations have without operators leave room above them. -/
theorem not_atTop_default (op : BinaryOp) : ¬ AtTop .default op := by
  intro htop
  have hne : Grammar.default.priority op ≠ topPriority := by cases op <;> decide
  exact hne htop.2

/-- So do those of the standard operators. -/
theorem not_atTop_standard (settings : Settings) (op : BinaryOp) :
    ¬ AtTop (Registry.standard settings).grammar op := by
  rw [AtTop, Registry.priority_standard]
  exact not_atTop_default op

/-- The priority that is left for the right operand is the next one. -/
theorem toNat_of_rightPriority? {op : BinaryOp} {inner : UInt64}
    (h : rightPriority? g op = some inner) :
    inner.toNat = if op = .pow then (g.priority op).toNat else (g.priority op).toNat + 1 := by
  by_cases hop : op = .pow
  · subst hop
    rw [rightPriority?_pow] at h
    rw [if_pos rfl, Option.some.inj h]
  · rw [rightPriority?_of_ne_pow hop] at h
    obtain ⟨hlt, hinner⟩ := Option.ite_none_right_eq_some.mp h
    rw [if_neg hop, ← Option.some.inj hinner, UInt64.toNat_add, UInt64.toNat_one]
    exact Nat.mod_eq_of_lt hlt

/-! ## Where operations stand -/

/-- The item before this one is the last token of a term. -/
def Behind (s : Nat → Lexed) (i : Nat) : Prop :=
  ∃ m last, i = m + 1 ∧ s m = .ok last ∧ endsTerm last = true

/-- Behind a term stands the operation. -/
def Joins (s : Nat → Lexed) (i : Nat) (op : BinaryOp) : Prop :=
  Behind s i ∧ ∃ token, s i = .ok token ∧ binaryOp? token = some op

/-- Behind a term stands an operation of the greatest priority. -/
def Overflowing (g : Grammar) (s : Nat → Lexed) (i : Nat) : Prop := ∃ op, Joins s i op ∧ AtTop g op

/-- What a goal needs to go on at an item: the rest of a chain needs a term before it. -/
def Goal.Continues (s : Nat → Lexed) (goal : Goal) (i : Nat) : Prop :=
  match goal with
  | .extend .. => Behind s i
  | _ => True

theorem Behind.of_stands {i : Nat} {kind : TokenKind} {token : Token} (h : Stands s i kind token)
    (hkind : kind ∈ [.number, .ident, .rightParen]) : Behind s (i + 1) := by
  refine ⟨i, token, rfl, h.1, ?_⟩
  simp only [List.mem_cons, List.not_mem_nil, or_false] at hkind
  rcases hkind with rfl | rfl | rfl <;> simp [endsTerm, h.2]

/-- What is read ends with the last token of a term. -/
theorem Reads.behind {goal : Goal} {i j : Nat} {expr : Expr} (h : Reads g s goal i j expr)
    (hgoal : goal.Continues s i) : Behind s j := by
  induction h with
  | chain _ _ first rest => exact rest (first trivial)
  | done _ _ => exact hgoal
  | join _ _ _ _ _ operand rest => exact rest (operand trivial)
  | number htoken _ | var htoken _ _ => exact .of_stands htoken (by decide)
  | called _ ih | grouped _ ih | signed _ ih | unary _ _ _ _ _ ih => exact ih trivial
  | callEmpty _ _ hclosing => exact .of_stands hclosing (by decide)
  | callFirst _ _ _ _ _ rest | next _ _ _ _ rest => exact rest trivial
  | close hclosing | paren _ _ hclosing _ => exact .of_stands hclosing (by decide)

theorem not_joins_of_before {m : Nat} {token : Token} (htoken : s m = .ok token)
    (hends : endsTerm token = false) {op : BinaryOp} : ¬ Joins s (m + 1) op := by
  rintro ⟨⟨n, last, heq, hlast, hends'⟩, _⟩
  obtain rfl : n = m := by omega
  obtain rfl : last = token := by simpa using hlast.symm.trans htoken
  simp [hends] at hends'

theorem not_joins_of_kind {i : Nat} {kind : TokenKind} {token : Token} (h : Stands s i kind token)
    (hkind : kind ≠ .sign ∧ kind ≠ .operator) {op : BinaryOp} : ¬ Joins s i op := by
  rintro ⟨_, token', htoken', hop⟩
  obtain rfl : token' = token := by simpa using htoken'.symm.trans h.1
  rcases binaryOp?_kind hop with hkind' | hkind' <;> simp_all [h.2]

theorem Joins.unique {i : Nat} {op : BinaryOp} (h : Joins s i op) {token : Token} {op' : BinaryOp}
    (htoken : s i = .ok token) (hop : binaryOp? token = some op') : op = op' := by
  obtain ⟨_, token', htoken', hop'⟩ := h
  obtain rfl : token' = token := by simpa using htoken'.symm.trans htoken
  exact Option.some.inj (hop'.symm.trans hop)

/-- From one item up to another reading gives up nowhere. -/
def Quiet (g : Grammar) (s : Nat → Lexed) (i j : Nat) : Prop :=
  ∀ k, i ≤ k → k < j → ¬ Overflowing g s k

theorem Quiet.append {i j k : Nat} (h : Quiet g s i j) (h' : Quiet g s j k) : Quiet g s i k := by
  intro l hl hlk
  rcases Nat.lt_or_ge l j with hlj | hjl
  · exact h l hl hlj
  · exact h' l hjl hlk

theorem Quiet.nil (g : Grammar) (s : Nat → Lexed) (i : Nat) : Quiet g s i i :=
  fun _ hl hlt => absurd hl (Nat.not_le.mpr hlt)

theorem Quiet.single {i : Nat} (h : ¬ Overflowing g s i) : Quiet g s i (i + 1) := by
  intro l hl hlt
  obtain rfl : l = i := by omega
  exact h

/-- No operation stands at a token of another kind. -/
theorem Quiet.of_kind {i : Nat} {kind : TokenKind} {token : Token} (h : Stands s i kind token)
    (hkind : kind ≠ .sign ∧ kind ≠ .operator) : Quiet g s i (i + 1) :=
  .single fun hover => hover.elim fun _ hop => not_joins_of_kind h hkind hop.1

/-- No operation stands behind a token that ends no term. -/
theorem Quiet.of_before {i : Nat} {token : Token} (htoken : s i = .ok token)
    (hends : endsTerm token = false) : Quiet g s (i + 1) (i + 1 + 1) :=
  .single fun hover => hover.elim fun _ hop => not_joins_of_before htoken hends hop.1

/-- Where a priority is left for the right operand, none overflows. -/
theorem Quiet.of_right {i : Nat} {token : Token} {op : BinaryOp} {inner : UInt64}
    (htoken : s i = .ok token) (hop : binaryOp? token = some op)
    (hinner : rightPriority? g op = some inner) : Quiet g s i (i + 1) := by
  refine .single fun hover => ?_
  obtain ⟨op', hjoins, htop⟩ := hover
  obtain rfl := hjoins.unique htoken hop
  rw [rightPriority?_eq_none_iff.mpr htop] at hinner
  cases hinner

theorem endsTerm_of_isBinary {token : Token} (h : IsBinary token) : endsTerm token = false := by
  rcases h with h | h <;> simp [endsTerm, h]

/-! ## Where reading gives up -/

/-- Where a goal was read, reading gives up nowhere behind its first item.  The rest of a chain and of
a call start behind a term, so their first items count as well. -/
def Goal.IsQuiet (g : Grammar) (s : Nat → Lexed) (goal : Goal) (i j : Nat) : Prop :=
  match goal with
  | .extend .. | .arguments .. => Quiet g s i j
  | _ => Quiet g s (i + 1) j

theorem Reads.isQuiet {goal : Goal} {i j : Nat} {expr : Expr} (h : Reads g s goal i j expr) :
    goal.IsQuiet g s i j := by
  induction h with
  | chain _ _ first rest => exact first.append rest
  | done _ _ => exact .nil g s _
  | join htoken hjoins hinner _ _ operand rest =>
    have hop := joins?_binaryOp? hjoins
    exact (Quiet.of_right htoken hop hinner).append
      ((Quiet.of_before htoken (endsTerm_of_isBinary (binaryOp?_kind hop))).append
        (operand.append rest))
  | number _ _ | var _ _ _ => exact .nil g s _
  | called _ ih | grouped _ ih | signed _ ih => exact ih
  | callEmpty _ hopening hclosing =>
    exact (Quiet.of_kind hopening (by decide)).append (.of_kind hclosing (by decide))
  | callFirst _ hopening _ _ argument rest =>
    exact (Quiet.of_kind hopening (by decide)).append
      ((Quiet.of_before hopening.1 (by simp [endsTerm, hopening.2])).append (argument.append rest))
  | next hcomma _ _ argument rest =>
    exact (Quiet.of_kind hcomma (by decide)).append
      ((Quiet.of_before hcomma.1 (by simp [endsTerm, hcomma.2])).append (argument.append rest))
  | close hclosing => exact .of_kind hclosing (by decide)
  | paren hopening _ hclosing ih =>
    exact (Quiet.of_before hopening.1 (by simp [endsTerm, hopening.2])).append
      (ih.append (.of_kind hclosing (by decide)))
  | unary htoken hop _ _ _ ih =>
    exact (Quiet.of_before htoken (by simp [endsTerm, unaryOp?_kind hop])).append ih

/-- Where a priority overflows while a goal is read, an operation of the greatest priority stands. -/
theorem Fails.overflowing {goal : Goal} {i : Nat} {why : SyntaxFailure} (h : Fails g s goal i why)
    (hwhy : why = .overflow) (hgoal : goal.Continues s i) : ∃ k, Overflowing g s k := by
  induction h with
  | chainFirst _ ih | termCall _ _ _ ih | termParen _ _ ih | termUnary _ _ ih
  | callFirst _ _ _ _ _ ih | nextArgument _ _ ih | parenInner _ _ ih | unaryTerm _ _ _ _ _ ih
  | extendOperand _ _ _ _ ih => exact ih hwhy trivial
  | chainRest first _ ih => exact ih hwhy (first.behind trivial)
  | extendOverflow htoken hjoins hinner =>
    exact ⟨_, _, ⟨hgoal, _, htoken, joins?_binaryOp? hjoins⟩, rightPriority?_eq_none_iff.mp hinner⟩
  | extendRest _ _ _ operand _ ih => exact ih hwhy (operand.behind trivial)
  | callRest _ _ _ _ ih | nextRest _ _ _ ih => exact ih hwhy trivial
  | _ => cases hwhy

/-- Behind terms stand all these operations. -/
def AllJoin (s : Nat → Lexed) (ops : List BinaryOp) : Prop := ∀ op ∈ ops, ∃ k, Joins s k op

/-- The operations of what a goal is read as stand behind terms, if those of what was read before do. -/
def Goal.AllJoin (s : Nat → Lexed) (goal : Goal) (i : Nat) (expr : Expr) : Prop :=
  match goal with
  | .extend _ lhs => Behind s i → Reading.AllJoin s (operations lhs) →
      Reading.AllJoin s (operations expr)
  | .arguments _ args => Reading.AllJoin s (operationsOf args) → Reading.AllJoin s (operations expr)
  | _ => Reading.AllJoin s (operations expr)

@[simp] theorem allJoin_nil : AllJoin s [] := by simp [AllJoin]

@[simp] theorem allJoin_append {ops more : List BinaryOp} :
    AllJoin s (ops ++ more) ↔ AllJoin s ops ∧ AllJoin s more :=
  List.forall_mem_append

@[simp] theorem allJoin_cons {op : BinaryOp} {ops : List BinaryOp} :
    AllJoin s (op :: ops) ↔ (∃ k, Joins s k op) ∧ AllJoin s ops :=
  List.forall_mem_cons

theorem operationsOf_append (args more : List Expr) :
    operationsOf (args ++ more) = operationsOf args ++ operationsOf more := by
  induction args with
  | nil => rfl
  | cons arg args ih => simp [operationsOf, ih]

theorem operations_parenthesized (outer : Span) (expr : Expr) :
    operations (expr.parenthesized outer) = operations expr := by
  cases expr <;> rfl

theorem Reads.allJoin {goal : Goal} {i j : Nat} {expr : Expr} (h : Reads g s goal i j expr) :
    goal.AllJoin s i expr := by
  induction h with
  | chain first _ ihfirst ihrest => exact ihrest (first.behind trivial) ihfirst
  | done _ _ => exact fun _ => id
  | join htoken hjoins _ operand _ ihoperand ihrest =>
    intro hbehind hlhs
    refine ihrest (operand.behind trivial) ?_
    rw [binaryOf, operations, allJoin_append, allJoin_cons]
    exact ⟨hlhs, ⟨_, hbehind, _, htoken, joins?_binaryOp? hjoins⟩, ihoperand⟩
  | number _ _ | var _ _ _ | callEmpty _ _ _ => exact allJoin_nil
  | called _ ih | grouped _ ih | signed _ ih | unary _ _ _ _ _ ih => exact ih
  | callFirst _ _ _ _ argument rest =>
    exact rest (allJoin_append.mpr ⟨argument, allJoin_nil⟩)
  | next _ _ _ argument rest =>
    intro hargs
    refine rest ?_
    rw [operationsOf_append]
    exact allJoin_append.mpr ⟨hargs, allJoin_append.mpr ⟨argument, allJoin_nil⟩⟩
  | close _ => exact id
  | paren _ _ _ ih =>
    simpa [Goal.AllJoin, operations_parenthesized] using ih

/-! ## Whole texts -/

/-- The operations of a statement. -/
def statementOperations : Statement → List BinaryOp
  | .expression value | .assignment _ _ value => operations value

theorem ReadsWhole.allJoin {statement : Statement} (h : ReadsWhole g s statement) :
    AllJoin s (statementOperations statement) := by
  cases h with
  | expression expression _ | assignment _ _ expression _ => exact expression.allJoin

theorem Joins.lt_length {items : List Lexed} (hended : Ended items) {i : Nat} {op : BinaryOp}
    (h : Joins (itemAt items) i op) : i + 1 < items.length := by
  obtain ⟨_, token, htoken, hop⟩ := h
  refine hended.lt_length htoken ?_
  rcases binaryOp?_kind hop with hkind | hkind <;> simp [hkind]

/-- In a statement that is read no priority overflows. -/
theorem ReadsWhole.not_overflowing {items : List Lexed} (hended : Ended items) {statement : Statement}
    (h : ReadsWhole g (itemAt items) statement) (k : Nat) : ¬ Overflowing g (itemAt items) k := by
  have hstart : Quiet g (itemAt items) 0 1 := by
    refine .single fun hover => ?_
    obtain ⟨_, ⟨⟨m, _, heq, _⟩, _⟩, _⟩ := hover
    cases heq
  intro hover
  have hlt : k + 1 < items.length := hover.elim fun _ hop => hop.1.lt_length hended
  cases h with
  | expression expression hfinish =>
    have hlength := hended.length_le_of_finish hfinish.1 hfinish.2
    exact hstart.append expression.isQuiet k (Nat.zero_le k) (by omega) hover
  | assignment _ hequals expression hfinish =>
    have hlength := hended.length_le_of_finish hfinish.1 hfinish.2
    have hfront := (hstart.append (.of_kind hequals (by decide))).append
      (.of_before hequals.1 (by simp [endsTerm, hequals.2]))
    exact hfront.append expression.isQuiet k (Nat.zero_le k) (by omega) hover

theorem NoExpression.overflowing (h : NoExpression g s .overflow) : ∃ k, Overflowing g s k := by
  cases h with
  | expression expression => exact expression.overflowing rfl trivial

/-- If a priority overflows before a statement is read, an operation of the greatest priority stands
there. -/
theorem Unread.overflowing (h : Unread g s .overflow) : ∃ k, Overflowing g s k := by
  cases h with
  | fatal expression _ => exact expression.overflowing
  | assignmentFatal _ _ assignment _ =>
    cases assignment with
    | expression _ _ expression => exact expression.overflowing rfl trivial

/-- If no operation has the greatest priority, none overflows. -/
theorem parse?_ne_overflow (h : ∀ op, ¬ AtTop g op) (source : List Char) :
    Statement.parse? g source ≠ .error .overflow := by
  intro hparse
  obtain ⟨_, op, _, htop⟩ := (parse?_eq_error_iff.mp hparse).overflowing
  exact h op htop

/-- The tokens of a text overflow where its items do. -/
theorem overflows_iff {tokens : List Token} (hended : Ended (tokens.map .ok)) :
    Overflows g tokens ↔ ∃ k, Overflowing g (itemAt (tokens.map .ok)) k := by
  constructor
  · rintro ⟨last, token, op, ⟨front, rest, rfl⟩, hends, hop, htop⟩
    have hcarries := carries_itemAt front ([last, token] ++ rest)
    rw [← List.append_assoc] at hcarries
    obtain ⟨hlast, htoken, _⟩ := hcarries
    exact ⟨front.length + 1, op, ⟨⟨front.length, last, rfl, hlast, hends⟩, token, htoken, hop⟩, htop⟩
  · rintro ⟨k, op, hjoins, htop⟩
    have hlt := hjoins.lt_length hended
    rw [List.length_map] at hlt
    obtain ⟨⟨m, last, rfl, hlast, hends⟩, token, htoken, hop⟩ := hjoins
    have hget : ∀ {l : Nat} (hl : l < tokens.length), itemAt (tokens.map .ok) l = .ok tokens[l] :=
      fun hl => itemAt_eq_getElem (by simp [List.getElem?_eq_getElem hl])
    obtain rfl := Except.ok.inj ((hget (show m < tokens.length by omega)).symm.trans hlast)
    obtain rfl := Except.ok.inj ((hget (show m + 1 < tokens.length by omega)).symm.trans htoken)
    refine ⟨_, _, op, ⟨tokens.take m, tokens.drop (m + 1 + 1), ?_⟩, hends, hop, htop⟩
    rw [List.append_assoc, List.cons_append, List.cons_append, List.nil_append,
      ← List.drop_eq_getElem_cons, ← List.drop_eq_getElem_cons, List.take_append_drop]

/-- A statement of the grammar is read exactly if no priority overflows in it. -/
theorem Derives.readsWhole_iff {tokens : List Token} (h : Derives .statement tokens)
    (hspelled : Spelled (tokens.map .ok)) (hreadable : ∀ token ∈ tokens, IsReadable token) :
    ((∃ statement, ReadsWhole g (itemAt (tokens.map .ok)) statement) ↔ ¬ Overflows g tokens) ∧
      (Unread g (itemAt (tokens.map .ok)) .overflow ↔ Overflows g tokens) := by
  have hended := h.ended
  rw [overflows_iff hended]
  have hread : (∃ statement, ReadsWhole g (itemAt (tokens.map .ok)) statement) →
      ¬ ∃ k, Overflowing g (itemAt (tokens.map .ok)) k := fun h hover =>
    h.elim fun _ hwhole => hover.elim fun k => hwhole.not_overflowing hended k
  rcases h.readsWhole (g := g) hspelled hended hreadable with hwhole | hunread
  · refine ⟨⟨fun _ => hread hwhole, fun _ => hwhole⟩, ⟨Unread.overflowing, fun hover => ?_⟩⟩
    exact absurd hover (hread hwhole)
  · refine ⟨⟨hread, fun hover => absurd hunread.overflowing hover⟩, ⟨Unread.overflowing, fun _ => hunread⟩⟩

/-- The same of a source text: it is read, or a priority overflows. -/
theorem Derives.parse?_iff {source : List Char} {tokens : List Token}
    (h : Derives .statement tokens) (htokens : tokenize source = tokens.map .ok)
    (hreadable : ∀ token ∈ tokens, IsReadable token) :
    ((∃ statement, Statement.parse? g source = .ok statement) ↔ ¬ Overflows g tokens) ∧
      (Statement.parse? g source = .error .overflow ↔ Overflows g tokens) := by
  simp only [parse?_eq_ok_iff, parse?_eq_error_iff, htokens]
  exact h.readsWhole_iff (htokens ▸ spelled_tokenize source) hreadable

/-- A text that is read with some priorities is not read with others that leave none behind one of its
operations. -/
theorem parse?_eq_overflow {g : Grammar} (g' : Grammar) {source : List Char} {statement : Statement}
    (h : Statement.parse? g source = .ok statement) {op : BinaryOp}
    (hop : op ∈ statementOperations statement) (htop : AtTop g' op) :
    Statement.parse? g' source = .error .overflow := by
  have hended := ended_tokenize source
  have hwhole := parse?_eq_ok_iff.mp h
  obtain ⟨tokens, htokens, hreadable, hderives, _⟩ := hwhole.derives hended (spelled_tokenize source)
  obtain ⟨k, hjoins⟩ := hwhole.allJoin op hop
  refine (hderives.parse?_iff htokens hreadable).2.mpr ?_
  rw [htokens] at hended hjoins
  exact (overflows_iff hended).mpr ⟨k, op, hjoins, htop⟩

/-- A text is read exactly if its tokens, up to the end of the input, are a statement of the
grammar with readable literals in which no priority overflows; if one does, that is why the text is not
read.  The words of the tree are the words of the text, and only the equals sign makes an assignment. -/
theorem parse?_ok_iff_derives (g : Grammar) (source : List Char) :
    ((∃ statement, Statement.parse? g source = .ok statement) ↔
      ∃ tokens, tokenize source = tokens.map .ok ∧ (∀ token ∈ tokens, IsReadable token) ∧
        Derives .statement tokens ∧ ¬ Overflows g tokens) ∧
    (∀ tokens, tokenize source = tokens.map .ok → (∀ token ∈ tokens, IsReadable token) →
      Derives .statement tokens → Overflows g tokens →
      Statement.parse? g source = .error .overflow) ∧
    ∀ statement, Statement.parse? g source = .ok statement →
      ∃ tokens, tokenize source = tokens.map .ok ∧ Derives .statement tokens ∧
        statementWords statement = wordsOf tokens ∧
        (IsAssignment statement ↔ ∃ token ∈ tokens, token.kind = .equals) := by
  have hsound : ∀ statement, Statement.parse? g source = .ok statement → _ :=
    fun statement h => (parse?_eq_ok_iff.mp h).derives (ended_tokenize source)
      (spelled_tokenize source)
  refine ⟨⟨?_, ?_⟩, ?_, ?_⟩
  · intro h
    obtain ⟨statement, hparse⟩ := h
    obtain ⟨tokens, htokens, hreadable, hderives, _⟩ := hsound statement hparse
    exact ⟨tokens, htokens, hreadable, hderives,
      (hderives.parse?_iff htokens hreadable).1.mp ⟨statement, hparse⟩⟩
  · intro h
    obtain ⟨tokens, htokens, hreadable, hderives, hover⟩ := h
    exact (hderives.parse?_iff htokens hreadable).1.mpr hover
  · intro tokens htokens hreadable hderives hover
    exact (hderives.parse?_iff htokens hreadable).2.mpr hover
  · intro statement hparse
    obtain ⟨tokens, htokens, _, hderives, hwords, hassignment⟩ := hsound statement hparse
    exact ⟨tokens, htokens, hderives, hwords, hassignment⟩

/-- An assignment, a call, a sign and a variable in parentheses. -/
theorem derives_of_assignment_of_call :
    ∃ statement tokens,
      Statement.parse? .default "x=2*f(-3,(a))".toList = .ok statement ∧
      tokenize "x=2*f(-3,(a))".toList = tokens.map .ok ∧ Derives .statement tokens ∧
      statementWords statement = wordsOf tokens ∧
      (IsAssignment statement ↔ ∃ token ∈ tokens, token.kind = .equals) := by
  have hok : (Statement.parse? .default "x=2*f(-3,(a))".toList).isOk = true := by cbv
  cases hparse : Statement.parse? .default "x=2*f(-3,(a))".toList with
  | error error => rw [hparse] at hok; cases hok
  | ok statement =>
    obtain ⟨tokens, h⟩ := (parse?_ok_iff_derives .default _).2.2 statement hparse
    exact ⟨statement, tokens, rfl, h⟩

/-- A registry with one operator, which has a priority of choice. -/
def only (op : Arithmetical) (priority : UInt64) : Registry :=
  Registry.empty.withOperator { op.toOperator with precedence := priority }

theorem priority_only {op : Arithmetical} {operation : BinaryOp} (h : op.symbol = operation.symbol)
    (priority : UInt64) : (only op priority).grammar.priority operation = priority := by
  have hfind : (only op priority).operator? operation.symbol =
      some { op.toOperator with precedence := priority } := by
    rw [← h]
    exact Std.ExtTreeMap.getElem?_insert_self
  simp [Registry.grammar, Registry.priority, hfind]

/-- With the greatest priority for the minus, `1-2` is a statement that is not read. -/
theorem derives_and_overflows :
    ∃ tokens, tokenize "1-2".toList = tokens.map .ok ∧ (∀ token ∈ tokens, IsReadable token) ∧
      Derives .statement tokens ∧
      Statement.parse? (only .sub topPriority).grammar "1-2".toList = .error .overflow := by
  let one : Token := ⟨.number, "1", ⟨0, 1, 1⟩⟩
  let minus : Token := ⟨.sign, "-", ⟨1, 1, 1⟩⟩
  let two : Token := ⟨.number, "2", ⟨2, 1, 1⟩⟩
  let finish : Token := ⟨.finish, "", ⟨3, 0, 1⟩⟩
  have htokens : tokenize "1-2".toList = [one, minus, two, finish].map .ok := by cbv
  have hderives : Derives .statement [one, minus, two, finish] :=
    .expressionStatement (.expression (.unsigned (.number rfl))
      (.operation (.inl rfl) (.unsigned (.number rfl)) .noOperation)) rfl
  refine ⟨_, htokens, ?_, hderives, by cbv⟩
  have hone : IsReadable one := fun _ => ⟨⟨1, 0⟩, by cbv⟩
  have htwo : IsReadable two := fun _ => ⟨⟨2, 0⟩, by cbv⟩
  simpa [IsReadable, minus, finish] using And.intro hone htwo

end Abacus.Reading
