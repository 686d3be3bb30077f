import Abacus.Proofs.Chain
import Abacus.Proofs.Reading.Overflow

/-!
# How chains of operators group

The tree of an expression no longer shows its parentheses, so it does not say where a chain of terms
and operators starts and ends.  `Term` and `Chain Term Joint` are the trees that show them: each
carries the tokens that it was read from (`tokens`) and gives the expression that it stands for
(`expr`).

An extension of a chain keeps two facts: its root is no weaker than the threshold, and the operator
behind it is weaker than the reach of its root.  With them `Reads.grouped` builds a grouped tree for
whatever is read.  The main statement is `parse?_groups`.
-/

namespace Abacus.Reading

open Abacus.Parser

/-- An operator between two terms. -/
structure Joint where
  /-- The token that writes it. -/
  token : Token
  /-- The operation. -/
  op : BinaryOp

/-- A term as it is written. -/
inductive Term where
  | number (token : Token) (value : Decimal)
  | var (name : Token)
  | callEmpty (name opening closing : Token)
  /-- A call, where a parenthesis or a comma stands before each argument. -/
  | call (name : Token) (args : List (Token × Chain Term Joint)) (closing : Token)
  | paren (opening : Token) (inner : Chain Term Joint) (closing : Token)
  | unary (sign : Token) (op : UnaryOp) (operand : Term)

/-- Terms with operators between them. -/
abbrev TermChain := Chain Term Joint

mutual

/-- The tokens of a term. -/
def Term.tokens : Term → List Token
  | .number token _ => [token]
  | .var name => [name]
  | .callEmpty name opening closing => [name, opening, closing]
  | .call name args closing => name :: argTokens args ++ [closing]
  | .paren opening inner closing => opening :: chainTokens inner ++ [closing]
  | .unary sign _ operand => sign :: operand.tokens

/-- The tokens of a chain. -/
def chainTokens : TermChain → List Token
  | .term term => term.tokens
  | .join lhs joint rhs => chainTokens lhs ++ joint.token :: chainTokens rhs

/-- The tokens of the arguments of a call. -/
def argTokens : List (Token × TermChain) → List Token
  | [] => []
  | (separator, arg) :: args => separator :: chainTokens arg ++ argTokens args

end

mutual

/-- The expression that a term stands for. -/
def Term.expr : Term → Expr
  | .number token value => .number token.span value
  | .var name => .var name.span name.text
  | .callEmpty name _ closing => callOf name closing []
  | .call name args closing => callOf name closing (argExprs args)
  | .paren opening inner closing =>
    (chainExpr inner).parenthesized (opening.span.unite closing.span)
  | .unary sign op operand => unaryOf sign op operand.expr

/-- The expression that a chain stands for. -/
def chainExpr : TermChain → Expr
  | .term term => term.expr
  | .join lhs joint rhs => binaryOf (chainExpr lhs) joint.token joint.op (chainExpr rhs)

/-- The expressions that the arguments of a call stand for. -/
def argExprs : List (Token × TermChain) → List Expr
  | [] => []
  | (_, arg) :: args => chainExpr arg :: argExprs args

end

/-- The term is a sign with its operand. -/
def Term.IsUnary : Term → Prop
  | .unary _ _ _ => True
  | _ => False

mutual

/-- The term is one of the grammar. -/
def Term.WellFormed : Term → Prop
  | .number token value => token.kind = .number ∧ Decimal.ofText? token.text = .ok value
  | .var name => name.kind = .ident
  | .callEmpty name opening closing =>
    name.kind = .ident ∧ opening.kind = .leftParen ∧ closing.kind = .rightParen
  | .call name args closing =>
    name.kind = .ident ∧ args ≠ [] ∧ ArgsWellFormed .leftParen args ∧ closing.kind = .rightParen
  | .paren opening inner closing =>
    opening.kind = .leftParen ∧ ChainWellFormed inner ∧ closing.kind = .rightParen
  | .unary sign op operand => unaryOp? sign = some op ∧ ¬ operand.IsUnary ∧ operand.WellFormed

/-- The terms and operators of the chain are those of the grammar. -/
def ChainWellFormed : TermChain → Prop
  | .term term => term.WellFormed
  | .join lhs joint rhs =>
    ChainWellFormed lhs ∧ binaryOp? joint.token = some joint.op ∧ ChainWellFormed rhs

/-- The arguments are separated by commas, with a token of the given kind before the first. -/
def ArgsWellFormed : TokenKind → List (Token × TermChain) → Prop
  | _, [] => True
  | kind, (separator, arg) :: args =>
    separator.kind = kind ∧ ChainWellFormed arg ∧ ArgsWellFormed .comma args

end

mutual

/-- The chains inside a term. -/
def Term.chains : Term → List TermChain
  | .number _ _ | .var _ | .callEmpty _ _ _ => []
  | .call _ args _ => argChains args
  | .paren _ inner _ => inner :: innerChains inner
  | .unary _ _ operand => operand.chains

/-- The chains inside the terms of a chain. -/
def innerChains : TermChain → List TermChain
  | .term term => term.chains
  | .join lhs _ rhs => innerChains lhs ++ innerChains rhs

/-- The chains that the arguments of a call are, and those inside. -/
def argChains : List (Token × TermChain) → List TermChain
  | [] => []
  | (_, arg) :: args => arg :: innerChains arg ++ argChains args

end

/-- All maximal chains of a tree: the tree itself and those in parentheses or arguments. -/
def chains (chain : TermChain) : List TermChain := chain :: innerChains chain

/-- The precedence of an operator. -/
def strength (g : Grammar) (joint : Joint) : Nat := (g.priority joint.op).toNat

/-- The least precedence of an operator to the right that belongs to the right operand. -/
def reach (g : Grammar) (joint : Joint) : Nat :=
  if joint.op = .pow then strength g joint else strength g joint + 1

theorem argTokens_append (args more : List (Token × TermChain)) :
    argTokens (args ++ more) = argTokens args ++ argTokens more := by
  induction args with
  | nil => rfl
  | cons arg args ih => simp [argTokens, ih]

theorem argExprs_append (args more : List (Token × TermChain)) :
    argExprs (args ++ more) = argExprs args ++ argExprs more := by
  induction args with
  | nil => rfl
  | cons arg args ih => simp [argExprs, ih]

theorem argChains_append (args more : List (Token × TermChain)) :
    argChains (args ++ more) = argChains args ++ argChains more := by
  induction args with
  | nil => rfl
  | cons arg args ih => simp [argChains, ih]

theorem argsWellFormed_concat {kind : TokenKind} {args : List (Token × TermChain)}
    (hne : args ≠ []) (h : ArgsWellFormed kind args) {comma : Token} {arg : TermChain}
    (hcomma : comma.kind = .comma) (harg : ChainWellFormed arg) :
    ArgsWellFormed kind (args ++ [(comma, arg)]) := by
  induction args generalizing kind with
  | nil => exact absurd rfl hne
  | cons first args ih =>
    obtain ⟨hkind, hfirst, hargs⟩ := h
    refine ⟨hkind, hfirst, ?_⟩
    cases args with
    | nil => exact ⟨hcomma, harg, trivial⟩
    | cons second args => exact ih (by simp) hargs

variable {g : Grammar} {s : Nat → Lexed}

/-! ## What is read is grouped -/

/-- The chain was read between two places as an expression, and all chains in it are grouped. -/
structure Written (g : Grammar) (s : Nat → Lexed) (i j : Nat) (chain : TermChain) (expr : Expr) :
    Prop where
  between : Between s i j (chainTokens chain)
  formed : ChainWellFormed chain
  means : chainExpr chain = expr
  grouped : ∀ inner ∈ chains chain, inner.Grouped (strength g) (reach g)

/-- The arguments were read between two places, after the name of the function. -/
structure ArgsWritten (g : Grammar) (s : Nat → Lexed) (i j : Nat) (name : Token)
    (args : List (Token × TermChain)) (exprs : List Expr) : Prop where
  between : Between s i j (name :: argTokens args)
  name_kind : name.kind = .ident
  ne_nil : args ≠ []
  formed : ArgsWellFormed .leftParen args
  means : argExprs args = exprs
  grouped : ∀ inner ∈ argChains args, inner.Grouped (strength g) (reach g)

/-- The operator at a place, if there is one, is weaker than a bound. -/
def NextBelow (g : Grammar) (s : Nat → Lexed) (j bound : Nat) : Prop :=
  ∀ token op, s j = .ok token → binaryOp? token = some op → (g.priority op).toNat < bound

/-- No operator of the chain's root is weaker than the threshold. -/
def RootAtLeast (g : Grammar) (least : UInt64) (chain : TermChain) : Prop :=
  ∀ root ∈ chain.root?, least.toNat ≤ strength g root

/-- What a goal, read between two places, is written as. -/
def Goal.IsGrouped (g : Grammar) (s : Nat → Lexed) (goal : Goal) (i j : Nat) (expr : Expr) : Prop :=
  match goal with
  | .chain least =>
    ∃ chain, Written g s i j chain expr ∧ RootAtLeast g least chain ∧ NextBelow g s j least.toNat
  | .extend least lhs =>
    ∀ start chain, Written g s start i chain lhs → RootAtLeast g least chain →
      (∀ root ∈ chain.root?, NextBelow g s i (reach g root)) →
      ∃ whole, Written g s start j whole expr ∧ RootAtLeast g least whole ∧
        NextBelow g s j least.toNat
  | .term | .call | .paren | .unary => ∃ term, Written g s i j (.term term) expr
  | .arguments name exprs =>
    ∀ start args, ArgsWritten g s start i name args exprs →
      ∃ term, Written g s start j (.term term) expr

theorem Written.term {i j : Nat} {term : Term} (between : Between s i j term.tokens)
    (formed : term.WellFormed)
    (grouped : ∀ inner ∈ term.chains, inner.Grouped (strength g) (reach g)) :
    Written g s i j (.term term) term.expr := by
  refine ⟨between, formed, rfl, ?_⟩
  intro inner hinner
  rcases List.mem_cons.mp hinner with heq | hinner
  · rw [heq]
    trivial
  · exact grouped inner hinner

theorem Written.leaf {i j : Nat} {term : Term} (between : Between s i j term.tokens)
    (formed : term.WellFormed) (hchains : term.chains = []) :
    Written g s i j (.term term) term.expr :=
  .term between formed (by simp [hchains])

theorem Written.inner_grouped {i j : Nat} {chain : TermChain} {expr : Expr}
    (h : Written g s i j chain expr) :
    ∀ inner ∈ innerChains chain, inner.Grouped (strength g) (reach g) :=
  fun inner hinner => h.grouped inner (List.mem_cons_of_mem _ hinner)

/-- An operator weaker than what it follows and a right operand no weaker than its reach make a
grouped chain. -/
theorem Written.join {i k j : Nat} {lhs rhs : TermChain} {joint : Joint} {left right : Expr}
    (hlhs : Written g s i k lhs left) (htoken : s k = .ok joint.token)
    (hop : binaryOp? joint.token = some joint.op) (hrhs : Written g s (k + 1) j rhs right)
    (hleft : ∀ root ∈ lhs.root?, strength g joint < reach g root)
    (hright : ∀ root ∈ rhs.root?, reach g joint ≤ strength g root) :
    Written g s i j (.join lhs joint rhs) (binaryOf left joint.token joint.op right) := by
  have hkind : joint.token.kind ≠ .number := by
    rcases binaryOp?_kind hop with h | h <;> simp [h]
  refine ⟨?_, ⟨hlhs.formed, hop, hrhs.formed⟩, ?_, ?_⟩
  · exact hlhs.between.append ((Between.stands ⟨htoken, rfl⟩ hkind).append hrhs.between)
  · rw [chainExpr, hlhs.means, hrhs.means]
  · intro inner hinner
    rcases List.mem_cons.mp hinner with heq | hinner
    · rw [heq]
      exact ⟨hlhs.grouped lhs (List.mem_cons_self ..), hrhs.grouped rhs (List.mem_cons_self ..),
        hleft, hright⟩
    · rcases List.mem_append.mp hinner with hinner | hinner
      · exact hlhs.inner_grouped inner hinner
      · exact hrhs.inner_grouped inner hinner

/-- What is left for the right operand is its reach. -/
theorem toNat_eq_reach {joint : Joint} {inner : UInt64}
    (h : rightPriority? g joint.op = some inner) : inner.toNat = reach g joint :=
  toNat_of_rightPriority? h

theorem Reads.isGrouped {goal : Goal} {i j : Nat} {expr : Expr} (h : Reads g s goal i j expr) :
    goal.IsGrouped g s i j expr := by
  induction h with
  | chain _ _ first rest =>
    obtain ⟨term, hterm⟩ := first
    exact rest _ (.term term) hterm (by simp [RootAtLeast, Chain.root?]) (by simp [Chain.root?])
  | @done i least lhs token htoken hjoins =>
    intro start chain hchain hroot _
    refine ⟨chain, hchain, hroot, ?_⟩
    intro token' op htoken' hop
    obtain rfl : token = token' := by simpa using htoken.symm.trans htoken'
    simpa [joins?, hop, UInt64.lt_iff_toNat_lt] using hjoins
  | @join i j k least inner lhs rhs expr token op htoken hjoins hinner _ _ operand rest =>
    intro start chain hchain hroot hnext
    obtain ⟨right, hright, hrightRoot, hrightNext⟩ := operand
    have hop := joins?_binaryOp? hjoins
    have hreach : inner.toNat = reach g ⟨token, op⟩ := toNat_eq_reach hinner
    have hwhole : Written g s start j (.join chain ⟨token, op⟩ right) (binaryOf lhs token op rhs) :=
      hchain.join htoken hop hright
      (fun root hmem => hnext root hmem token op htoken hop)
      (fun root hmem => hreach ▸ hrightRoot root hmem)
    refine rest start _ hwhole ?_ ?_
    · intro root hmem
      obtain rfl : ⟨token, op⟩ = root := by simpa [Chain.root?] using hmem
      simpa [joins?, hop, UInt64.lt_iff_toNat_lt, strength] using hjoins
    · intro root hmem
      obtain rfl : ⟨token, op⟩ = root := by simpa [Chain.root?] using hmem
      exact hreach ▸ hrightNext
  | number htoken hvalue =>
    exact ⟨.number _ _, .leaf (.single htoken.1 fun _ => ⟨_, hvalue⟩) ⟨htoken.2, hvalue⟩ rfl⟩
  | var htoken _ _ =>
    exact ⟨.var _, .leaf (.stands htoken (by decide)) htoken.2 rfl⟩
  | called _ ih => exact ih
  | grouped _ ih => exact ih
  | signed _ ih => exact ih
  | callEmpty hname hopening hclosing =>
    refine ⟨.callEmpty _ _ _, .leaf ?_ ⟨hname.2, hopening.2, hclosing.2⟩ rfl⟩
    exact ((Between.stands hname (by decide)).append (.stands hopening (by decide))).append
      (.stands hclosing (by decide))
  | @callFirst i j k name opening first expr hname hopening _ _ argument rest =>
    obtain ⟨chain, hchain, _⟩ := argument
    have hopen : Between s i (i + 2) [name, opening] :=
      (Between.stands hname (by decide)).append (.stands hopening (by decide))
    refine rest i [(opening, chain)] ⟨?_, hname.2, by simp, ?_, ?_, ?_⟩
    · simpa [argTokens] using hopen.append hchain.between
    · exact ⟨hopening.2, hchain.formed, trivial⟩
    · simp [argExprs, hchain.means]
    · simpa [argChains, chains] using hchain.grouped
  | @next i j k name comma args arg expr hcomma _ _ argument rest =>
    intro start args' hargs
    obtain ⟨chain, hchain, _⟩ := argument
    have hmore : Between s i j (argTokens [(comma, chain)]) := by
      simpa [argTokens] using (Between.stands hcomma (by decide)).append hchain.between
    refine rest start (args' ++ [(comma, chain)]) ⟨?_, hargs.name_kind, by simp, ?_, ?_, ?_⟩
    · rw [argTokens_append]
      exact hargs.between.append hmore
    · exact argsWellFormed_concat hargs.ne_nil hargs.formed hcomma.2 hchain.formed
    · rw [argExprs_append, hargs.means]
      simp [argExprs, hchain.means]
    · intro inner hinner
      rw [argChains_append] at hinner
      rcases List.mem_append.mp hinner with hinner | hinner
      · exact hargs.grouped inner hinner
      · exact hchain.grouped inner (by simpa [argChains, chains] using hinner)
  | @close i name closing args hclosing =>
    intro start args' hargs
    have hcall : Written g s start (i + 1) (.term (.call name args' closing)) _ :=
      .term (hargs.between.append (.stands hclosing (by decide)))
        ⟨hargs.name_kind, hargs.ne_nil, hargs.formed, hclosing.2⟩ hargs.grouped
    rw [Term.expr, hargs.means] at hcall
    exact ⟨_, hcall⟩
  | @paren i j opening closing inner hopening _ hclosing ih =>
    obtain ⟨chain, hchain, _⟩ := ih
    have hparen : Written g s i (j + 1) (.term (.paren opening chain closing)) _ :=
      .term (((Between.stands hopening (by decide)).append hchain.between).append
        (.stands hclosing (by decide))) ⟨hopening.2, hchain.formed, hclosing.2⟩ hchain.grouped
    rw [Term.expr, hchain.means] at hparen
    exact ⟨_, hparen⟩
  | @unary i j token next op operand htoken hop hnext hstarts _ ih =>
    obtain ⟨term, hterm⟩ := ih
    have hsigned : ¬ term.IsUnary := by
      intro hunary
      cases term with
      | unary sign op' operand' =>
        obtain rfl : next = sign := by simpa using hnext.symm.trans hterm.between.uncons.1
        simp [startsOperand, unaryOp?_kind hterm.formed.1] at hstarts
      | _ => exact hunary
    have hwhole : Written g s i j (.term (.unary token op term)) _ :=
      .term ((Between.stands ⟨htoken, unaryOp?_kind hop⟩ (by decide)).append hterm.between)
        ⟨hop, hsigned, hterm.formed⟩ hterm.inner_grouped
    rw [Term.expr, show term.expr = operand from hterm.means] at hwhole
    exact ⟨_, hwhole⟩

/-! ## Statements -/

/-- The statement is written with these tokens, with its value as this chain. -/
def IsWritten (statement : Statement) (chain : TermChain) (tokens : List Token) : Prop :=
  match statement with
  | .expression value =>
    value = chainExpr chain ∧ ∃ finish, finish.kind = .finish ∧
      tokens = chainTokens chain ++ [finish]
  | .assignment _ target value =>
    value = chainExpr chain ∧ ∃ name equals finish, name.kind = .ident ∧ equals.kind = .equals ∧
      finish.kind = .finish ∧ target = ⟨name.span, name.text⟩ ∧
      tokens = name :: equals :: chainTokens chain ++ [finish]

/-- Operators of one precedence group to the left, but powers to the right. -/
def EqualsGrouped (g : Grammar) : TermChain → Prop
  | .term _ => True
  | .join lhs joint rhs =>
    EqualsGrouped g lhs ∧ EqualsGrouped g rhs ∧
      (∀ left ∈ lhs.root?, strength g left = strength g joint → left.op ≠ .pow) ∧
      ∀ right ∈ rhs.root?, strength g right = strength g joint → joint.op = .pow

theorem equalsGrouped_of_grouped {chain : TermChain}
    (h : chain.Grouped (strength g) (reach g)) : EqualsGrouped g chain := by
  induction chain with
  | term term => trivial
  | join lhs joint rhs ihlhs ihrhs =>
    obtain ⟨hlhs, hrhs, hleft, hright⟩ := h
    refine ⟨ihlhs hlhs, ihrhs hrhs, ?_, ?_⟩
    · intro left hmem hequal hpow
      have hless := hleft left hmem
      rw [reach, if_pos hpow] at hless
      omega
    · intro right hmem hequal
      have hless := hright right hmem
      by_cases hpow : joint.op = .pow
      · exact hpow
      · rw [reach, if_neg hpow] at hless
        omega

theorem strength_le_reach (joint : Joint) : strength g joint ≤ reach g joint := by
  unfold reach
  split <;> omega

theorem reach_le_strength_succ (joint : Joint) : reach g joint ≤ strength g joint + 1 := by
  unfold reach
  split <;> omega

/-- A whole statement is written as a chain in which all chains are grouped. -/
theorem ReadsWhole.isWritten {items : List Lexed} (hended : Ended items) (hspelled : Spelled items)
    {statement : Statement} (h : ReadsWhole g (itemAt items) statement) :
    ∃ chain tokens, items = tokens.map .ok ∧ ChainWellFormed chain ∧
      IsWritten statement chain tokens ∧
      ∀ inner ∈ chains chain, inner.Grouped (strength g) (reach g) := by
  have hspelled' := Ended.spelled_itemAt hended hspelled
  cases h with
  | @expression j expr finish expression hfinish =>
    obtain ⟨chain, hchain, _⟩ := expression.isGrouped
    have hwhole := hchain.between.append (.stands hfinish (by decide))
    refine ⟨chain, chainTokens chain ++ [finish], ?_, hchain.formed,
      ⟨hchain.means.symm, finish, hfinish.2, rfl⟩, hchain.grouped⟩
    have hkinds := expression.kind_ne hspelled' hchain.between
    exact eq_map_of_carries hended hwhole.carries hfinish.2 fun token h => (hkinds token h).1
  | @assignment j target equals finish expr htarget hequals expression hfinish =>
    obtain ⟨chain, hchain, _⟩ := expression.isGrouped
    have hfront : Between (itemAt items) 0 2 [target, equals] :=
      (Between.stands htarget (by decide)).append (.stands hequals (by decide))
    have hwhole := (hfront.append hchain.between).append (.stands hfinish (by decide))
    refine ⟨chain, target :: equals :: chainTokens chain ++ [finish], ?_, hchain.formed,
      ⟨hchain.means.symm, target, equals, finish, htarget.2, hequals.2, hfinish.2, rfl, rfl⟩,
      hchain.grouped⟩
    have hkinds := expression.kind_ne hspelled' hchain.between
    refine eq_map_of_carries hended hwhole.carries hfinish.2 ?_
    grind [htarget.2, hequals.2]

/-- What is read from a text is written there as a chain in which every chain, down to those in
parentheses and arguments, is the only grouped tree over its terms and operators. -/
theorem parse?_groups {g : Grammar} {source : List Char} {statement : Statement}
    (h : Statement.parse? g source = .ok statement) :
    ∃ chain tokens, tokenize source = tokens.map .ok ∧ ChainWellFormed chain ∧
      IsWritten statement chain tokens ∧
      ∀ inner ∈ chains chain,
        inner.Grouped (strength g) (reach g) ∧ EqualsGrouped g inner ∧
        ∀ other : TermChain, other.first = inner.first → other.rest = inner.rest →
          other.Grouped (strength g) (reach g) → other = inner := by
  obtain ⟨chain, tokens, htokens, hformed, hwritten, hgrouped⟩ :=
    (parse?_eq_ok_iff.mp h).isWritten (ended_tokenize source) (spelled_tokenize source)
  refine ⟨chain, tokens, htokens, hformed, hwritten, ?_⟩
  intro inner hinner
  have hinnerGrouped := hgrouped inner hinner
  refine ⟨hinnerGrouped, equalsGrouped_of_grouped hinnerGrouped, ?_⟩
  intro other hfirst hrest hother
  exact hother.unique reach_le_strength_succ strength_le_reach hinnerGrouped hfirst hrest

/-- Powers and products of one precedence, next to each other. -/
def levelGrammar : Grammar := ⟨fun op => if op = .pow then 6 else op.defaultPriority, true⟩

/-- Powers, products and a remainder at one level, a sign, and a row inside a call. -/
theorem levelGrammar_groups :
    ∃ statement, Statement.parse? levelGrammar "y=a^b*c^-d%f(2-1-x,(4))".toList = .ok statement ∧
      ∃ chain tokens, tokenize "y=a^b*c^-d%f(2-1-x,(4))".toList = tokens.map .ok ∧
        ChainWellFormed chain ∧ IsWritten statement chain tokens ∧
        ∀ inner ∈ chains chain,
          inner.Grouped (strength levelGrammar) (reach levelGrammar) ∧
          EqualsGrouped levelGrammar inner ∧
          ∀ other : TermChain, other.first = inner.first → other.rest = inner.rest →
            other.Grouped (strength levelGrammar) (reach levelGrammar) → other = inner := by
  have hok : (Statement.parse? levelGrammar "y=a^b*c^-d%f(2-1-x,(4))".toList).isOk = true := by
    cbv
  cases hparse : Statement.parse? levelGrammar "y=a^b*c^-d%f(2-1-x,(4))".toList with
  | error error => rw [hparse] at hok; cases hok
  | ok statement => exact ⟨statement, rfl, parse?_groups hparse⟩

end Abacus.Reading
