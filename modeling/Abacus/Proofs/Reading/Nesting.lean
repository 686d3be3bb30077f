import Abacus.Proofs.Reading.Overflow

/-!
# Rows of one operator

A row is a chain of terms with one operator between every two of them.  An operator other than the power
asks of its right operand a priority above its own, so that operand is a single term and the row nests to
the left.  At `topPriority` there is none above, and the row is not read at all.

`Row.nestsLeft` goes through a row link by link.  The main statement is `parse?_row`.
-/

namespace Abacus.Reading

open Abacus.Parser

/-- The tree of a row in which every operation is the left operand of the next. -/
def nestLeft (op : BinaryOp) (first : Expr) (links : List (Token × Expr)) : Expr :=
  links.foldl (fun lhs link => binaryOf lhs link.1 op link.2) first

/-- The tokens of operators, each with those of the term behind it. -/
def linkTokens (rest : List (Token × List Token)) : List Token :=
  rest.flatMap fun link => link.1 :: link.2

/-- The tokens are those of a term, and of more terms that each stand behind the operator. -/
structure IsRow (op : BinaryOp) (first : List Token) (rest : List (Token × List Token)) : Prop where
  first : Derives .term first
  rest : ∀ link ∈ rest, binaryOp? link.1 = some op ∧ Derives .term link.2

/-- The tokens stand somewhere among the items, and are read there as a term. -/
def IsTerm (g : Grammar) (s : Nat → Lexed) (tokens : List Token) (expr : Expr) : Prop :=
  ∃ i j, Between s i j tokens ∧ Reads g s .term i j expr

/-- The term behind an operator is read as this tree. -/
def IsLink (g : Grammar) (s : Nat → Lexed) (written : Token × List Token) (link : Token × Expr) :
    Prop :=
  link.1 = written.1 ∧ IsTerm g s written.2 link.2

/-- From one place to another stand these operators, each with the term that is read behind it. -/
inductive Row (g : Grammar) (s : Nat → Lexed) (op : BinaryOp) :
    Nat → List (Token × Expr) → Nat → Prop
  | nil (i : Nat) : Row g s op i [] i
  | cons {i j k : Nat} {token : Token} {expr : Expr} {links : List (Token × Expr)}
      (htoken : s i = .ok token) (hop : binaryOp? token = some op)
      (term : Reads g s .term (i + 1) j expr) (rest : Row g s op j links k) :
      Row g s op i ((token, expr) :: links) k

variable {g : Grammar} {s : Nat → Lexed} {op : BinaryOp}

/-! ## Rows are read -/

theorem joins?_zero {token : Token} (h : binaryOp? token = some op) :
    joins? g 0 token = some op := by
  simp [joins?, h]

theorem NoMore.done {k : Nat} (h : NoMore s k) (least : UInt64) (lhs : Expr) :
    Reads g s (.extend least lhs) k k lhs := by
  obtain ⟨next, hnext, _, hbinary⟩ := h
  exact .done hnext (by simp [joins?, binaryOp?_eq_none hbinary])

/-- A threshold above the operator stops a row where it starts. -/
theorem Row.done {i k : Nat} {links : List (Token × Expr)} (h : Row g s op i links k)
    (hend : NoMore s k) {least : UInt64} (hless : g.priority op < least) (lhs : Expr) :
    Reads g s (.extend least lhs) i i lhs := by
  cases h with
  | nil => exact hend.done least lhs
  | cons htoken hop _ _ => exact .done htoken (by simp [joins?, hop, hless])

/-- The priority that is left behind an operator other than the power is above its own. -/
theorem lt_of_rightPriority? (hop : op ≠ .pow) {inner : UInt64}
    (hinner : rightPriority? g op = some inner) : g.priority op < inner := by
  have htoNat := toNat_of_rightPriority? hinner
  rw [if_neg hop] at htoNat
  rw [UInt64.lt_iff_toNat_lt]
  omega

theorem Row.nestsLeft (hne : op ≠ .pow) (hquiet : ∀ k, ¬ Overflowing g s k) {i k : Nat}
    {links : List (Token × Expr)} (h : Row g s op i links k) (hbehind : Behind s i)
    (hend : NoMore s k) (lhs : Expr) : Reads g s (.extend 0 lhs) i k (nestLeft op lhs links) := by
  induction h generalizing lhs with
  | nil => exact hend.done 0 lhs
  | @cons i _ _ token _ _ htoken hop term rest ih =>
    obtain ⟨inner, hinner⟩ := exists_rightPriority? fun htop =>
      hquiet i ⟨op, ⟨hbehind, token, htoken, hop⟩, htop⟩
    -- the next operator is too weak for the right operand, which is the one term
    have hoperand := Reads.chain term (rest.done hend (lt_of_rightPriority? hne hinner) _)
    exact .join htoken (joins?_zero hop) hinner hoperand (ih (term.behind trivial) hend _)

/-! ## Rows of tokens -/

theorem derives_linkTokens {rest : List (Token × List Token)}
    (h : ∀ link ∈ rest, binaryOp? link.1 = some op ∧ Derives .term link.2) :
    Derives .operations (linkTokens rest) := by
  induction rest with
  | nil => exact .noOperation
  | cons link rest ih =>
    obtain ⟨hlink, hrest⟩ := List.forall_mem_cons.mp h
    exact .operation (binaryOp?_kind hlink.1) hlink.2 (ih hrest)

/-- Where no priority overflows, a term is read. -/
theorem Derives.reads_term (hspelled : ∀ i token, s i = .ok token → token.Spelled)
    (hquiet : ∀ k, ¬ Overflowing g s k) {tokens : List Token} (h : Derives .term tokens) {i j : Nat}
    (hbetween : Between s i j tokens) (hcall : NoCall s j) : ∃ expr, Reads g s .term i j expr := by
  obtain hread | hfails := h.reads (g := g) hspelled hbetween hcall
  · exact hread
  · obtain ⟨k, hover⟩ := hfails.overflowing rfl trivial
    exact absurd hover (hquiet k)

/-- The tokens of operators and terms are read as links. -/
theorem exists_row (hspelled : ∀ i token, s i = .ok token → token.Spelled)
    (hquiet : ∀ k, ¬ Overflowing g s k) {rest : List (Token × List Token)}
    (h : ∀ link ∈ rest, binaryOp? link.1 = some op ∧ Derives .term link.2) {i k : Nat}
    (hbetween : Between s i k (linkTokens rest)) (hend : NoMore s k) :
    ∃ links, Row g s op i links k ∧ List.Forall₂ (IsLink g s) rest links := by
  induction rest generalizing i with
  | nil =>
    obtain rfl : k = i := hbetween.stop
    exact ⟨[], .nil k, .nil⟩
  | cons link rest ih =>
    obtain ⟨⟨hop, hterm⟩, hrest⟩ := List.forall_mem_cons.mp h
    obtain ⟨htoken, _, hbehind⟩ := hbetween.uncons
    obtain ⟨j, hfirst, hothers⟩ := hbehind.split
    have hcall := (derives_linkTokens hrest).noCall hothers hend
    obtain ⟨expr, hexpr⟩ := hterm.reads_term hspelled hquiet hfirst hcall
    obtain ⟨links, hlinks, hread⟩ := ih hrest hothers
    exact ⟨(link.1, expr) :: links, .cons htoken hop hexpr hlinks,
      .cons ⟨rfl, i + 1, j, hfirst, hexpr⟩ hread⟩

/-- A row is read as the tree that nests to the left, if no priority overflows. -/
theorem IsRow.reads (hne : op ≠ .pow) (hspelled : ∀ i token, s i = .ok token → token.Spelled)
    (hquiet : ∀ k, ¬ Overflowing g s k) {first : List Token} {rest : List (Token × List Token)}
    (h : IsRow op first rest) {k : Nat} (hbetween : Between s 0 k (first ++ linkTokens rest))
    (hend : NoMore s k) :
    ∃ head links, IsTerm g s first head ∧ List.Forall₂ (IsLink g s) rest links ∧
      Reads g s (.chain 0) 0 k (nestLeft op head links) := by
  obtain ⟨j, hfirst, hothers⟩ := hbetween.split
  have hcall := (derives_linkTokens h.rest).noCall hothers hend
  obtain ⟨head, hhead⟩ := h.first.reads_term hspelled hquiet hfirst hcall
  obtain ⟨links, hlinks, hread⟩ := exists_row hspelled hquiet h.rest hothers hend
  exact ⟨head, links, ⟨0, j, hfirst, hhead⟩, hread,
    .chain hhead (hlinks.nestsLeft hne hquiet (hhead.behind trivial) hend head)⟩

/-- Behind the first term of a row stands the operator; if it has the greatest priority, it overflows. -/
theorem IsRow.overflowing (hspelled : ∀ i token, s i = .ok token → token.Spelled)
    {first : List Token} {rest : List (Token × List Token)} (h : IsRow op first rest) {k : Nat}
    (hbetween : Between s 0 k (first ++ linkTokens rest)) (hend : NoMore s k) (hmany : rest ≠ [])
    (htop : AtTop g op) : ∃ k, Overflowing g s k := by
  obtain ⟨j, hfirst, hothers⟩ := hbetween.split
  have hcall := (derives_linkTokens h.rest).noCall hothers hend
  obtain ⟨head, hhead⟩ | hfails := h.first.reads (g := g) hspelled hfirst hcall
  · obtain ⟨link, rest, rfl⟩ := List.exists_cons_of_ne_nil hmany
    obtain ⟨htoken, _⟩ := hothers.uncons
    obtain ⟨hop, _⟩ := h.rest link (List.mem_cons_self ..)
    exact ⟨j, op, ⟨hhead.behind trivial, link.1, htoken, hop⟩, htop⟩
  · exact hfails.overflowing rfl trivial

/-! ## Statements -/

/-- A row of terms with one operator other than the power is read as the tree of its terms that nests to
the left, exactly if no priority overflows in it, and from two terms on it overflows at the greatest
priority. -/
theorem parse?_row {g : Grammar} {op : BinaryOp} (hop : op ≠ .pow) {source : List Char}
    {first : List Token} {rest : List (Token × List Token)} {finish : Token}
    (htokens : tokenize source = (first ++ linkTokens rest ++ [finish]).map .ok)
    (hrow : IsRow op first rest) (hreadable : ∀ token ∈ first ++ linkTokens rest, IsReadable token)
    (hfinish : finish.kind = .finish) :
    (¬ Overflows g (first ++ linkTokens rest ++ [finish]) →
      ∃ head links, IsTerm g (itemAt (tokenize source)) first head ∧
        List.Forall₂ (IsLink g (itemAt (tokenize source))) rest links ∧
        Statement.parse? g source = .ok (.expression (nestLeft op head links))) ∧
    (Overflows g (first ++ linkTokens rest ++ [finish]) →
      Statement.parse? g source = .error .overflow) ∧
    (rest ≠ [] → g.priority op = topPriority →
      Overflows g (first ++ linkTokens rest ++ [finish])) := by
  have hspelled := Ended.spelled_itemAt (ended_tokenize source) (spelled_tokenize source)
  have hover := overflows_iff (g := g) (htokens ▸ ended_tokenize source)
  have hcarries := carries_append.mp (htokens ▸ carries_itemAt [] (first ++ linkTokens rest ++ [finish]))
  have hbetween : Between (itemAt (tokenize source)) 0 (first ++ linkTokens rest).length
      (first ++ linkTokens rest) := ⟨hcarries.1, (Nat.zero_add _).symm, hreadable⟩
  have hlast : Stands (itemAt (tokenize source)) (first ++ linkTokens rest).length .finish finish :=
    ⟨by simpa using hcarries.2, hfinish⟩
  have hend := NoMore.of_stands hlast (by decide)
  rw [hover, ← htokens]
  refine ⟨fun hquiet => ?_, fun hover' => ?_, fun hmany htop => ?_⟩
  · obtain ⟨head, links, hterm, hlinks, hread⟩ :=
      hrow.reads hop hspelled (not_exists.mp hquiet) hbetween hend
    exact ⟨head, links, hterm, hlinks, parse?_eq_ok_iff.mpr (.expression hread hlast)⟩
  · have hderives := Derives.expressionStatement
      (.expression hrow.first (derives_linkTokens hrow.rest)) hfinish
    have hall : ∀ token ∈ first ++ linkTokens rest ++ [finish], IsReadable token :=
      ((hbetween.append (.stands hlast (by decide))).readable)
    exact (hderives.parse?_iff htokens hall).2.mpr (hover.mpr (htokens ▸ hover'))
  · exact hrow.overflowing hspelled hbetween hend hmany ⟨hop, htop⟩

/-- One step below the greatest priority, with a call, a sign and parentheses among the terms. -/
theorem parse?_row_of_next_to_top :
    (only .sub (topPriority - 1)).grammar.priority .sub ≠ topPriority ∧
    ∃ first rest finish,
      tokenize "f(x) - -1-(a-b)".toList = (first ++ linkTokens rest ++ [finish]).map .ok ∧
      IsRow .sub first rest ∧ (∀ token ∈ first ++ linkTokens rest, IsReadable token) ∧
      finish.kind = .finish ∧ 2 ≤ rest.length ∧
      ∃ head links, rest.length = links.length ∧
        Statement.parse? (only .sub (topPriority - 1)).grammar "f(x) - -1-(a-b)".toList =
          .ok (.expression (nestLeft .sub head links)) := by
  have htop : (only .sub (topPriority - 1)).grammar.priority .sub ≠ topPriority := by
    rw [priority_only rfl]
    decide
  let name : Token := ⟨.ident, "f", ⟨0, 1, 1⟩⟩
  let opening : Token := ⟨.leftParen, "(", ⟨1, 1, 1⟩⟩
  let argument : Token := ⟨.ident, "x", ⟨2, 1, 1⟩⟩
  let closing : Token := ⟨.rightParen, ")", ⟨3, 1, 1⟩⟩
  let minus : Token := ⟨.sign, "-", ⟨5, 1, 1⟩⟩
  let sign : Token := ⟨.sign, "-", ⟨7, 1, 1⟩⟩
  let one : Token := ⟨.number, "1", ⟨8, 1, 1⟩⟩
  let minus' : Token := ⟨.sign, "-", ⟨9, 1, 1⟩⟩
  let opening' : Token := ⟨.leftParen, "(", ⟨10, 1, 1⟩⟩
  let a : Token := ⟨.ident, "a", ⟨11, 1, 1⟩⟩
  let inner : Token := ⟨.sign, "-", ⟨12, 1, 1⟩⟩
  let b : Token := ⟨.ident, "b", ⟨13, 1, 1⟩⟩
  let closing' : Token := ⟨.rightParen, ")", ⟨14, 1, 1⟩⟩
  let finish : Token := ⟨.finish, "", ⟨15, 0, 1⟩⟩
  let first : List Token := [name, opening, argument, closing]
  let rest : List (Token × List Token) :=
    [(minus, [sign, one]), (minus', [opening', a, inner, b, closing'])]
  have htokens : tokenize "f(x) - -1-(a-b)".toList =
      (first ++ linkTokens rest ++ [finish]).map .ok := by cbv
  have hcall : Derives .term first :=
    .unsigned (.called (.call rfl rfl (.expression (.unsigned (.var rfl)) .noOperation) .noArgument rfl))
  have hgrouped : Derives .term [opening', a, inner, b, closing'] :=
    .unsigned (.grouped rfl (.expression (.unsigned (.var rfl))
      (.operation (.inl rfl) (.unsigned (.var rfl)) .noOperation)) rfl)
  have hrow : IsRow .sub first rest := by
    refine ⟨hcall, List.forall_mem_cons.mpr ⟨⟨by decide, .signed rfl (.number rfl)⟩, ?_⟩⟩
    exact List.forall_mem_singleton.mpr ⟨by decide, hgrouped⟩
  have hreadable : ∀ token ∈ first ++ linkTokens rest, IsReadable token := by
    have honly : ∀ token ∈ first ++ linkTokens rest, token.kind = .number → token = one := by decide
    intro token htoken hnumber
    rw [honly token htoken hnumber]
    exact ⟨⟨1, 0⟩, by cbv⟩
  have hrow' := parse?_row (g := (only .sub (topPriority - 1)).grammar) (by decide) htokens hrow
    hreadable rfl
  have hsafe : ¬ Overflows (only .sub (topPriority - 1)).grammar
      (first ++ linkTokens rest ++ [finish]) := by
    intro hover
    have hok : (Statement.parse? (only .sub (topPriority - 1)).grammar
      "f(x) - -1-(a-b)".toList).isOk = true := by cbv
    rw [hrow'.2.1 hover] at hok
    cases hok
  obtain ⟨head, links, _, hlinks, hleft⟩ := hrow'.1 hsafe
  exact ⟨htop, first, rest, finish, htokens, hrow, hreadable, rfl, by decide, head, links,
    hlinks.length_eq, hleft⟩

/-- With the greatest priority for the minus, the row `1-2-3` is not read. -/
theorem row_overflows_at_top :
    (only .sub topPriority).grammar.priority .sub = topPriority ∧
    ∃ first rest finish,
      tokenize "1-2-3".toList = (first ++ linkTokens rest ++ [finish]).map .ok ∧
      IsRow .sub first rest ∧ (∀ token ∈ first ++ linkTokens rest, IsReadable token) ∧
      finish.kind = .finish ∧ 2 ≤ rest.length ∧
      Statement.parse? (only .sub topPriority).grammar "1-2-3".toList = .error .overflow := by
  let one : Token := ⟨.number, "1", ⟨0, 1, 1⟩⟩
  let minus : Token := ⟨.sign, "-", ⟨1, 1, 1⟩⟩
  let two : Token := ⟨.number, "2", ⟨2, 1, 1⟩⟩
  let minus' : Token := ⟨.sign, "-", ⟨3, 1, 1⟩⟩
  let three : Token := ⟨.number, "3", ⟨4, 1, 1⟩⟩
  let finish : Token := ⟨.finish, "", ⟨5, 0, 1⟩⟩
  let rest : List (Token × List Token) := [(minus, [two]), (minus', [three])]
  have htokens : tokenize "1-2-3".toList = ([one] ++ linkTokens rest ++ [finish]).map .ok := by cbv
  have hrow : IsRow .sub [one] rest := by
    refine ⟨.unsigned (.number rfl), List.forall_mem_cons.mpr ⟨⟨by decide, ?_⟩, ?_⟩⟩
    · exact .unsigned (.number rfl)
    · exact List.forall_mem_singleton.mpr ⟨by decide, .unsigned (.number rfl)⟩
  have hone : IsReadable one := fun _ => ⟨⟨1, 0⟩, by cbv⟩
  have htwo : IsReadable two := fun _ => ⟨⟨2, 0⟩, by cbv⟩
  have hthree : IsReadable three := fun _ => ⟨⟨3, 0⟩, by cbv⟩
  have hreadable : ∀ token ∈ [one] ++ linkTokens rest, IsReadable token := by
    simpa [linkTokens, rest, IsReadable, minus, minus'] using And.intro hone (And.intro htwo hthree)
  exact ⟨priority_only rfl topPriority, [one], rest, finish, htokens, hrow, hreadable, rfl, by decide,
    by cbv⟩

end Abacus.Reading
