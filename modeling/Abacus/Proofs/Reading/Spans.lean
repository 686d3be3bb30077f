import Abacus.Proofs.Reading.Entries
import Abacus.Proofs.Reading.Tiling

/-!
# The places of nodes

The spans in a tree are computed from offsets, and yet they fit the text: each covers a part of it, and the
parts of a node lie in its span, one behind the other (`Expr.Faithful`).  A parenthesized variable keeps
the place of its name, so a span may start or end within a parenthesis; but what is read from one token
up to another one never leaves the stretch between the starts of the two.  This bound is what an
induction on the rules carries (`Reads.placed`), and with it two spans are united only if the first
stands before the second (`unitable_of_united`).

The main statement on trees is `faithful_of_parse?`.
-/

namespace Abacus

namespace Span

/-- The span is the place of a text in the source: where the text stands, how long it is and on which
line it starts. -/
structure Covers (source text : List Char) (span : Span) : Prop where
  ne_nil : text ≠ []
  placed : ∃ before more, source = before ++ (text ++ more) ∧ span = .behind before text
  fragment : span.fragment source = text

/-- The span covers some part of the source. -/
def IsPart (source : List Char) (span : Span) : Prop := ∃ text, span.Covers source text

/-- The spans lie between two bytes of the source, each behind the one before it. -/
def InSequence (lower upper : Nat) : List Span → Prop
  | [] => lower ≤ upper
  | span :: spans => lower ≤ span.offset ∧ InSequence span.stop upper spans

/-- From the start of the first span to the end of the last one there is a stretch of the source: they start
in this order, the source does not end before, and both ends are between characters. -/
structure Unitable (source : List Char) (first last : Span) : Prop where
  ordered : first.offset ≤ last.offset
  inside : last.stop ≤ byteSize source
  slice : ∃ before text more, source = before ++ (text ++ more) ∧ first.offset = byteSize before ∧
    last.stop = byteSize (before ++ text)

end Span

/-- The span is that of an identifier in the source, and the name is the text there. -/
structure NamedAt (source : List Char) (span : Span) (name : String) : Prop where
  covers : span.Covers source name.toList
  token : .ok ⟨.ident, name, span⟩ ∈ tokenize source

/-- All spans in the expression are places in the source, and those of the parts of a node lie within its
own, in the order of the source. -/
inductive Expr.Faithful (source : List Char) : Expr → Prop
  | number {span : Span} {value : Decimal} (hspan : span.IsPart source) :
      Faithful source (.number span value)
  | var {span : Span} {name : String} (hname : NamedAt source span name) :
      Faithful source (.var span name)
  | call {span : Span} {name : Located String} {args : List Expr} (hspan : span.IsPart source)
      (hname : NamedAt source name.span name.val)
      (hparts : Span.InSequence span.offset span.stop (name.span :: args.map Expr.span))
      (hargs : ∀ arg ∈ args, Faithful source arg) : Faithful source (.call span name args)
  | unary {span : Span} {op : Located UnaryOp} {operand : Expr} (hspan : span.IsPart source)
      (hop : op.span.Covers source op.val.symbol.toList)
      (hparts : Span.InSequence span.offset span.stop [op.span, operand.span])
      (hoperand : Faithful source operand) : Faithful source (.unary span op operand)
  | binary {span : Span} {op : Located BinaryOp} {lhs rhs : Expr} (hspan : span.IsPart source)
      (hop : op.span.Covers source op.val.symbol.toList)
      (hparts : Span.InSequence span.offset span.stop [lhs.span, op.span, rhs.span])
      (hlhs : Faithful source lhs) (hrhs : Faithful source rhs) : Faithful source (.binary span lhs op rhs)

/-- All spans in the statement are places in the source, and those of its parts lie within its own. -/
inductive Statement.Faithful (source : List Char) : Statement → Prop
  | expression {value : Expr} (hvalue : value.Faithful source) : Faithful source (.expression value)
  | assignment {span : Span} {target : Located String} {value : Expr} (hspan : span.IsPart source)
      (htarget : NamedAt source target.span target.val)
      (hparts : Span.InSequence span.offset span.stop [target.span, value.span])
      (hvalue : value.Faithful source) : Faithful source (.assignment span target value)

/-! ## Uniting spans -/

namespace Span

variable {source text text' : List Char} {first last span : Span} {lower middle upper : Nat}

theorem offset_le_stop (span : Span) : span.offset ≤ span.stop := Nat.le_add_right ..

theorem covers_behind (before more : List Char) (hne : text ≠ []) :
    (behind before text).Covers (before ++ (text ++ more)) text :=
  ⟨hne, ⟨before, more, rfl, rfl⟩, fragment_behind ..⟩

/-- Of two first parts of a text the one with fewer bytes is the first part of the other. -/
theorem isPrefix_of_byteSize_le {before before' more more' : List Char}
    (h : before ++ more = before' ++ more') (hle : byteSize before ≤ byteSize before') :
    before <+: before' := by
  have hprefixes : before <+: before' ∨ before' <+: before :=
    List.prefix_or_prefix_of_prefix (List.prefix_append before more) (h ▸ List.prefix_append ..)
  rcases hprefixes with hprefix | ⟨more, rfl⟩
  · exact hprefix
  · have hnil : more = [] := by
      by_contra hne
      have hpos := byteSize_pos hne
      rw [byteSize_append] at hle
      omega
    simp [hnil]

/-- The stretch from one part of a source to a part behind it is a part too. -/
theorem IsPart.unite (hfirst : first.IsPart source) (hlast : last.IsPart source)
    (h : first.stop ≤ last.offset) :
    Unitable source first last ∧ (first.unite last).IsPart source ∧
      (first.unite last).stop = last.stop := by
  obtain ⟨text, hne, ⟨before, more, hsource, rfl⟩, _⟩ := hfirst
  obtain ⟨text', hne', ⟨before', more', hsource', rfl⟩, _⟩ := hlast
  have hordered := (offset_le_stop _).trans h
  obtain ⟨gap, rfl⟩ := isPrefix_of_byteSize_le (hsource.symm.trans hsource') hordered
  have hslice : source = before ++ (gap ++ text' ++ more') := by simpa using hsource'
  have hstop : (behind (before ++ gap) text').stop = byteSize (before ++ (gap ++ text')) := by
    simp [behind, stop, Nat.add_assoc]
  have hunite : (behind before text).unite (behind (before ++ gap) text') =
      behind before (gap ++ text') := by
    rw [Span.unite, hstop, byteSize_append, behind, behind, Nat.add_sub_cancel_left]
  have hinside : byteSize (before ++ (gap ++ text')) ≤ byteSize source := by
    rw [hslice]
    simp only [byteSize_append]
    omega
  refine ⟨⟨hordered, hstop ▸ hinside, before, gap ++ text', more', hslice, rfl, hstop⟩,
    ⟨gap ++ text', ?_⟩, ?_⟩
  · rw [hunite, hslice]
    exact covers_behind before more' (List.append_ne_nil_of_right_ne_nil gap hne')
  · rw [hunite, hstop, byteSize_append]
    rfl

/-- One more span behind the others. -/
theorem InSequence.append {spans : List Span} (h : InSequence lower middle spans)
    (hoffset : middle ≤ span.offset) (hstop : span.stop ≤ upper) :
    InSequence lower upper (spans ++ [span]) := by
  induction spans generalizing lower with
  | nil => exact ⟨h.trans hoffset, hstop⟩
  | cons first spans ih => exact ⟨h.1, ih h.2⟩

theorem InSequence.mono {spans : List Span} (h : InSequence lower middle spans) (hle : middle ≤ upper) :
    InSequence lower upper spans := by
  induction spans generalizing lower with
  | nil => exact h.trans hle
  | cons first spans ih => exact ⟨h.1, ih h.2⟩

end Span

namespace Expr

variable {source : List Char} {expr : Expr}

theorem Faithful.isPart (h : expr.Faithful source) : expr.span.IsPart source := by
  cases h with
  | var hname => exact ⟨_, hname.covers⟩
  | number hspan | call hspan | unary hspan | binary hspan => exact hspan

/-- In wider parentheses the parts of a node still lie within its span. -/
theorem Faithful.parenthesized {outer : Span} (h : expr.Faithful source) (houter : outer.IsPart source)
    (hoffset : outer.offset ≤ expr.span.offset) (hstop : expr.span.stop ≤ outer.stop) :
    (expr.parenthesized outer).Faithful source := by
  cases h with
  | number _ => exact .number houter
  | var hname => exact .var hname
  | call _ hname hparts hargs =>
    exact .call houter hname ⟨hoffset.trans hparts.1, hparts.2.mono hstop⟩ hargs
  | unary _ hop hparts hoperand =>
    exact .unary houter hop ⟨hoffset.trans hparts.1, hparts.2.mono hstop⟩ hoperand
  | binary _ hop hparts hlhs hrhs =>
    exact .binary houter hop ⟨hoffset.trans hparts.1, hparts.2.mono hstop⟩ hlhs hrhs

theorem span_parenthesized (expr : Expr) (outer : Span) :
    (expr.parenthesized outer).span = outer ∨ (expr.parenthesized outer).span = expr.span := by
  cases expr with
  | var => exact .inr rfl
  | number | call | unary | binary => exact .inl rfl

/-- The expression is faithful, and its span lies between two bytes of the source. -/
structure Placed (source : List Char) (lower upper : Nat) (expr : Expr) : Prop where
  faithful : expr.Faithful source
  lower_le : lower ≤ expr.span.offset
  le_upper : expr.span.stop ≤ upper

end Expr

namespace Reading

open Abacus.Parser

variable {g : Grammar} {source : List Char} {i j lower : Nat} {token : Token} {kind : TokenKind}

/-! ## The places of tokens -/

/-- Where the item with a number starts. -/
def startOf (source : List Char) (index : Nat) : Nat := (itemAt (tokenize source) index).span.offset

theorem startOf_eq (htoken : itemAt (tokenize source) i = .ok token) :
    startOf source i = token.span.offset := by
  rw [startOf, htoken, Lexed.span]

theorem mem_tokenize (htoken : itemAt (tokenize source) i = .ok token) : .ok token ∈ tokenize source :=
  htoken ▸ itemAt_mem (ended_tokenize source).ne_nil i

/-- A token covers its own text. -/
theorem covers_of_token (htoken : itemAt (tokenize source) i = .ok token) (hkind : token.kind ≠ .finish) :
    token.span.Covers source token.text.toList := by
  obtain ⟨before, more, hsource, hbetween⟩ :=
    (tiles_tokenize source).between (by simp [LettersApart]) (mem_tokenize htoken) hkind
  rw [List.nil_append] at hsource
  rw [hsource, hbetween.span]
  exact Span.covers_behind before more hbetween.ne_nil

/-- A token ends before a later item starts. -/
theorem stop_le_startOf (htoken : itemAt (tokenize source) i = .ok token) (hlt : i < j)
    (hlength : j < (tokenize source).length) : token.span.stop ≤ startOf source j := by
  have hordered := List.pairwise_iff_getElem.mp (tiles_tokenize source).ordered.2 i j
    (hlt.trans hlength) hlength hlt
  have hfirst := itemAt_eq_getElem (List.getElem?_eq_getElem (hlt.trans hlength))
  have hsecond := itemAt_eq_getElem (List.getElem?_eq_getElem hlength)
  rw [← hfirst, ← hsecond, htoken] at hordered
  exact hordered

/-- An identifier names itself. -/
theorem namedAt_of_stands (h : Stands (itemAt (tokenize source)) i .ident token) :
    NamedAt source token.span token.text := by
  refine ⟨covers_of_token h.1 (by simp [h.2]), ?_⟩
  have htoken : token = ⟨.ident, token.text, token.span⟩ := by rw [← h.2]
  exact htoken ▸ mem_tokenize h.1

section

variable (h : Stands (itemAt (tokenize source)) i kind token) (hkind : kind ≠ .finish)
include h hkind

theorem isPart_of_stands : token.span.IsPart source := ⟨_, covers_of_token h.1 (h.2 ▸ hkind)⟩

theorem stop_le_next : token.span.stop ≤ startOf source (i + 1) :=
  stop_le_startOf h.1 (Nat.lt_succ_self i) ((ended_tokenize source).lt_length h.1 (h.2 ▸ hkind))

theorem startOf_le_next : startOf source i ≤ startOf source (i + 1) :=
  (startOf_eq h.1).trans_le (token.span.offset_le_stop.trans (stop_le_next h hkind))

theorem stop_le_offset {first : Token} (hfirst : itemAt (tokenize source) j = .ok first)
    (hlt : j < i) : first.span.stop ≤ token.span.offset := by
  have hlength := Nat.lt_of_succ_lt ((ended_tokenize source).lt_length h.1 (h.2 ▸ hkind))
  exact (stop_le_startOf hfirst hlt hlength).trans_eq (startOf_eq h.1)

end

/-- The token that writes an operation on two operands covers its symbol. -/
theorem covers_of_joins? {least : UInt64} {op : BinaryOp} (htoken : itemAt (tokenize source) i = .ok token)
    (hjoins : joins? g least token = some op) : token.span.Covers source op.symbol.toList := by
  have hop : binaryOp? token = some op := (Option.filter_eq_some_iff.mp hjoins).1
  have hkind : token.kind ≠ .finish := by
    rcases binaryOp?_kind hop with h | h <;> simp [h]
  rw [binaryOp?_symbol hop]
  exact covers_of_token htoken hkind

/-- The sign that writes an operation on one operand covers its symbol. -/
theorem covers_of_unaryOp? {op : UnaryOp} (htoken : itemAt (tokenize source) i = .ok token)
    (hop : unaryOp? token = some op) : token.span.Covers source op.symbol.toList := by
  have hkind := unaryOp?_kind hop
  obtain ⟨op', hop', htext⟩ := (spelled_tokenize source token (mem_tokenize htoken)).unaryOp hkind
  obtain rfl := Option.some.inj (hop'.symm.trans hop)
  rw [← htext]
  exact covers_of_token htoken (by simp [hkind])

/-! ## The places of what is read -/

/-- An operation reaches from its first operand to its second one, with the operator between them. -/
theorem placed_binaryOf {least : UInt64} {op : BinaryOp} {lhs rhs : Expr}
    (hlhs : lhs.Placed source lower (startOf source i)) (htoken : itemAt (tokenize source) i = .ok token)
    (hjoins : joins? g least token = some op)
    (hrhs : rhs.Placed source (startOf source (i + 1)) (startOf source j)) :
    Span.Unitable source lhs.span rhs.span ∧
      (binaryOf lhs token op rhs).Placed source lower (startOf source j) := by
  have hstop : token.span.stop ≤ startOf source (i + 1) := by
    refine stop_le_next ⟨htoken, rfl⟩ ?_
    rcases binaryOp?_kind (Option.filter_eq_some_iff.mp hjoins).1 with h | h <;> simp [h]
  have hbefore : lhs.span.stop ≤ token.span.offset := hlhs.le_upper.trans_eq (startOf_eq htoken)
  have hbehind : token.span.stop ≤ rhs.span.offset := hstop.trans hrhs.lower_le
  have hordered := hbefore.trans (token.span.offset_le_stop.trans hbehind)
  obtain ⟨hunitable, hpart, hend⟩ := hlhs.faithful.isPart.unite hrhs.faithful.isPart hordered
  have hop := covers_of_joins? htoken hjoins
  refine ⟨hunitable, .binary hpart hop ?_ hlhs.faithful hrhs.faithful, hlhs.lower_le, ?_⟩
  · exact ⟨Nat.le_refl _, hbefore, hbehind, hend.ge⟩
  · exact hend.trans_le hrhs.le_upper

/-- A sign reaches to the end of its operand. -/
theorem placed_unaryOf {op : UnaryOp} {operand : Expr} (htoken : itemAt (tokenize source) i = .ok token)
    (hop : unaryOp? token = some op)
    (hoperand : operand.Placed source (startOf source (i + 1)) (startOf source j)) :
    (unaryOf token op operand).Placed source (startOf source i) (startOf source j) := by
  have hsign : Stands (itemAt (tokenize source)) i .sign token := ⟨htoken, unaryOp?_kind hop⟩
  have hbehind := (stop_le_next hsign (by simp)).trans hoperand.lower_le
  obtain ⟨_, hpart, hend⟩ := (isPart_of_stands hsign (by simp)).unite hoperand.faithful.isPart hbehind
  have hparts : Span.InSequence token.span.offset (token.span.unite operand.span).stop
      [token.span, operand.span] := ⟨Nat.le_refl _, hbehind, hend.ge⟩
  exact ⟨.unary hpart (covers_of_unaryOp? htoken hop) hparts hoperand.faithful,
    (startOf_eq htoken).le, hend.trans_le hoperand.le_upper⟩

/-- A call reaches from its name to the closing parenthesis, with the arguments between them. -/
theorem placed_callOf {k : Nat} {name closing : Token} {args : List Expr}
    (hname : Stands (itemAt (tokenize source)) k .ident name)
    (hclosing : Stands (itemAt (tokenize source)) i .rightParen closing) (hlt : k < i)
    (hparts : Span.InSequence name.span.stop (startOf source i) (args.map Expr.span))
    (hargs : ∀ arg ∈ args, arg.Faithful source) :
    (callOf name closing args).Placed source (startOf source k) (startOf source (i + 1)) := by
  have hbehind := stop_le_offset hclosing (by simp) hname.1 hlt
  obtain ⟨_, hpart, hend⟩ :=
    (isPart_of_stands hname (by simp)).unite (isPart_of_stands hclosing (by simp)) hbehind
  have hclosed : startOf source i ≤ (name.span.unite closing.span).stop := by
    rw [hend, startOf_eq hclosing.1]
    exact closing.span.offset_le_stop
  exact ⟨.call hpart (namedAt_of_stands hname) ⟨Nat.le_refl _, hparts.mono hclosed⟩ hargs,
    (startOf_eq hname.1).le, hend.trans_le (stop_le_next hclosing (by simp))⟩

/-- An expression in parentheses takes their place, or lies between them. -/
theorem placed_parenthesized {opening closing : Token} {inner : Expr}
    (hopening : Stands (itemAt (tokenize source)) i .leftParen opening)
    (hinner : inner.Placed source (startOf source (i + 1)) (startOf source j))
    (hclosing : Stands (itemAt (tokenize source)) j .rightParen closing) (hlt : i < j) :
    (inner.parenthesized (opening.span.unite closing.span)).Placed source (startOf source i)
      (startOf source (j + 1)) := by
  have hbehind := stop_le_offset hclosing (by simp) hopening.1 hlt
  obtain ⟨_, hpart, hend⟩ :=
    (isPart_of_stands hopening (by simp)).unite (isPart_of_stands hclosing (by simp)) hbehind
  have hstart := startOf_eq hopening.1
  have hoffset : opening.span.offset ≤ inner.span.offset :=
    opening.span.offset_le_stop.trans ((stop_le_next hopening (by simp)).trans hinner.lower_le)
  have hstop : inner.span.stop ≤ closing.span.stop :=
    hinner.le_upper.trans ((startOf_eq hclosing.1).trans_le closing.span.offset_le_stop)
  have hclosed := stop_le_next hclosing (by simp)
  have hfaithful := hinner.faithful.parenthesized hpart hoffset (hstop.trans_eq hend.symm)
  rcases inner.span_parenthesized (opening.span.unite closing.span) with hspan | hspan
  · refine ⟨hfaithful, ?_, ?_⟩ <;> rw [hspan]
    · exact hstart.le
    · exact hend.trans_le hclosed
  · refine ⟨hfaithful, ?_, ?_⟩ <;> rw [hspan]
    · exact hstart.trans_le hoffset
    · exact hstop.trans hclosed

/-- What is read of a goal from item `i` to item `j` lies between the starts of the two.  The rest of a chain
and that of a call take in what was read before. -/
theorem Reads.placed {goal : Goal} {expr : Expr} (h : Reads g (itemAt (tokenize source)) goal i j expr) :
    match goal with
    | .extend _ lhs => ∀ lower, lhs.Placed source lower (startOf source i) →
        expr.Placed source lower (startOf source j)
    | .arguments name args => ∀ k < i, Stands (itemAt (tokenize source)) k .ident name →
        Span.InSequence name.span.stop (startOf source i) (args.map Expr.span) →
        (∀ arg ∈ args, arg.Faithful source) → expr.Placed source (startOf source k) (startOf source j)
    | _ => expr.Placed source (startOf source i) (startOf source j) := by
  induction h with
  | chain _ _ ihfirst ihrest => exact ihrest _ ihfirst
  | done => exact fun _ hlhs => hlhs
  | join htoken hjoins _ _ _ ihoperand ihrest =>
    exact fun lower hlhs => ihrest lower (placed_binaryOf hlhs htoken hjoins ihoperand).2
  | number htoken =>
    exact ⟨.number (isPart_of_stands htoken (by simp)), (startOf_eq htoken.1).le,
      stop_le_next htoken (by simp)⟩
  | var htoken =>
    exact ⟨.var (namedAt_of_stands htoken), (startOf_eq htoken.1).le,
      stop_le_next htoken (by simp)⟩
  | called _ ih | grouped _ ih | signed _ ih => exact ih
  | @callEmpty i name opening closing hname hopening hclosing =>
    have hbehind : name.span.stop ≤ startOf source (i + 2) :=
      (stop_le_next hname (by simp)).trans (startOf_le_next hopening (by simp))
    exact placed_callOf hname hclosing (by omega) hbehind (List.forall_mem_nil _)
  | @callFirst i j k name opening first expr hname hopening argument rest ihargument ihrest =>
    have hlt : i + 2 < j := argument.progress
    have hbehind : name.span.stop ≤ startOf source (i + 2) :=
      (stop_le_next hname (by simp)).trans (startOf_le_next hopening (by simp))
    have hparts : Span.InSequence name.span.stop (startOf source j) [first.span] :=
      ⟨hbehind.trans ihargument.lower_le, ihargument.le_upper⟩
    exact ihrest i (by omega) hname hparts (List.forall_mem_singleton.mpr ihargument.faithful)
  | @next i j k name comma args arg expr hcomma argument rest ihargument ihrest =>
    intro start hstart hname hparts hargs
    have hlt : i + 1 < j := argument.progress
    have hbehind := (startOf_le_next hcomma (by simp)).trans ihargument.lower_le
    have hmore : Span.InSequence name.span.stop (startOf source j) ((args ++ [arg]).map Expr.span) := by
      rw [List.map_append]
      exact hparts.append hbehind ihargument.le_upper
    refine ihrest start (by omega) hname hmore ?_
    exact List.forall_mem_append.mpr ⟨hargs, List.forall_mem_singleton.mpr ihargument.faithful⟩
  | close hclosing =>
    exact fun start hstart hname hparts hargs => placed_callOf hname hclosing hstart hparts hargs
  | @paren i j opening closing inner hopening expression hclosing ih =>
    have hlt : i + 1 < j := expression.progress
    exact placed_parenthesized hopening ih hclosing (by omega)
  | unary htoken hop _ _ _ ih => exact placed_unaryOf htoken hop ih

/-- What a chain that is entered goes on from lies before it. -/
theorem Met.placed {goal : Goal} (h : Met g (itemAt (tokenize source)) goal i) :
    match goal with
    | .extend _ lhs => ∃ lower, lhs.Placed source lower (startOf source i)
    | _ => True := by
  induction h with
  | rest _ first => exact ⟨_, first.placed⟩
  | further _ htoken hjoins _ operand ih =>
    obtain ⟨lower, hlhs⟩ := ih
    exact ⟨lower, (placed_binaryOf hlhs htoken hjoins operand.placed).2⟩
  | _ => trivial

/-- The value of an assignment stands behind its target. -/
theorem stop_target_le {least : UInt64} {target equals : Token} {value : Expr}
    (htarget : Stands (itemAt (tokenize source)) 0 .ident target)
    (hequals : Stands (itemAt (tokenize source)) 1 .equals equals)
    (h : Reads g (itemAt (tokenize source)) (.chain least) 2 j value) :
    target.span.stop ≤ value.span.offset :=
  (stop_le_next htarget (by simp)).trans
    ((startOf_le_next hequals (by simp)).trans h.placed.lower_le)

/-- Spans are united only if the second lies behind the first. -/
theorem Unites.unitable {first last : Span} (h : Unites g (itemAt (tokenize source)) first last) :
    Span.Unitable source first last := by
  cases h with
  | operands hmet htoken hjoins _ operand =>
    obtain ⟨lower, hlhs⟩ := hmet.placed
    exact (placed_binaryOf hlhs htoken hjoins operand.placed).1
  | call hname hclosing hlt =>
    have hbehind := stop_le_offset hclosing (by simp) hname.1 hlt
    exact ((isPart_of_stands hname (by simp)).unite (isPart_of_stands hclosing (by simp)) hbehind).1
  | parens hopening hclosing hlt =>
    have hbehind := stop_le_offset hclosing (by simp) hopening.1 hlt
    exact ((isPart_of_stands hopening (by simp)).unite (isPart_of_stands hclosing (by simp)) hbehind).1
  | signed htoken term =>
    have hbehind := (stop_le_next htoken (by simp)).trans term.placed.lower_le
    exact ((isPart_of_stands htoken (by simp)).unite term.placed.faithful.isPart hbehind).1
  | assigned htarget hequals expression =>
    have hbehind := stop_target_le htarget hequals expression
    exact ((isPart_of_stands htarget (by simp)).unite expression.placed.faithful.isPart hbehind).1

/-- Whatever the text, in alternatives that fail too, every two spans that are united can be. -/
theorem unitable_of_united {first last : Span} (h : (first, last) ∈ unitedSpans g source) :
    Span.Unitable source first last :=
  ((noted_final g source).2 first last h).unitable

/-- The spans of a statement that was read are faithful to its text. -/
theorem faithful_of_parse? {statement : Statement} (h : Statement.parse? g source = .ok statement) :
    statement.Faithful source := by
  cases parse?_eq_ok_iff.mp h with
  | expression expression => exact .expression expression.placed.faithful
  | assignment htarget hequals expression =>
    have hbehind := stop_target_le htarget hequals expression
    have hvalue := expression.placed.faithful
    obtain ⟨_, hpart, hend⟩ := (isPart_of_stands htarget (by simp)).unite hvalue.isPart hbehind
    exact .assignment hpart (namedAt_of_stands htarget) ⟨Nat.le_refl _, hbehind, hend.ge⟩ hvalue

/-- A variable keeps the place of its name in parentheses, a number takes the place of both. -/
example : Statement.parse? .default "(a) + (2)".toList =
    .ok (.expression (.binary ⟨1, 8, 1⟩ (.var ⟨1, 1, 1⟩ "a") ⟨⟨4, 1, 1⟩, .add⟩
      (.number ⟨6, 3, 1⟩ ⟨2, 0⟩))) := by
  cbv

end Reading

end Abacus
