import Abacus.Proofs.Reading.Entries

/-!
# Speculation

An alternative that is tried may consume, try alternatives of its own and fail anywhere.  Whatever it does,
the state behind it differs from the one before only in what was learnt on the way: tokens that were taken
from the lexer, at the end of the buffer, and outcomes of rules (`Frame`).  The marks are balanced, so an
attempt that fails finds its own position on top of them and returns to it.

All readers are put together in the same few ways (`Built`), and each way keeps the frame.  A part of a run
is met with a number of attempts pending around it (`Enters`).  A fatal failure of that part, a lexical error
or an overflow, ends the run: each of the attempts drops its mark and passes the failure on, and nothing
else happens any more (`Enters.passes_on`).

The main statement is `speculation_restores`.
-/

namespace Abacus

/-! ## Tokens taken from a lexer -/

/-- The lexer gives these tokens, one after the other, and is then the last one. -/
inductive Lexer.Passes : Lexer → List Token → Lexer → Prop
  | nil (lexer : Lexer) : Passes lexer [] lexer
  | cons {lexer after last : Lexer} {token : Token} {tokens : List Token}
      (h : lexer.next? = some (.ok token, after)) (rest : Passes after tokens last) :
      Passes lexer (token :: tokens) last

namespace Lexer

variable {lexer after last : Lexer} {tokens tokens' : List Token} {span : Span}

theorem Passes.append (h : lexer.Passes tokens after) (h' : after.Passes tokens' last) :
    lexer.Passes (tokens ++ tokens') last := by
  induction h with
  | nil => exact h'
  | cons hnext _ ih => exact .cons hnext (ih h')

/-- The tokens that are passed are the next ones of those that the lexer gives. -/
theorem Passes.of_gives {items : List Lexed} (h : lexer.Passes tokens last) (hgives : lexer.Gives items) :
    ∃ rest, items = tokens.map .ok ++ rest ∧ last.Gives rest := by
  induction h generalizing items with
  | nil => exact ⟨items, rfl, hgives⟩
  | cons hnext _ ih =>
    cases hgives with
    | nil hnone =>
      rw [hnone] at hnext
      cases hnext
    | cons hitem hrest =>
      obtain ⟨rfl, rfl⟩ := Prod.mk.inj (Option.some.inj (hitem.symm.trans hnext))
      obtain ⟨rest, rfl, hlast⟩ := ih hrest
      exact ⟨rest, rfl, hlast⟩

/-- Nothing is passed by a lexer that gives nothing. -/
theorem Passes.of_none (h : lexer.Passes tokens last) (hnone : lexer.next? = none) :
    tokens = [] ∧ last = lexer := by
  cases h with
  | nil => exact ⟨rfl, rfl⟩
  | cons hnext =>
    rw [hnone] at hnext
    cases hnext

/-- A lexer that gave an error gives nothing more. -/
theorem next?_of_error (h : lexer.next? = some (.error span, after)) : after.next? = none := by
  have hopen : lexer.finished = false := by
    cases hfinished : lexer.finished with
    | false => rfl
    | true =>
      rw [next?_of_finished hfinished] at h
      cases h
  rcases next?_cases hopen with ⟨_, _, hnext, _⟩ | ⟨_, _, hnext, hafter⟩ | ⟨_, _, hnext, _⟩
  · cases hnext.symm.trans h
  · obtain ⟨_, rfl⟩ := Prod.mk.inj (Option.some.inj (hnext.symm.trans h))
    exact next?_of_finished hafter
  · cases hnext.symm.trans h

end Lexer

namespace Reading

open Abacus.Parser

variable {g : Grammar} {source : List Char} {α β : Type}

/-! ## What readers leave as it was -/

/-- What may change while something is read.  The marks are the same, the buffer has the next tokens of the
lexer at its end, and what is remembered is remembered with the same outcome.  The lexer stands behind
these tokens, or behind an error that it gave after them. -/
structure Frame (state final : State) : Prop where
  marks : final.marks = state.marks
  buffer : ∃ tokens last, final.tokens = state.tokens ++ tokens ∧
    state.lexer.Passes tokens.toList last ∧
      (final.lexer = last ∨ ∃ span, last.next? = some (.error span, final.lexer))
  memory : ∀ (key : Nat) (outcome : Outcome), state.memo[key]? = some outcome →
    final.memo[key]? = some outcome

namespace Frame

variable {state middle final : State}

/-- Positions and notes are no part of the frame. -/
theorem moved (state : State) (position : Nat) (worked : List (Rule × Nat))
    (united : List (Span × Span)) : Frame state { state with position, worked, united } :=
  ⟨rfl, ⟨#[], state.lexer, Array.append_empty.symm, .nil _, .inl rfl⟩, fun _ _ h => h⟩

theorem refl (state : State) : Frame state state := moved state _ _ _

theorem trans (h : Frame state middle) (h' : Frame middle final) : Frame state final := by
  refine ⟨h'.marks.trans h.marks, ?_, fun key outcome hfound => h'.memory key outcome
    (h.memory key outcome hfound)⟩
  obtain ⟨tokens, last, htokens, hpasses, hlast⟩ := h.buffer
  obtain ⟨tokens', last', htokens', hpasses', hlast'⟩ := h'.buffer
  refine ⟨tokens ++ tokens', ?_⟩
  rw [htokens', htokens, Array.append_assoc, Array.toList_append]
  rcases hlast with heq | ⟨span, herror⟩
  · rw [heq] at hpasses'
    exact ⟨last', rfl, hpasses.append hpasses', hlast'⟩
  · -- behind its error the lexer gives neither tokens nor another error
    have hnone := Lexer.next?_of_error herror
    obtain ⟨hnil, rfl⟩ := hpasses'.of_none hnone
    rw [hnil, List.append_nil]
    refine ⟨last, rfl, hpasses, .inr ⟨span, ?_⟩⟩
    rcases hlast' with heq | ⟨span', herror'⟩
    · rw [heq]
      exact herror
    · rw [hnone] at herror'
      cases herror'

/-- A new outcome may be remembered. -/
theorem insert (h : Frame state final) {key : Nat} (hnew : state.memo[key]? = none)
    (outcome : Outcome) : Frame state { final with memo := final.memo.insert key outcome } := by
  refine ⟨h.marks, h.buffer, fun key' outcome' hfound => ?_⟩
  have hne : key ≠ key' := by
    intro heq
    rw [← heq, hnew] at hfound
    cases hfound
  rw [Std.TreeMap.getElem?_insert, if_neg (by simpa using hne)]
  exact h.memory key' outcome' hfound

end Frame

/-- Whatever the reader gives, it keeps the frame. -/
def Framed (m : Parser α) : Prop := ∀ state, Frame state (finalOf (m state))

namespace Framed

variable {m : Parser α}

theorem pure (value : α) : Framed (Pure.pure value) := Frame.refl

theorem rethrow (stop : Stop) : Framed (throw stop : Parser α) := Frame.refl

theorem bind {f : α → Parser β} (h : Framed m) (hf : ∀ value, Framed (f value)) :
    Framed (m >>= f) := by
  intro state
  have hm := h state
  cases hrun : m state with
  | ok value middle =>
    rw [hrun] at hm
    simpa [Bind.bind, EStateM.bind, hrun] using hm.trans (hf value middle)
  | error stop final =>
    rw [hrun] at hm
    simpa [Bind.bind, EStateM.bind, hrun, finalOf] using hm

theorem get_bind {f : State → Parser β} (h : ∀ state, Frame state (finalOf (f state state))) :
    Framed (get >>= f) := h

theorem pull (count : Nat) : Framed (pull count) := by
  induction count with
  | zero => exact pure _
  | succ count ih =>
    refine get_bind fun state => ?_
    cases hnext : state.lexer.next? with
    | none => exact .refl state
    | some step =>
      obtain ⟨item, after⟩ := step
      cases item with
      | error span =>
        exact ⟨rfl, ⟨#[], state.lexer, Array.append_empty.symm, .nil _, .inr ⟨span, hnext⟩⟩,
          fun _ _ h => h⟩
      | ok token =>
        have htaken : Frame state
            { state with lexer := after, tokens := state.tokens.push token } :=
          ⟨rfl, ⟨#[token], after, Array.push_eq_append, .cons hnext (.nil _), .inl rfl⟩,
            fun _ _ h => h⟩
        exact htaken.trans (ih _)

theorem peek (ahead : Nat) : Framed (peek ahead) := by
  have hget : Framed (get : Parser State) := Frame.refl
  refine bind hget fun _ => bind hget fun _ => bind (pull _) fun _ => bind hget fun state => ?_
  dsimp only
  split
  · exact pure _
  · exact rethrow _

theorem attempt (h : Framed m) : Framed (Parser.attempt m) := by
  intro state
  have hm := h { state with marks := state.position :: state.marks }
  -- the mark of the attempt is on top again, whatever the alternative did
  have hpopped : ∀ final : State, Frame { state with marks := state.position :: state.marks } final →
      ∀ position, Frame state { final with marks := final.marks.tail, position } := by
    intro final hframe position
    refine ⟨?_, hframe.buffer, hframe.memory⟩
    rw [hframe.marks]
    rfl
  obtain ⟨_, final, hrun, hend⟩ | ⟨_, final, hrun, _, hend⟩ | ⟨_, final, hrun, _, hend⟩ :=
    attempt_cases m state
  all_goals
    rw [hrun] at hm
    rw [hend]
    exact hpopped final hm _

theorem remembering {rule : Rule} {body : Parser Expr} (h : Framed body) :
    Framed (remembering g rule body) := by
  intro state
  have hbody := (Frame.moved state state.position ((rule, state.position) :: state.worked)
    state.united).trans (h _)
  unfold Parser.remembering
  cases g.remembers with
  | false => exact hbody
  | true =>
    simp only [if_true]
    cases hmemo : state.memo[memoKey rule state.position]? with
    | some outcome =>
      cases outcome with
      | failed error => exact .refl state
      | parsed stop expr => exact .moved state stop _ _
    | none =>
      obtain ⟨_, final, hrun, hend⟩ | ⟨_, final, hrun, _, hend⟩ | ⟨_, final, hrun, _, hend⟩ :=
        workOutOnce_cases rule body state
      all_goals
        rw [hrun] at hbody
        simp only [hend]
      · exact hbody.insert hmemo _
      · exact hbody
      · exact hbody.insert hmemo _

end Framed

/-! ## How readers are put together -/

theorem Stays.outlasts {m : Parser α} (h : Stays g source m) : Outlasts g source m m := by
  intro state hstate
  have hm := h state hstate
  cases hrun : m state with
  | ok value final =>
    rw [hrun] at hm
    exact ⟨rfl, hm⟩
  | error stop final =>
    rw [hrun] at hm
    cases stop with
    | outOfSteps => trivial
    | failed why => exact ⟨rfl, hm⟩

/-- The readers of a parser: lookaheads, moves and errors, put together in sequences, attempts and rules. -/
inductive Built (g : Grammar) : {α : Type} → Parser α → Prop
  | pure {α : Type} (value : α) : Built g (Pure.pure value : Parser α)
  | stop {α : Type} (stop : Stop) : Built g (throw stop : Parser α)
  | peek (ahead : Nat) : Built g (peek ahead)
  | advance : Built g advance
  | unite (first last : Span) : Built g (unite first last)
  | bind {α β : Type} {m : Parser α} {f : α → Parser β} (hm : Built g m)
      (hf : ∀ value, Built g (f value)) : Built g (m >>= f)
  | attempt {α : Type} {m : Parser α} (h : Built g m) : Built g (attempt m)
  | rule {steps : Nat} {rule : Rule} (h : Built g (bodyOf g steps rule)) :
      Built g (remembering g rule (bodyOf g steps rule))

namespace Built

theorem framed {m : Parser α} (h : Built g m) : Framed m := by
  induction h with
  | pure value => exact .pure value
  | stop stop => exact .rethrow stop
  | peek ahead => exact .peek ahead
  | advance => exact fun state => .moved state _ _ _
  | unite first last => exact fun state => .moved state _ _ _
  | bind _ _ ihm ihf => exact .bind ihm ihf
  | attempt _ ih => exact .attempt ih
  | rule _ ih => exact .remembering ih

theorem outlasts {m : Parser α} (h : Built g m) : Outlasts g source m m := by
  induction h with
  | pure value => exact .pure value
  | stop stop =>
    cases stop with
    | failed why => exact .failed why
    | outOfSteps => exact .outOfSteps _
  | peek ahead => exact .peek ahead
  | advance => exact .advance
  | unite first last => exact .unite first last
  | bind _ _ ihm ihf => exact .bind ihm ihf
  | attempt _ ih => exact .attempt ih
  | @rule steps rule _ _ => exact (stays_remembering g source steps rule).outlasts

theorem expect (kind : TokenKind) (context : Context) : Built g (expect kind context) := by
  refine .bind (.peek 0) fun token => ?_
  split
  · exact .bind .advance fun _ => .pure token
  · exact .stop _

theorem skip (kind : TokenKind) (context : Context) :
    Built g (discard (Parser.expect kind context)) :=
  .bind (expect kind context) fun _ => .pure _

theorem number : Built g number := by
  refine .bind (expect .number .expression) fun token => ?_
  split
  · exact .pure _
  · exact .stop _

theorem closeCall (name : Token) (args : List Expr) : Built g (closeCall name args) :=
  .bind (expect .rightParen .call) fun _ => .bind (.unite _ _) fun _ => .pure _

theorem enclose (opening closing : Token) (inner : Expr) : Built g (enclose opening closing inner) := by
  cases inner with
  | var => exact .pure _
  | _ => exact .bind (.unite _ _) fun _ => .pure _

end Built

/-- The readers of the grammar are put together in these ways. -/
structure Composed (g : Grammar) (steps : Nat) : Prop where
  expression : Built g (expression g steps)
  chain : ∀ least, Built g (chain g steps least)
  extend : ∀ least lhs, Built g (extend g steps least lhs)
  term : Built g (term g steps)
  call : Built g (call g steps)
  moreArguments : Built g (moreArguments g steps)
  paren : Built g (paren g steps)
  unary : Built g (unary g steps)

namespace Composed

variable {steps : Nat}

theorem extend_succ (h : Composed g steps) (least : UInt64) (lhs : Expr) :
    Built g (Parser.extend g (steps + 1) least lhs) := by
  refine .bind (.peek 0) fun token => ?_
  cases binaryOp? token with
  | none => exact .pure lhs
  | some op =>
    by_cases hless : g.priority op < least
    · simp only [hless, if_true]
      exact .pure lhs
    · simp only [hless, if_false]
      refine .bind .advance fun _ => ?_
      cases rightPriority? g op with
      | none => exact .stop _
      | some inner =>
        exact .bind (h.chain inner) fun rhs =>
          .bind (.unite lhs.span rhs.span) fun span => h.extend least _

theorem term_succ (h : Composed g steps) : Built g (Parser.term g (steps + 1)) := by
  refine .bind (.peek 0) fun token => ?_
  cases token.kind with
  | number => exact .number
  | ident =>
    refine .bind (.attempt (.rule h.call)) fun outcome => ?_
    cases outcome with
    | ok expr => exact .pure expr
    | error error =>
      refine .bind (.peek 1) fun next => ?_
      split
      · exact .stop _
      · exact .bind .advance fun _ => .pure _
  | leftParen => exact .rule h.paren
  | sign => exact .rule h.unary
  | _ => exact .stop _

theorem call_succ (h : Composed g steps) : Built g (Parser.call g (steps + 1)) := by
  refine .bind (.expect .ident .call) fun name => .bind (.skip .leftParen .call) fun _ =>
    .bind (.peek 0) fun next => ?_
  by_cases hkind : next.kind = .rightParen
  · simp only [hkind, if_true]
    exact .bind (.pure []) fun args => .closeCall name args
  · simp only [hkind, if_false]
    exact .bind h.expression fun first => .bind h.moreArguments fun others =>
      .bind (.pure (first :: others)) fun args => .closeCall name args

theorem moreArguments_succ (h : Composed g steps) :
    Built g (Parser.moreArguments g (steps + 1)) := by
  refine .bind (.peek 0) fun next => ?_
  split
  · exact .bind .advance fun _ => .bind h.expression fun _ => .bind h.moreArguments fun _ => .pure _
  · exact .pure []

theorem paren_succ (h : Composed g steps) : Built g (Parser.paren g (steps + 1)) :=
  .bind (.expect .leftParen .expression) fun opening => .bind h.expression fun inner =>
    .bind (.expect .rightParen .expression) fun closing => .enclose opening closing inner

theorem unary_succ (h : Composed g steps) : Built g (Parser.unary g (steps + 1)) := by
  refine .bind (.peek 0) fun token => ?_
  cases unaryOp? token with
  | none => exact .stop _
  | some op =>
    refine .bind .advance fun _ => .bind (.peek 0) fun next => ?_
    split
    · exact .bind h.term fun _ => .bind (.unite _ _) fun _ => .pure _
    · exact .stop _

end Composed

theorem composed (g : Grammar) (steps : Nat) : Composed g steps := by
  induction steps with
  | zero =>
    exact {
      expression := .stop _
      chain := fun _ => .stop _
      extend := fun _ _ => .stop _
      term := .stop _
      call := .stop _
      moreArguments := .stop _
      paren := .stop _
      unary := .stop _ }
  | succ steps ih =>
    exact {
      expression := .rule (ih.chain 0)
      chain := fun least => .bind ih.term fun lhs => ih.extend least lhs
      extend := ih.extend_succ
      term := ih.term_succ
      call := ih.call_succ
      moreArguments := ih.moreArguments_succ
      paren := ih.paren_succ
      unary := ih.unary_succ }

/-! ## Parts of a run -/

/-- Run from `state`, the reader comes to run `part` from `entry`, with `depth` attempts around it that are
not over yet. -/
inductive Enters (g : Grammar) {β : Type} (part : Parser β) (entry : State) :
    Nat → {α : Type} → Parser α → State → Prop
  | here : Enters g part entry 0 part entry
  | first {depth : Nat} {α γ : Type} {m : Parser α} {f : α → Parser γ} {state : State}
      (h : Enters g part entry depth m state) : Enters g part entry depth (m >>= f) state
  | next {depth : Nat} {α γ : Type} {m : Parser α} {f : α → Parser γ} {state middle : State} {value : α}
      (hm : Built g m) (hrun : m state = .ok value middle)
      (h : Enters g part entry depth (f value) middle) : Enters g part entry depth (m >>= f) state
  | attempt {depth : Nat} {α : Type} {m : Parser α} {state : State}
      (h : Enters g part entry depth m { state with marks := state.position :: state.marks }) :
      Enters g part entry (depth + 1) (attempt m) state
  | rule {depth steps : Nat} {rule : Rule} {state : State}
      (hmemo : g.remembers = true → state.memo[memoKey rule state.position]? = none)
      (h : Enters g part entry depth (bodyOf g steps rule)
        { state with worked := (rule, state.position) :: state.worked }) :
      Enters g part entry depth (remembering g rule (bodyOf g steps rule)) state

namespace Enters

variable {part : Parser β} {m : Parser α} {entry state : State} {depth : Nat}

/-- All parts of a run from a reached state are run from reached states. -/
theorem reached (h : Enters g part entry depth m state) (hstate : Reached g source state) :
    Reached g source entry := by
  induction h with
  | here => exact hstate
  | first _ ih => exact ih hstate
  | @next _ _ _ m f state middle value hm hrun _ ih =>
    have hmiddle := hm.outlasts state hstate
    rw [hrun] at hmiddle
    exact ih hmiddle.2
  | attempt _ ih | rule _ _ ih => exact ih (hstate.moved _ _ _ _)

/-- A fatal failure of a part of a run ends the run.  Of the state it leaves behind only the marks change,
one for each attempt around it. -/
theorem passes_on (h : Enters g part entry depth m state) {why : SyntaxFailure} {final : State}
    (hrun : part entry = .error (.failed why) final) (hfatal : why.isFatal = true) :
    m state = .error (.failed why) { final with marks := final.marks.drop depth } := by
  induction h with
  | here => exact hrun
  | first _ ih => simp [Bind.bind, EStateM.bind, ih]
  | next _ hm _ ih => simpa [Bind.bind, EStateM.bind, hm] using ih
  | attempt _ ih =>
    cases why with
    | refused error => simp_all [Parser.attempt]
    | overflow => simp [Parser.attempt, ih]
  | rule hmemo _ ih =>
    unfold remembering workOutOnce workOut
    cases hremembers : g.remembers with
    | false => simpa using ih
    | true =>
      cases why with
      | refused error => simp_all
      | overflow => simp [hmemo hremembers, ih]

end Enters

/-! ## Lookaheads -/

theorem Meets.and {m : Parser α} {state : State} {post post' : α → State → Prop}
    {fail fail' : SyntaxFailure → State → Prop} (h : Meets m state post fail)
    (h' : Meets m state post' fail') :
    Meets m state (fun value final => post value final ∧ post' value final)
      (fun why final => fail why final ∧ fail' why final) := by
  unfold Meets at *
  cases hrun : m state with
  | ok value final =>
    rw [hrun] at h h'
    exact ⟨h, h'⟩
  | error stop final =>
    rw [hrun] at h h'
    cases stop with
    | failed why => exact ⟨h, h'⟩
    | outOfSteps => exact h

/-- The lexer gave tokens, which are in the buffer now, and then the error that is reported.  It was asked
for nothing more, and nothing else in the state changed. -/
def StopsAtCharacter (state : State) (why : SyntaxFailure) (final : State) : Prop :=
  ∃ (tokens : Array Token) (last : Lexer) (span : Span), state.lexer.Passes tokens.toList last ∧
    last.next? = some (.error span, final.lexer) ∧ why = .refused ⟨span, .unexpectedChar⟩ ∧
    final = { state with lexer := final.lexer, tokens := state.tokens ++ tokens }

theorem pull_stops (count : Nat) (state : State) :
    Meets (pull count) state (fun _ _ => True) (StopsAtCharacter state) := by
  induction count generalizing state with
  | zero => exact trivial
  | succ count ih =>
    refine Meets.get_bind ?_
    cases hnext : state.lexer.next? with
    | none => exact trivial
    | some step =>
      obtain ⟨item, after⟩ := step
      cases item with
      | error span =>
        exact Meets.set_bind ⟨#[], state.lexer, span, .nil _, hnext, rfl, by rw [Array.append_empty]⟩
      | ok token =>
        refine Meets.set_bind ((ih _).imp (fun _ _ _ => trivial) fun why final hstops => ?_)
        obtain ⟨tokens, last, span, hpasses, herror, hreported, hfinal⟩ := hstops
        refine ⟨#[token] ++ tokens, last, span, ?_, herror, hreported, ?_⟩
        · rw [Array.toList_append]
          exact .cons hnext hpasses
        · rw [← Array.append_assoc, ← Array.push_eq_append]
          exact hfinal

/-- In a reached state a lookahead gives a token, unless the lexer meets an error: the buffer is not empty. -/
theorem peek_stops {state : State} (hstate : Reached g source state) (ahead : Nat) :
    Meets (peek ahead) state (fun _ _ => True) (StopsAtCharacter state) := by
  refine Meets.get_bind (Meets.get_bind (Meets.bind
    (((pull_meets _ hstate.kept).and (pull_stops _ state)).imp ?_ fun _ _ h => h.2)))
  intro _ final hfacts
  obtain ⟨⟨hfinal, hposition, hsize⟩, _⟩ := hfacts
  have hshows := hfinal.shows (ended_tokenize source) (state.position + ahead)
    (hsize.imp_left (by omega))
  obtain ⟨token, htoken, _⟩ := Option.map_eq_some_iff.mp hshows
  refine Meets.get_bind ?_
  dsimp only
  rw [htoken]
  exact trivial

theorem Meets.of_error {m : Parser α} {state final : State} {stop : Stop}
    {post : α → State → Prop} {fail : SyntaxFailure → State → Prop} (h : Meets m state post fail)
    (hrun : m state = .error stop final) : ∃ why, stop = .failed why ∧ fail why final := by
  unfold Meets at h
  rw [hrun] at h
  cases stop with
  | failed why => exact ⟨why, rfl, h⟩
  | outOfSteps => exact h.elim

/-! ## Attempts -/

/-- What runs under an attempt: rules, and the two ways to read a whole text. -/
inductive Attempted (g : Grammar) : {α : Type} → Parser α → Prop
  | rule (steps : Nat) (rule : Rule) : Attempted g (remembering g rule (bodyOf g steps rule))
  | expression (steps : Nat) : Attempted g (wholeExpression g steps)
  | assignment (steps : Nat) : Attempted g (wholeAssignment g steps)

theorem built_bodyOf (g : Grammar) (steps : Nat) (rule : Rule) : Built g (bodyOf g steps rule) := by
  cases rule with
  | expression => exact (composed g steps).chain 0
  | call => exact (composed g steps).call
  | paren => exact (composed g steps).paren
  | unary => exact (composed g steps).unary

theorem Attempted.built {m : Parser α} (h : Attempted g m) : Built g m := by
  cases h with
  | rule steps rule => exact .rule (built_bodyOf g steps rule)
  | expression steps =>
    exact .bind (composed g steps).expression fun _ => .bind (.skip _ _) fun _ => .pure _
  | assignment steps =>
    exact .bind (.expect _ _) fun _ => .bind (.skip _ _) fun _ =>
      .bind (composed g steps).expression fun _ => .bind (.unite _ _) fun _ =>
        .bind (.skip _ _) fun _ => .pure _

/-- What an attempt leaves behind, however it ends.  The marks are the same.  A failure that it gives as a
value can be recovered from and leaves the position the same; a failure that it passes on is fatal.  The
buffer is only extended at its end, with the next tokens of the text, and what was remembered is
remembered with the same outcome. -/
structure Restores (source : List Char) (state : State)
    (result : EStateM.Result Stop State (Except (Located SyntaxError) α)) : Prop where
  marks : (finalOf result).marks = state.marks
  position : ∀ error final, result = .ok (.error error) final →
    final.position = state.position ∧ error.val.isLexical = false
  passed : ∀ why final, result = .error (.failed why) final → why.isFatal = true
  buffer : state.tokens.toList <+: (finalOf result).tokens.toList
  input : (finalOf result).tokens.toList.map .ok <+: tokenize source
  memory : ∀ (key : Nat) (outcome : Outcome), state.memo[key]? = some outcome →
    (finalOf result).memo[key]? = some outcome

/-- An attempt that failed in a way to recover from is back where it started. -/
theorem Framed.recovers {m : Parser α} (h : Framed m) {state final : State} {error : Located SyntaxError}
    (hrun : Parser.attempt m state = .ok (.error error) final) :
    final.position = state.position ∧ error.val.isLexical = false := by
  have hmarks := (h { state with marks := state.position :: state.marks }).marks
  obtain ⟨_, _, _, hend⟩ | ⟨_, _, _, _, hend⟩ | ⟨error', behind, hbehind, hlexical, hend⟩ :=
    attempt_cases m state
  · cases hend.symm.trans hrun
  · cases hend.symm.trans hrun
  · cases hend.symm.trans hrun
    -- the mark of the attempt is the first one behind the alternative too
    have hhead : behind.marks = state.position :: state.marks := by
      rw [hbehind] at hmarks
      exact hmarks
    exact ⟨by rw [hhead]; rfl, hlexical⟩

/-- An attempt passes on fatal failures only. -/
theorem isFatal_of_attempt {m : Parser α} {state final : State} {why : SyntaxFailure}
    (hrun : attempt m state = .error (.failed why) final) : why.isFatal = true := by
  obtain ⟨_, _, _, hend⟩ | ⟨_, _, _, hfatal, hend⟩ | ⟨_, _, _, _, hend⟩ := attempt_cases m state
  · cases hend.symm.trans hrun
  · cases hend.symm.trans hrun
    exact hfatal why rfl
  · cases hend.symm.trans hrun

/-- Behind the tokens of a reached state the lexer gives the rest of the text. -/
theorem Frame.input {state final : State} (h : Frame state final) (hstate : Reached g source state) :
    final.tokens.toList.map .ok <+: tokenize source := by
  obtain ⟨tokens, last, htokens, hpasses, _⟩ := h.buffer
  obtain ⟨rest, hitems, hgives⟩ := hstate.kept.buffer
  obtain ⟨rest', rfl, _⟩ := hpasses.of_gives hgives
  exact ⟨rest', by simp [hitems, htokens]⟩

theorem Built.restores {m : Parser α} (h : Built g m) {state : State} (hstate : Reached g source state) :
    Restores source state (Parser.attempt m state) := by
  have hframe := h.framed.attempt state
  obtain ⟨tokens, _, htokens, _⟩ := hframe.buffer
  exact {
    marks := hframe.marks
    position := fun _ _ hrun => h.framed.recovers hrun
    passed := fun _ _ hrun => isFatal_of_attempt hrun
    buffer := ⟨tokens.toList, by simp [htokens]⟩
    input := hframe.input hstate
    memory := hframe.memory }

/-! ## Main statement -/

/-- All parts of a parse are run from reached states.  From each of them an attempt, whatever alternative it
runs, leaves the marks as they were, and the position too if the alternative failed in a way to recover
from; the buffer is only extended at its end, with the next tokens of the text, and the memory only by
outcomes that were not there.  A fatal failure of any part of a run, however many attempts are pending
around it, is the failure of the run, and behind it nothing happens but that these attempts drop their
marks.  A lookahead that gives no token stops at the error of the lexer, so there always is a token in the
buffer when it looks there. -/
theorem speculation_restores (g : Grammar) (source : List Char) :
    (∀ (α : Type) (part : Parser α) (entry : State) (depth steps : Nat),
      Enters g part entry depth (statement g steps) (.start source) → Reached g source entry) ∧
    (∀ (α : Type) (alternative : Parser α), Attempted g alternative → ∀ state,
      Reached g source state → Restores source state (attempt alternative state)) ∧
    (∀ (α β : Type) (part : Parser β) (entry : State) (depth : Nat) (whole : Parser α) (state : State)
      (why : SyntaxFailure) (final : State), Enters g part entry depth whole state →
        part entry = .error (.failed why) final → why.isFatal = true →
          whole state = .error (.failed why) { final with marks := final.marks.drop depth }) ∧
    ∀ (state : State) (ahead : Nat) (stop : Stop) (final : State), Reached g source state →
      peek ahead state = .error stop final →
        ∃ why, stop = .failed why ∧ StopsAtCharacter state why final := by
  refine ⟨?_, ?_, ?_, ?_⟩
  · intro α part entry depth steps henters
    exact henters.reached .start
  · intro α alternative hattempted state hstate
    exact hattempted.built.restores hstate
  · intro α β part entry depth whole state why final henters hrun hfatal
    exact henters.passes_on hrun hfatal
  · intro state ahead stop final hstate hrun
    exact (peek_stops hstate ahead).of_error hrun

/-- The state in which the argument of the call in `f(?` is looked for. -/
def openCall : State where
  lexer := ⟨⟨['?'], 2, 1⟩, false⟩
  tokens := #[⟨.ident, "f", ⟨0, 1, 1⟩⟩, ⟨.leftParen, "(", ⟨1, 1, 1⟩⟩]
  position := 2
  marks := [0, 0]
  memo := ∅
  worked := [(.call, 0), (.expression, 0)]
  united := []

/-- Two attempts are pending there: one of the call and one of the whole text. -/
theorem enters_openCall :
    Enters .default (peek 0) openCall 2 (statement .default 40) (.start "f(?".toList) := by
  refine .first (.attempt (.first ?_))
  refine @Enters.rule .default _ _ _ _ 39 .expression _ ?_ (.first ?_)
  · exact fun _ => rfl
  refine .next (.peek 0) (rfl : _ = EStateM.Result.ok (⟨.ident, "f", ⟨0, 1, 1⟩⟩ : Token) _) ?_
  refine .first (.attempt ?_)
  refine @Enters.rule .default _ _ _ _ 37 .call _ ?_ ?_
  · exact fun _ => rfl
  refine .next (.expect .ident .call)
    (rfl : _ = EStateM.Result.ok (⟨.ident, "f", ⟨0, 1, 1⟩⟩ : Token) _) ?_
  refine .next (.skip .leftParen .call) (rfl : _ = EStateM.Result.ok PUnit.unit _) ?_
  exact .first .here

/-- In `f(?` the lexer stops at the third character, and its error goes through both attempts. -/
theorem speculation_restores_in_open_call :
    Reached .default "f(?".toList openCall ∧
    Restores "f(?".toList openCall
      (attempt (remembering .default .call (bodyOf .default 37 .call)) openCall) ∧
    ∃ final, peek 0 openCall = .error (.failed (.refused ⟨⟨2, 1, 1⟩, .unexpectedChar⟩)) final ∧
      StopsAtCharacter openCall (.refused ⟨⟨2, 1, 1⟩, .unexpectedChar⟩) final ∧
      statement .default 40 (.start "f(?".toList) =
        .error (.failed (.refused ⟨⟨2, 1, 1⟩, .unexpectedChar⟩)) { final with marks := [] } := by
  obtain ⟨hreached, hrestores, hpasses, hstops⟩ := speculation_restores .default "f(?".toList
  have hopen : Reached .default "f(?".toList openCall := hreached _ _ _ _ _ enters_openCall
  have hpeek : ∃ final, peek 0 openCall = .error (.failed (.refused ⟨⟨2, 1, 1⟩, .unexpectedChar⟩)) final :=
    ⟨_, rfl⟩
  refine ⟨hopen, hrestores _ _ (.rule 37 .call) _ hopen, ?_⟩
  obtain ⟨final, hfinal⟩ := hpeek
  obtain ⟨why, hwhy, hcharacter⟩ := hstops _ _ _ _ hopen hfinal
  have hmarks : final.marks.drop 2 = [] := by
    obtain ⟨tokens, last, span, _, _, _, hsame⟩ := hcharacter
    rw [hsame]
    rfl
  refine ⟨final, hfinal, ?_, ?_⟩
  · rwa [← Stop.failed.inj hwhy] at hcharacter
  · rw [← hmarks]
    exact hpasses _ _ _ _ _ _ _ _ _ enters_openCall hfinal rfl

end Reading

end Abacus
