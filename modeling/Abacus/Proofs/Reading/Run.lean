import Abacus.Proofs.Reading.Rules

/-!
# A parser follows the rules

A parser meets the items of a text through a buffer, rewinds it and remembers outcomes.  None of
that shows in what it gives: run on a state whose buffer and memory agree with the text, every rule
reads what `Reads` says or stops as `Fails` says, and leaves such a state behind.

`Yields` is the judgement for one reader, closed under the ways in which readers are put together.
The count of steps is an induction: a rule needs four steps for every item ahead of it and a few
more, so a count that starts large enough is never used up.  The main statement is `enough`.
-/

namespace Abacus.Reading

open Abacus.Parser

/-- What a reader gives at a state: `post` holds after a success and `fail` after a failure, and the
steps are not used up. -/
def Meets {α : Type} (m : Parser α) (state : State) (post : α → State → Prop)
    (fail : SyntaxFailure → State → Prop) : Prop :=
  match m state with
  | .ok value final => post value final
  | .error (.failed why) final => fail why final
  | .error .outOfSteps _ => False

theorem Meets.imp {α : Type} {m : Parser α} {state : State} {post post' : α → State → Prop}
    {fail fail' : SyntaxFailure → State → Prop} (h : Meets m state post fail)
    (hpost : ∀ value final, post value final → post' value final)
    (hfail : ∀ why final, fail why final → fail' why final) :
    Meets m state post' fail' := by
  unfold Meets at *
  split at h
  · exact hpost _ _ h
  · exact hfail _ _ h
  · exact h

theorem Meets.bind {α β : Type} {m : Parser α} {f : α → Parser β} {state : State}
    {post : β → State → Prop} {fail : SyntaxFailure → State → Prop}
    (h : Meets m state (fun value middle => Meets (f value) middle post fail) fail) :
    Meets (m >>= f) state post fail := by
  unfold Meets at h
  split at h
  · rename_i value middle hm
    simpa [Meets, Bind.bind, EStateM.bind, hm] using h
  · rename_i why final hm
    simpa [Meets, Bind.bind, EStateM.bind, hm] using h
  · exact h.elim

theorem Meets.get_bind {β : Type} {f : State → Parser β} {state : State}
    {post : β → State → Prop} {fail : SyntaxFailure → State → Prop}
    (h : Meets (f state) state post fail) : Meets (get >>= f) state post fail := h

theorem Meets.set_bind {β : Type} {f : PUnit → Parser β} {state state' : State}
    {post : β → State → Prop} {fail : SyntaxFailure → State → Prop}
    (h : Meets (f ⟨⟩) state' post fail) : Meets (set state' >>= f) state post fail := h

/-! ## The ends of attempts and rules -/

/-- The ends of an attempt, each with that of its alternative. -/
theorem attempt_cases {α : Type} (m : Parser α) (state : State) :
    (∃ value final, m { state with marks := state.position :: state.marks } = .ok value final ∧
      attempt m state = .ok (.ok value) { final with marks := final.marks.tail }) ∨
    (∃ stop final, m { state with marks := state.position :: state.marks } = .error stop final ∧
      (∀ why, stop = .failed why → why.isFatal = true) ∧
      attempt m state = .error stop { final with marks := final.marks.tail }) ∨
    ∃ error final, m { state with marks := state.position :: state.marks } =
        .error (.failed (.refused error)) final ∧ error.val.isLexical = false ∧
      attempt m state = .ok (.error error)
        { final with marks := final.marks.tail, position := final.marks.headD final.position } := by
  unfold attempt
  cases hrun : m { state with marks := state.position :: state.marks } with
  | ok value final => exact .inl ⟨value, final, rfl, rfl⟩
  | error stop final =>
    refine .inr ?_
    cases stop with
    | outOfSteps => exact .inl ⟨_, final, rfl, by simp, rfl⟩
    | failed why =>
      cases why with
      | overflow => exact .inl ⟨_, final, rfl, by simp, rfl⟩
      | refused error =>
        cases hlexical : error.val.isLexical with
        | true => exact .inl ⟨_, final, rfl, by simp [hlexical], by simp [hlexical]⟩
        | false => exact .inr ⟨error, final, rfl, hlexical, by simp [hlexical]⟩

/-- An attempt depends on what its alternative gives. -/
theorem attempt_congr {α : Type} {m m' : Parser α} {state : State}
    (h : m' { state with marks := state.position :: state.marks } =
      m { state with marks := state.position :: state.marks }) :
    attempt m' state = attempt m state := by
  unfold attempt
  rw [h]

/-- The ends of a rule that is worked out and remembered, each with that of its body. -/
theorem workOutOnce_cases (rule : Rule) (body : Parser Expr) (state : State) :
    (∃ expr final,
      body { state with worked := (rule, state.position) :: state.worked } = .ok expr final ∧
      workOutOnce rule body state = .ok expr { final with
        memo := final.memo.insert (memoKey rule state.position) (.parsed final.position expr) }) ∨
    (∃ stop final,
      body { state with worked := (rule, state.position) :: state.worked } = .error stop final ∧
      (∀ why, stop = .failed why → why.isFatal = true) ∧
      workOutOnce rule body state = .error stop final) ∨
    ∃ error final, body { state with worked := (rule, state.position) :: state.worked } =
        .error (.failed (.refused error)) final ∧ error.val.isLexical = false ∧
      workOutOnce rule body state = .error (.failed (.refused error)) { final with
        memo := final.memo.insert (memoKey rule state.position) (.failed error) } := by
  unfold workOutOnce workOut
  cases hrun : body { state with worked := (rule, state.position) :: state.worked } with
  | ok expr final => exact .inl ⟨expr, final, rfl, rfl⟩
  | error stop final =>
    refine .inr ?_
    cases stop with
    | outOfSteps => exact .inl ⟨_, final, rfl, by simp, rfl⟩
    | failed why =>
      cases why with
      | overflow => exact .inl ⟨_, final, rfl, by simp, rfl⟩
      | refused error =>
        cases hlexical : error.val.isLexical with
        | true => exact .inl ⟨_, final, rfl, by simp [hlexical], by simp [hlexical]⟩
        | false => exact .inr ⟨error, final, rfl, hlexical, by simp [hlexical]⟩

theorem workOutOnce_congr {rule : Rule} {body body' : Parser Expr} {state : State}
    (h : body' { state with worked := (rule, state.position) :: state.worked } =
      body { state with worked := (rule, state.position) :: state.worked }) :
    workOutOnce rule body' state = workOutOnce rule body state := by
  unfold workOutOnce workOut
  rw [h]

/-! ## States that agree with a text -/

/-- The goal that a remembered rule stands for. -/
def goalOf : Rule → Goal
  | .expression => .chain 0
  | .call => .call
  | .paren => .paren
  | .unary => .unary

/-- The outcome of a rule at a token is the true one. -/
def Recorded (g : Grammar) (items : List Lexed) (rule : Rule) (start : Nat) : Outcome → Prop
  | .failed error =>
    Fails g (itemAt items) (goalOf rule) start (.refused error) ∧ error.val.isLexical = false
  | .parsed stop expr => Reads g (itemAt items) (goalOf rule) start stop expr

/-- The buffer and the memory of a state agree with the text, and so do the pending marks. -/
structure Kept (g : Grammar) (items : List Lexed) (marks : List Nat) (state : State) : Prop where
  buffer : ∃ rest, items = state.tokens.toList.map .ok ++ rest ∧ state.lexer.Gives rest
  memory : ∀ rule start outcome, state.memo[memoKey rule start]? = some outcome →
    Recorded g items rule start outcome
  pending : state.marks = marks

/-- Run from item `i` on, the reader gives a value and goes on to an item that `post` allows, or it
stops with a failure that `fail` allows. -/
def Yields (g : Grammar) (items : List Lexed) {α : Type} (post : α → Nat → Prop)
    (fail : SyntaxFailure → Prop) (i : Nat) (m : Parser α) : Prop :=
  ∀ (marks : List Nat) (state : State), Kept g items marks state → state.position = i →
    Meets m state
      (fun value final => post value final.position ∧ Kept g items marks final)
      (fun why final => fail why ∧ (why.isFatal = false → Kept g items marks final))

/-- The reader settles a goal met at item `i`. -/
def Settles (g : Grammar) (items : List Lexed) (goal : Goal) (i : Nat) (m : Parser Expr) : Prop :=
  Yields g items (fun expr j => Reads g (itemAt items) goal i j expr)
    (Fails g (itemAt items) goal i) i m

variable {g : Grammar} {items : List Lexed} {α β : Type} {post post' : α → Nat → Prop}
  {fail fail' : SyntaxFailure → Prop} {i : Nat} {m : Parser α}

namespace Yields

theorem imp (h : Yields g items post fail i m) (hpost : ∀ value j, post value j → post' value j)
    (hfail : ∀ why, fail why → fail' why) : Yields g items post' fail' i m := by
  intro marks state hkept hposition
  exact (h marks state hkept hposition).imp (fun _ _ h => ⟨hpost _ _ h.1, h.2⟩)
    (fun _ _ h => ⟨hfail _ h.1, h.2⟩)

theorem bind {next : β → Nat → Prop} {f : α → Parser β} (h : Yields g items post fail' i m)
    (hfail : ∀ why, fail' why → fail why)
    (hf : ∀ value j, post value j → Yields g items next fail j (f value)) :
    Yields g items next fail i (m >>= f) := by
  intro marks state hkept hposition
  refine Meets.bind ((h marks state hkept hposition).imp ?_ ?_)
  · intro value middle hfacts
    obtain ⟨hpost, hmiddle⟩ := hfacts
    exact hf value middle.position hpost marks middle hmiddle rfl
  · intro why final hfacts
    obtain ⟨hwhy, hfinal⟩ := hfacts
    exact ⟨hfail why hwhy, hfinal⟩

theorem seq {next : β → Nat → Prop} {f : α → Parser β} (h : Yields g items post fail i m)
    (hf : ∀ value j, post value j → Yields g items next fail j (f value)) :
    Yields g items next fail i (m >>= f) := bind h (fun _ h => h) hf

theorem pure {value : α} (h : post value i) : Yields g items post fail i (pure value) := by
  intro marks state hkept heq
  subst heq
  exact ⟨h, hkept⟩

theorem failed {why : SyntaxFailure} (h : fail why) :
    Yields g items post fail i (throw (.failed why)) := by
  intro marks state hkept _
  exact ⟨h, fun _ => hkept⟩

theorem refuse {error : Located SyntaxError} (h : fail (.refused error)) :
    Yields g items post fail i (refuse error) := failed h

theorem reject {span : Span} {error : SyntaxError} (h : fail (.refused ⟨span, error⟩)) :
    Yields g items post fail i (reject span error) := failed h

theorem advance : Yields g items (fun _ j => j = i + 1) fail i advance := by
  intro marks state hkept heq
  subst heq
  exact ⟨rfl, hkept.buffer, hkept.memory, hkept.pending⟩

theorem unite (first last : Span) :
    Yields g items (fun span j => j = i ∧ span = first.unite last) fail i (unite first last) := by
  intro marks state hkept heq
  subst heq
  exact ⟨⟨rfl, rfl⟩, hkept.buffer, hkept.memory, hkept.pending⟩

theorem enclose {post : Expr → Nat → Prop} {opening closing : Token} {inner : Expr}
    (h : post (inner.parenthesized (opening.span.unite closing.span)) i) :
    Yields g items post fail i (enclose opening closing inner) := by
  cases inner with
  | var => exact pure h
  | _ =>
    refine seq (unite opening.span closing.span) ?_
    intro _ _ hfacts
    obtain ⟨rfl, rfl⟩ := hfacts
    exact pure h

end Yields

/-! ## Tokens -/

/-- Taking tokens from the lexer fills the buffer, up to the last item or an error. -/
theorem pull_meets (count : Nat) {marks : List Nat} {state : State}
    (hkept : Kept g items marks state) :
    Meets (pull count) state
      (fun _ final => Kept g items marks final ∧ final.position = state.position ∧
        (state.tokens.size + count ≤ final.tokens.size ∨
          items = final.tokens.toList.map .ok))
      (fun why _ => ∃ k span, state.tokens.size ≤ k ∧ k < state.tokens.size + count ∧
        items[k]? = some (.error span) ∧ why = .refused ⟨span, .unexpectedChar⟩) := by
  induction count generalizing state with
  | zero => exact ⟨hkept, rfl, Or.inl (Nat.le_refl _)⟩
  | succ count ih =>
    obtain ⟨rest, hitems, hgives⟩ := hkept.buffer
    refine Meets.get_bind ?_
    cases hgives with
    | nil hnext =>
      rw [hnext]
      exact ⟨hkept, rfl, Or.inr (by simpa using hitems)⟩
    | @cons _ after item rest hnext hrest =>
      rw [hnext]
      cases item with
      | error span =>
        refine Meets.set_bind ⟨state.tokens.size, span, Nat.le_refl _, by omega, ?_, rfl⟩
        rw [hitems]
        simp
      | ok token =>
        have hkept' : Kept g items marks
            { state with lexer := after, tokens := state.tokens.push token } :=
          ⟨⟨rest, by simpa using hitems, hrest⟩, hkept.memory, hkept.pending⟩
        refine Meets.set_bind (Meets.imp (ih hkept') ?_ ?_)
        · intro _ final hfacts
          obtain ⟨hfinal, hposition, hsize⟩ := hfacts
          exact ⟨hfinal, hposition, by simpa [Nat.add_assoc, Nat.add_comm 1] using hsize⟩
        · intro why final hfacts
          obtain ⟨k, span, hle, hlt, hitem, hwhy⟩ := hfacts
          rw [Array.size_push] at hle hlt
          exact ⟨k, span, by omega, by omega, hitem, hwhy⟩

/-- A buffer that reaches an item, or holds all of them, shows it. -/
theorem Kept.shows (hended : Ended items) {marks : List Nat} {state : State}
    (hkept : Kept g items marks state) (index : Nat)
    (hfull : index < state.tokens.size ∨ items = state.tokens.toList.map .ok) :
    (state.tokens[index]? <|> state.tokens.back?).map .ok = some (itemAt items index) := by
  rcases Nat.lt_or_ge index state.tokens.size with hlt | hge
  · obtain ⟨rest, hitems, _⟩ := hkept.buffer
    have hitem : items[index]? = some (.ok state.tokens[index]) := by
      rw [hitems, List.getElem?_append_left (by simpa using hlt)]
      simp [hlt]
    rw [itemAt_eq_getElem hitem]
    simp [hlt]
  · obtain hall := hfull.resolve_left (Nat.not_lt.mpr hge)
    have hne : state.tokens.toList ≠ [] := by
      intro hnil
      exact hended.ne_nil (by rw [hall, hnil, List.map_nil])
    rw [hall, itemAt_of_length_le (by simpa using hge), List.getLast?_map,
      List.getLast?_eq_some_getLast hne, Array.getElem?_eq_none hge, ← Array.getLast?_toList,
      List.getLast?_eq_some_getLast hne]
    rfl

namespace Yields

theorem peek (hended : Ended items) (ahead : Nat)
    (hfail : ∀ span, itemAt items (i + ahead) = .error span →
      fail (.refused ⟨span, .unexpectedChar⟩)) :
    Yields g items (fun token j => j = i ∧ itemAt items (i + ahead) = .ok token) fail i
      (peek ahead) := by
  intro marks state hkept heq
  subst heq
  refine Meets.get_bind (Meets.get_bind (Meets.bind (Meets.imp (pull_meets _ hkept) ?_ ?_)))
  · intro _ final hfacts
    obtain ⟨hfinal, hposition, hsize⟩ := hfacts
    have hshows := hfinal.shows hended (state.position + ahead) (hsize.imp_left (by omega))
    obtain ⟨token, htoken, hitem⟩ := Option.map_eq_some_iff.mp hshows
    refine Meets.get_bind ?_
    dsimp only
    rw [htoken]
    exact ⟨⟨hposition, hitem.symm⟩, hfinal⟩
  · intro why final hfacts
    obtain ⟨k, span, hle, hlt, hitem, rfl⟩ := hfacts
    exact ⟨hfail span (hended.itemAt_of_error hitem (by omega)), fun h => by cases h⟩

theorem expect (hended : Ended items) (kind : TokenKind) (context : Context)
    (hfail : ∀ error, missing? kind context (itemAt items i) = some error → fail (.refused error)) :
    Yields g items (fun token j => j = i + 1 ∧ Stands (itemAt items) i kind token) fail i
      (expect kind context) := by
  refine seq (peek hended 0 fun span hchar => hfail _ ?_) ?_
  · rw [Nat.add_zero] at hchar
    simp [missing?, hchar]
  · intro token _ hfacts
    obtain ⟨rfl, hitem⟩ := hfacts
    rw [Nat.add_zero] at hitem
    by_cases hkind : token.kind = kind
    · rw [if_pos hkind]
      refine seq advance ?_
      intro _ _ heq
      subst heq
      exact pure ⟨rfl, hitem, hkind⟩
    · rw [if_neg hkind]
      exact reject (hfail _ (by simp [missing?, hitem, hkind]))

theorem skip (hended : Ended items) (kind : TokenKind) (context : Context)
    (hfail : ∀ error, missing? kind context (itemAt items i) = some error → fail (.refused error)) :
    Yields g items (fun _ j => j = i + 1 ∧ ∃ token, Stands (itemAt items) i kind token) fail i
      (discard (Parser.expect kind context)) :=
  seq (expect hended kind context hfail) (fun token _ h => pure ⟨h.1, token, h.2⟩)

theorem attempt (h : Yields g items post fail i m) :
    Yields g items
      (fun (outcome : Except (Located SyntaxError) α) j =>
        match outcome with
        | .ok value => post value j
        | .error error => fail (.refused error) ∧ error.val.isLexical = false ∧ j = i)
      (fun why => fail why ∧ why.isFatal = true) i (Parser.attempt m) := by
  intro marks state hkept hposition
  subst hposition
  have hrun := h (state.position :: marks) { state with marks := state.position :: state.marks }
    ⟨hkept.buffer, hkept.memory, by rw [hkept.pending]⟩ rfl
  unfold Meets at hrun ⊢
  obtain ⟨value, final, hm, hend⟩ | ⟨stop, final, hm, hfatal, hend⟩ |
    ⟨error, final, hm, hlexical, hend⟩ := attempt_cases m state
  all_goals
    rw [hm] at hrun
    rw [hend]
  · obtain ⟨hpost, hfinal⟩ := hrun
    exact ⟨hpost, hfinal.buffer, hfinal.memory, by simp [hfinal.pending]⟩
  · cases stop with
    | outOfSteps => exact hrun
    | failed why => exact ⟨⟨hrun.1, hfatal why rfl⟩, by simp [hfatal why rfl]⟩
  · obtain ⟨hfail, hfinal⟩ := hrun
    obtain ⟨hbuffer, hmemory, hpending⟩ := hfinal hlexical
    have hkept' : Kept g items marks
        { final with marks := final.marks.tail, position := state.position } :=
      ⟨hbuffer, hmemory, by simp [hpending]⟩
    simpa [hlexical, hpending] using And.intro hfail hkept'

end Yields

/-! ## Remembered outcomes -/

theorem memoKey_inj {rule rule' : Rule} {start start' : Nat}
    (h : memoKey rule start = memoKey rule' start') : rule = rule' ∧ start = start' := by
  cases rule <;> cases rule' <;> simp [memoKey, Rule.index] at h ⊢ <;> omega

/-- A true outcome may be remembered. -/
theorem Kept.remember {marks : List Nat} {state : State} (hkept : Kept g items marks state)
    {rule : Rule} {start : Nat} {outcome : Outcome}
    (houtcome : Recorded g items rule start outcome) :
    Kept g items marks { state with memo := state.memo.insert (memoKey rule start) outcome } := by
  refine ⟨hkept.buffer, ?_, hkept.pending⟩
  intro rule' start' outcome' hfound
  rw [Std.TreeMap.getElem?_insert] at hfound
  by_cases hkey : memoKey rule start = memoKey rule' start'
  · obtain ⟨rfl, rfl⟩ := memoKey_inj hkey
    obtain rfl : outcome = outcome' := by simpa using hfound
    exact houtcome
  · rw [if_neg (by simpa using hkey)] at hfound
    exact hkept.memory rule' start' outcome' hfound

/-- To remember outcomes changes none of them. -/
theorem Settles.remembering (rule : Rule) {body : Parser Expr} {i : Nat}
    (h : Settles g items (goalOf rule) i body) :
    Settles g items (goalOf rule) i (remembering g rule body) := by
  intro marks state hkept heq
  subst heq
  have hrun := h marks { state with worked := (rule, state.position) :: state.worked }
    ⟨hkept.buffer, hkept.memory, hkept.pending⟩ rfl
  by_cases hremembers : g.remembers = true
  · cases hfound : state.memo[memoKey rule state.position]? with
    | some outcome =>
      have hrecorded := hkept.memory rule state.position outcome hfound
      cases outcome with
      | failed error =>
        simpa [Meets, Parser.remembering, hremembers, hfound] using
          And.intro hrecorded.1 (fun _ => hkept)
      | parsed stop expr =>
        simpa [Meets, Parser.remembering, hremembers, hfound, Recorded] using
          And.intro hrecorded ⟨hkept.buffer, hkept.memory, hkept.pending⟩
    | none =>
      unfold Meets at hrun
      simp only [Meets, Parser.remembering, hremembers, if_true, hfound]
      obtain ⟨expr, final, hbody, hend⟩ | ⟨stop, final, hbody, hfatal, hend⟩ |
        ⟨error, final, hbody, hlexical, hend⟩ := workOutOnce_cases rule body state
      all_goals
        rw [hbody] at hrun
        rw [hend]
      · exact ⟨hrun.1, hrun.2.remember hrun.1⟩
      · cases stop with
        | outOfSteps => exact hrun
        | failed why => exact ⟨hrun.1, by simp [hfatal why rfl]⟩
      · have hrecorded : Recorded g items rule state.position (.failed error) := ⟨hrun.1, hlexical⟩
        exact ⟨hrun.1, fun _ => (hrun.2 hlexical).remember hrecorded⟩
  · simpa [Meets, Parser.remembering, hremembers, workOut] using hrun

/-! ## The count of steps -/

/-- What the arguments behind the first one add to a call. -/
def MoreRead (g : Grammar) (items : List Lexed) (i : Nat) (others : List Expr) (j : Nat) : Prop :=
  i ≤ j ∧ (∀ comma, ¬ Stands (itemAt items) j .comma comma) ∧
    ∀ name args,
      (∀ k expr, Reads g (itemAt items) (.arguments name (args ++ others)) j k expr →
        Reads g (itemAt items) (.arguments name args) i k expr) ∧
      ∀ why, Fails g (itemAt items) (.arguments name (args ++ others)) j why →
        Fails g (itemAt items) (.arguments name args) i why

/-- With this many steps every rule settles its goal: four for every item ahead, and as many more
as there are rules to enter before the next item. -/
structure Enough (g : Grammar) (items : List Lexed) (steps : Nat) : Prop where
  expression : ∀ i, 4 * (items.length - i) + 4 ≤ steps →
    Settles g items (.chain 0) i (expression g steps)
  chain : ∀ i least, 4 * (items.length - i) + 3 ≤ steps →
    Settles g items (.chain least) i (chain g steps least)
  extend : ∀ i least lhs, 4 * (items.length - i) + 1 ≤ steps →
    Settles g items (.extend least lhs) i (extend g steps least lhs)
  term : ∀ i, 4 * (items.length - i) + 2 ≤ steps → Settles g items .term i (term g steps)
  call : ∀ i, 4 * (items.length - i) + 1 ≤ steps → Settles g items .call i (call g steps)
  moreArguments : ∀ i, 4 * (items.length - i) + 1 ≤ steps →
    Yields g items (MoreRead g items i)
      (fun why => ∀ name args, Fails g (itemAt items) (.arguments name args) i why) i
      (moreArguments g steps)
  paren : ∀ i, 4 * (items.length - i) + 1 ≤ steps → Settles g items .paren i (paren g steps)
  unary : ∀ i, 4 * (items.length - i) + 1 ≤ steps → Settles g items .unary i (unary g steps)

theorem binaryOp?_kind {token : Token} {op : BinaryOp} (h : binaryOp? token = some op) :
    token.kind = .sign ∨ token.kind = .operator := by
  unfold binaryOp? at h
  split at h <;> simp_all

/-- A lookahead at the next item. -/
theorem Yields.peekNext (hended : Ended items)
    (hfail : ∀ span, itemAt items i = .error span → fail (.refused ⟨span, .unexpectedChar⟩)) :
    Yields g items (fun token j => j = i ∧ itemAt items i = .ok token) fail i (Parser.peek 0) :=
  peek hended 0 hfail

theorem Settles.number (hended : Ended items) {token : Token}
    (htoken : Stands (itemAt items) i .number token) : Settles g items .term i number := by
  refine Yields.seq (Yields.expect hended .number .expression fun error herror => ?_) ?_
  · simp [htoken.missing?] at herror
  · intro token' _ hfacts
    obtain ⟨rfl, htoken'⟩ := hfacts
    cases hvalue : Decimal.ofText? token'.text with
    | ok value => exact Yields.pure (.number htoken' hvalue)
    | error why => exact Yields.reject (.termNumber htoken' hvalue)

/-- A call that gives a fatal failure fails as the term that it would have been. -/
theorem Fails.term_of_fatal {s : Nat → Lexed} {name : Token} {why : SyntaxFailure}
    (h : Fails g s .call i why) (hname : Stands s i .ident name) (hfatal : why.isFatal = true) :
    Fails g s .term i why := by
  cases h with
  | callName herror => simp [hname.missing?] at herror
  | callOpening _ herror =>
    obtain ⟨span, hchar, rfl⟩ := missing?_lexical herror hfatal
    exact .termNextChar hname hchar
  | callChar _ hopening hchar => exact .termCall hname hopening (.callChar hname hopening hchar)
  | callFirst _ hopening hnext hkind argument =>
    exact .termCall hname hopening (.callFirst hname hopening hnext hkind argument)
  | callRest hname' hopening argument rest =>
    exact .termCall hname hopening (.callRest hname' hopening argument rest)

namespace Enough

variable {steps : Nat}

theorem expression_succ (h : Enough g items steps)
    (hsteps : 4 * (items.length - i) + 4 ≤ steps + 1) :
    Settles g items (.chain 0) i (Parser.expression g (steps + 1)) :=
  Settles.remembering .expression (h.chain i 0 (by omega))

theorem chain_succ (h : Enough g items steps) {least : UInt64}
    (hsteps : 4 * (items.length - i) + 3 ≤ steps + 1) :
    Settles g items (.chain least) i (Parser.chain g (steps + 1) least) := by
  refine Yields.bind (h.term i (by omega)) (fun _ hwhy => .chainFirst hwhy) ?_
  intro lhs j hlhs
  have hlt : i < j := hlhs.progress
  exact (h.extend j least lhs (by omega)).imp (fun expr k hrest => .chain hlhs hrest)
    (fun _ hwhy => .chainRest hlhs hwhy)

theorem extend_succ (hended : Ended items) (h : Enough g items steps) {least : UInt64} {lhs : Expr}
    (hsteps : 4 * (items.length - i) + 1 ≤ steps + 1) :
    Settles g items (.extend least lhs) i (Parser.extend g (steps + 1) least lhs) := by
  refine Yields.seq (Yields.peekNext hended fun span hchar => .extendChar hchar) ?_
  intro token _ hfacts
  obtain ⟨rfl, htoken⟩ := hfacts
  cases hop : binaryOp? token with
  | none => exact Yields.pure (.done htoken (by simp [joins?, hop]))
  | some op =>
    by_cases hless : g.priority op < least
    · simp only [hless, if_true]
      exact Yields.pure (.done htoken (by simp [joins?, hop, hless]))
    · simp only [hless, if_false]
      have hjoins : joins? g least token = some op := by simp [joins?, hop, hless]
      have hkind : token.kind ≠ .finish := by
        rcases binaryOp?_kind hop with h | h <;> simp [h]
      have hlength := hended.lt_length htoken hkind
      refine Yields.seq Yields.advance ?_
      intro _ _ heq
      subst heq
      cases hinner : rightPriority? g op with
      | none => exact Yields.failed (.extendOverflow htoken hjoins hinner)
      | some inner =>
        refine Yields.bind (h.chain _ inner (by omega))
          (fun _ hwhy => .extendOperand htoken hjoins hinner hwhy) ?_
        intro rhs j hrhs
        have hlt := hrhs.progress
        dsimp only at hlt
        refine Yields.seq (Yields.unite lhs.span rhs.span) ?_
        intro _ _ hfacts
        obtain ⟨rfl, rfl⟩ := hfacts
        exact (h.extend _ least _ (by omega)).imp
          (fun expr k hrest => .join htoken hjoins hinner hrhs hrest)
          (fun _ hwhy => .extendRest htoken hjoins hinner hrhs hwhy)

theorem unary_succ (hended : Ended items) (h : Enough g items steps)
    (hsteps : 4 * (items.length - i) + 1 ≤ steps + 1) :
    Settles g items .unary i (Parser.unary g (steps + 1)) := by
  refine Yields.seq (Yields.peekNext hended fun span hchar => .unaryChar hchar) ?_
  intro token _ hfacts
  obtain ⟨rfl, htoken⟩ := hfacts
  cases hop : unaryOp? token with
  | none => exact Yields.reject (.unarySign htoken hop)
  | some op =>
    have hlength := hended.lt_length htoken (by simp [unaryOp?_kind hop])
    refine Yields.seq Yields.advance ?_
    intro _ _ heq
    subst heq
    refine Yields.seq (Yields.peekNext hended fun span hchar => .unaryNextChar htoken hop hchar) ?_
    intro next _ hfacts
    obtain ⟨rfl, hnext⟩ := hfacts
    cases hstarts : startsOperand next with
    | false =>
      simp only [Bool.false_eq_true, if_false]
      exact Yields.reject (.unaryOperand htoken hop hnext hstarts)
    | true =>
      simp only [if_true]
      refine Yields.bind (h.term _ (by omega))
        (fun _ hwhy => .unaryTerm htoken hop hnext hstarts hwhy) ?_
      intro operand j hoperand
      refine Yields.seq (Yields.unite token.span operand.span) ?_
      intro _ _ hfacts
      obtain ⟨rfl, rfl⟩ := hfacts
      exact Yields.pure (.unary htoken hop hnext hstarts hoperand)

theorem paren_succ (hended : Ended items) (h : Enough g items steps)
    (hsteps : 4 * (items.length - i) + 1 ≤ steps + 1) :
    Settles g items .paren i (Parser.paren g (steps + 1)) := by
  refine Yields.seq
    (Yields.expect hended .leftParen .expression fun _ herror => .parenOpening herror) ?_
  intro opening _ hfacts
  obtain ⟨rfl, hopening⟩ := hfacts
  have hlength := hended.lt_length hopening.1 (by simp [hopening.2])
  refine Yields.bind (h.expression _ (by omega))
    (fun _ hwhy => .parenInner hopening hwhy) ?_
  intro inner j hinner
  refine Yields.seq
    (Yields.expect hended .rightParen .expression
      fun _ herror => .parenClosing hopening hinner herror) ?_
  intro closing _ hfacts
  obtain ⟨rfl, hclosing⟩ := hfacts
  exact Yields.enclose (.paren hopening hinner hclosing)

theorem moreArguments_succ (hended : Ended items) (h : Enough g items steps)
    (hsteps : 4 * (items.length - i) + 1 ≤ steps + 1) :
    Yields g items (MoreRead g items i)
      (fun why => ∀ name args, Fails g (itemAt items) (.arguments name args) i why) i
      (Parser.moreArguments g (steps + 1)) := by
  refine Yields.seq (Yields.peekNext hended fun span hchar name args => ?_) ?_
  · refine .close ?_ (by simp [missing?, hchar])
    intro comma hcomma
    simp [Stands, hchar] at hcomma
  intro token _ hfacts
  obtain ⟨rfl, htoken⟩ := hfacts
  by_cases hkind : token.kind = .comma
  · have hcomma : Stands (itemAt items) _ .comma token := ⟨htoken, hkind⟩
    have hlength := hended.lt_length htoken (by simp [hkind])
    simp only [hkind, if_true]
    refine Yields.seq Yields.advance ?_
    intro _ _ heq
    subst heq
    refine Yields.bind (h.expression _ (by omega))
      (fun _ hwhy name args => .nextArgument hcomma hwhy) ?_
    intro first j hfirst
    have hlt := hfirst.progress
    dsimp only at hlt
    refine Yields.bind (h.moreArguments j (by omega))
      (fun _ hwhy name args => .nextRest hcomma hfirst (hwhy name _)) ?_
    intro others k hfacts
    obtain ⟨hle, hstop, hothers⟩ := hfacts
    refine Yields.pure ⟨by omega, hstop, ?_⟩
    intro name args
    obtain ⟨hreads, hfails⟩ := hothers name (args ++ [first])
    rw [List.append_assoc, List.singleton_append] at hreads hfails
    exact ⟨fun k expr hrest => .next hcomma hfirst (hreads k expr hrest),
      fun why hwhy => .nextRest hcomma hfirst (hfails why hwhy)⟩
  · simp only [hkind, if_false]
    refine Yields.pure ⟨Nat.le_refl _, ?_, ?_⟩
    · intro comma hcomma
      obtain rfl : token = comma := Except.ok.inj (htoken.symm.trans hcomma.1)
      exact hkind hcomma.2
    · intro name args
      rw [List.append_nil]
      exact ⟨fun k expr h => h, fun why h => h⟩

/-- The end of a call that was read up to the place of its closing parenthesis. -/
theorem call_close (hended : Ended items) {name : Token} {args : List Expr} {start : Nat}
    (hreads : ∀ closing, Stands (itemAt items) i .rightParen closing →
      Reads g (itemAt items) .call start (i + 1) (callOf name closing args))
    (hfails : ∀ error, missing? .rightParen .call (itemAt items i) = some error →
      Fails g (itemAt items) .call start (.refused error)) :
    Yields g items (fun expr j => Reads g (itemAt items) .call start j expr)
      (Fails g (itemAt items) .call start) i
      (closeCall name args) := by
  refine Yields.seq (Yields.expect hended .rightParen .call hfails) ?_
  intro closing _ hfacts
  obtain ⟨rfl, hclosing⟩ := hfacts
  refine Yields.seq (Yields.unite name.span closing.span) ?_
  intro _ _ hfacts
  obtain ⟨rfl, rfl⟩ := hfacts
  exact Yields.pure (hreads closing hclosing)

theorem call_succ (hended : Ended items) (h : Enough g items steps)
    (hsteps : 4 * (items.length - i) + 1 ≤ steps + 1) :
    Settles g items .call i (Parser.call g (steps + 1)) := by
  refine Yields.seq (Yields.expect hended .ident .call fun _ herror => .callName herror) ?_
  intro name _ hfacts
  obtain ⟨rfl, hname⟩ := hfacts
  refine Yields.seq
    (Yields.skip hended .leftParen .call fun _ herror => .callOpening hname herror) ?_
  intro _ _ hfacts
  obtain ⟨rfl, opening, hopening⟩ := hfacts
  have hlength := hended.lt_length hopening.1 (by simp [hopening.2])
  refine Yields.seq (Yields.peekNext hended fun span hchar => .callChar hname hopening hchar) ?_
  intro next _ hfacts
  obtain ⟨rfl, hnext⟩ := hfacts
  by_cases hkind : next.kind = .rightParen
  · have hclosing : Stands (itemAt items) (i + 2) .rightParen next := ⟨hnext, hkind⟩
    simp only [hkind, if_true]
    refine call_close hended (fun closing h => .callEmpty hname hopening h) ?_
    intro error herror
    simp [hclosing.missing?] at herror
  · simp only [hkind, if_false]
    refine Yields.bind (h.expression _ (by omega))
      (fun _ hwhy => .callFirst hname hopening hnext hkind hwhy) ?_
    intro first j hfirst
    have hlt := hfirst.progress
    dsimp only at hlt
    refine Yields.bind (h.moreArguments j (by omega))
      (fun _ hwhy => .callRest hname hopening hfirst (hwhy name _)) ?_
    intro others k hfacts
    obtain ⟨_, hstop, hothers⟩ := hfacts
    obtain ⟨hreads, hfails⟩ := hothers name [first]
    refine call_close hended ?_ ?_
    · exact fun closing h => .callFirst hname hopening hfirst (hreads _ _ (.close h))
    · exact fun _ h => .callRest hname hopening hfirst (hfails _ (.close hstop h))

theorem term_succ (hended : Ended items) (h : Enough g items steps)
    (hsteps : 4 * (items.length - i) + 2 ≤ steps + 1) :
    Settles g items .term i (Parser.term g (steps + 1)) := by
  refine Yields.seq (Yields.peekNext hended fun span hchar => .termChar hchar) ?_
  intro token _ hfacts
  obtain ⟨rfl, htoken⟩ := hfacts
  cases hkind : token.kind with
  | number => exact Settles.number hended ⟨htoken, hkind⟩
  | ident =>
    have hname : Stands (itemAt items) _ .ident token := ⟨htoken, hkind⟩
    refine Yields.bind
      (Yields.attempt (Settles.remembering .call (h.call _ (by omega)))) ?_ ?_
    · intro why hfacts
      obtain ⟨hcall, hfatal⟩ := hfacts
      exact hcall.term_of_fatal hname hfatal
    intro outcome j houtcome
    cases outcome with
    | ok expr => exact Yields.pure (.called houtcome)
    | error error =>
      obtain ⟨hcall, _, rfl⟩ := houtcome
      refine Yields.seq (Yields.peek hended 1 fun span hchar => .termNextChar hname hchar) ?_
      intro next _ hfacts
      obtain ⟨rfl, hnext⟩ := hfacts
      by_cases hopening : next.kind = .leftParen
      · simp only [hopening, if_true]
        exact Yields.refuse (.termCall hname ⟨hnext, hopening⟩ hcall)
      · simp only [hopening, if_false]
        refine Yields.seq Yields.advance ?_
        intro _ _ heq
        subst heq
        exact Yields.pure (.var hname hnext hopening)
  | leftParen =>
    exact (Settles.remembering .paren (h.paren _ (by omega))).imp
      (fun expr j h => .grouped h) (fun _ h => .termParen ⟨htoken, hkind⟩ h)
  | sign =>
    exact (Settles.remembering .unary (h.unary _ (by omega))).imp
      (fun expr j h => .signed h) (fun _ h => .termUnary ⟨htoken, hkind⟩ h)
  | _ =>
    exact Yields.reject (hkind ▸ .termNone htoken (by simp [startsNoTerm, hkind]))

end Enough

/-- Enough steps settle every rule. -/
theorem enough (g : Grammar) (hended : Ended items) (steps : Nat) : Enough g items steps := by
  induction steps with
  | zero => constructor <;> intros <;> omega
  | succ steps ih =>
    exact {
      expression := fun _ h => ih.expression_succ h
      chain := fun _ _ h => ih.chain_succ h
      extend := fun _ _ _ h => ih.extend_succ hended h
      term := fun _ h => ih.term_succ hended h
      call := fun _ h => ih.call_succ hended h
      moreArguments := fun _ h => ih.moreArguments_succ hended h
      paren := fun _ h => ih.paren_succ hended h
      unary := fun _ h => ih.unary_succ hended h }

end Abacus.Reading
