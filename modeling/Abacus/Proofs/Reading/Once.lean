import Abacus.Proofs.Reading.Entries

/-!
# Rules are worked out once

A parser looks ahead, rewinds and starts a second alternative at the first token, and chains and terms
are read anew each time.  Still no rule is worked out twice at one token: each rule that was entered is
either being worked out or has a remembered outcome (`Logged`), a rule with an outcome is not entered, and
one that is being worked out is not entered again because the rules inside it have higher ranks.  That is
an invariant of the parse (`loggedInvariant`), so the list of the rules that were entered has no
duplicates, and as each was entered before the end, there are at most four for each token.

Readers that succeed move on, but not past the end (`Reader.moves`), and four steps for each token are
enough, whatever the text, so that more steps change nothing (`statement_eq_of_steps`).  The main
statement is `worked_out_once`.
-/

namespace Abacus.Reading

open Abacus.Parser

variable {g : Grammar} {items : List Lexed} {source : List Char} {i j : Nat} {expr : Expr}

/-! ## What was entered is accounted for -/

/-- No rule was entered twice at one token, and each rule that was entered is being worked out or has an
outcome. -/
structure Logged (running : List (Rule × Nat)) (state : State) : Prop where
  nodup : state.worked.Nodup
  accounted : ∀ rule start, (rule, start) ∈ state.worked →
    (rule, start) ∈ running ∨ state.memo[memoKey rule start]?.isSome = true

theorem logged_start (source : List Char) : Logged [] (.start source) :=
  ⟨List.nodup_nil, fun _ _ hmem => absurd hmem List.not_mem_nil⟩

namespace Logged

variable {running : List (Rule × Nat)} {state : State} {rule : Rule} {start : Nat}

/-- A rule that is neither being worked out nor has an outcome was not entered before. -/
theorem enter (h : Logged running state) (hnew : (rule, start) ∉ running)
    (hmemo : state.memo[memoKey rule start]? = none) :
    Logged ((rule, start) :: running) { state with worked := (rule, start) :: state.worked } := by
  refine ⟨List.nodup_cons.mpr ⟨fun hmem => ?_, h.nodup⟩, fun rule' start' hmem => ?_⟩
  · rcases h.accounted rule start hmem with hrunning | houtcome
    · exact hnew hrunning
    · rw [hmemo] at houtcome
      cases houtcome
  · rcases List.mem_cons.mp hmem with heq | hmem
    · exact .inl (List.mem_cons.mpr (.inl heq))
    · exact (h.accounted rule' start' hmem).imp_left (List.mem_cons_of_mem _)

/-- A rule that is left has an outcome from there on. -/
theorem leave (h : Logged ((rule, start) :: running) state) (outcome : Outcome) :
    Logged running { state with memo := state.memo.insert (memoKey rule start) outcome } := by
  refine ⟨h.nodup, fun rule' start' hmem => ?_⟩
  have hinsert : ∀ key, (key = memoKey rule start ∨ state.memo[key]?.isSome = true) →
      (state.memo.insert (memoKey rule start) outcome)[key]?.isSome = true := by
    intro key hkey
    rw [Std.TreeMap.getElem?_insert]
    split
    · rfl
    · rename_i hne
      exact hkey.resolve_left fun heq => hne (by simp [heq])
  rcases h.accounted rule' start' hmem with hrunning | houtcome
  · rcases List.mem_cons.mp hrunning with heq | hrunning
    · obtain ⟨rfl, rfl⟩ := Prod.mk.inj heq
      exact .inr (hinsert _ (.inl rfl))
    · exact .inl hrunning
  · exact .inr (hinsert _ (.inr houtcome))

end Logged

/-- A parser that remembers outcomes keeps its log free of duplicates. -/
def loggedInvariant (hremembers : g.remembers = true) (items : List Lexed) :
    ParseInvariant g items where
  holds := Logged
  quiet hsame h := ⟨hsame.worked ▸ h.nodup, hsame.worked ▸ hsame.memo ▸ h.accounted⟩
  unites _ h := ⟨h.nodup, h.accounted⟩
  enters _ hnew hmemo h := h.enter hnew (hmemo hremembers)
  remembers outcome h := h.leave outcome
  forgets hforgets _ := absurd hremembers (by rw [hforgets]; exact Bool.false_ne_true)

theorem nodup_workedOut (hremembers : g.remembers = true) (source : List Char) :
    (workedOut g source).Nodup := by
  obtain ⟨_, hlogged⟩ := invariant_final (loggedInvariant hremembers (tokenize source))
    (logged_start source)
  exact hlogged.nodup

/-! ## Where rules are entered and left -/

/-- A token that writes an operation on two operands is not the end. -/
theorem joins?_ne_finish {least : UInt64} {token : Token} {op : BinaryOp}
    (h : joins? g least token = some op) : token.kind ≠ .finish := by
  rcases binaryOp?_kind (Option.filter_eq_some_iff.mp h).1 with hkind | hkind
  · rw [hkind]
    exact TokenKind.noConfusion
  · rw [hkind]
    exact TokenKind.noConfusion

/-- Behind a token of the other kinds there is an item. -/
theorem Stands.lt_length {kind : TokenKind} {token : Token} (hended : Ended items)
    (h : Stands (itemAt items) i kind token) (hkind : kind ≠ .finish) : i + 1 < items.length :=
  hended.lt_length h.1 (h.2 ▸ hkind)

/-- What starts before the end of the items is read before it. -/
theorem Reads.lt_length {goal : Goal} (hended : Ended items)
    (h : Reads g (itemAt items) goal i j expr) (hi : i < items.length) : j < items.length := by
  induction h with
  | chain _ _ first rest => exact rest (first hi)
  | done => exact hi
  | join htoken hjoins _ _ _ operand rest =>
    exact rest (operand (hended.lt_length htoken (joins?_ne_finish hjoins)))
  | number htoken => exact htoken.lt_length hended (by decide)
  | var htoken => exact htoken.lt_length hended (by decide)
  | called _ ih | grouped _ ih | signed _ ih => exact ih hi
  | callEmpty _ _ hclosing => exact hclosing.lt_length hended (by decide)
  | callFirst _ hopening _ _ argument rest =>
    exact rest (argument (hopening.lt_length hended (by decide)))
  | next hcomma _ _ argument rest =>
    exact rest (argument (hcomma.lt_length hended (by decide)))
  | close hclosing => exact hclosing.lt_length hended (by decide)
  | paren _ _ hclosing => exact hclosing.lt_length hended (by decide)
  | unary htoken hop _ _ _ term =>
    exact term (hended.lt_length htoken (by simp [unaryOp?_kind hop]))

/-- Goals are met before the end of the items. -/
theorem Met.lt_length {goal : Goal} (hended : Ended items) (h : Met g (itemAt items) goal i) :
    i < items.length := by
  induction h with
  | expression => exact List.length_pos_iff.mpr hended.ne_nil
  | assignment _ hequals => exact hequals.lt_length hended (by decide)
  | first _ ih | call _ _ ih | paren _ _ ih | unary _ _ ih => exact ih
  | rest _ first ih => exact first.lt_length hended ih
  | operand _ htoken hjoins => exact hended.lt_length htoken (joins?_ne_finish hjoins)
  | further _ htoken hjoins _ operand =>
    exact operand.lt_length hended (hended.lt_length htoken (joins?_ne_finish hjoins))
  | firstArgument _ _ hopening => exact hopening.lt_length hended (by decide)
  | otherArguments _ _ hopening argument =>
    exact argument.lt_length hended (hopening.lt_length hended (by decide))
  | nextArgument _ hcomma => exact hcomma.lt_length hended (by decide)
  | nextRest _ hcomma argument =>
    exact argument.lt_length hended (hcomma.lt_length hended (by decide))
  | inner _ hopening => exact hopening.lt_length hended (by decide)
  | signed _ htoken hop => exact hended.lt_length htoken (by simp [unaryOp?_kind hop])

theorem lt_length_of_workedOut {rule : Rule} (h : (rule, i) ∈ workedOut g source) :
    i < (tokenize source).length :=
  ((noted_final g source).1 rule i h).lt_length (ended_tokenize source)

/-- Pairs of a rule and one of the first `n` items are at most four times as many as the items. -/
theorem length_le_of_nodup {entries : List (Rule × Nat)} {n : Nat} (hnodup : entries.Nodup)
    (hlt : ∀ rule start, (rule, start) ∈ entries → start < n) : entries.length ≤ 4 * n := by
  have hinjective : Function.Injective fun entry : Rule × Nat => memoKey entry.1 entry.2 := by
    intro entry entry' hkey
    obtain ⟨hrule, hstart⟩ := memoKey_inj hkey
    exact Prod.ext hrule hstart
  have hsubset : entries.toFinset.image (fun entry => memoKey entry.1 entry.2) ⊆
      Finset.range (4 * n) := by
    intro key hkey
    obtain ⟨⟨rule, start⟩, hmem, rfl⟩ := Finset.mem_image.mp hkey
    have hstart := hlt rule start (List.mem_toFinset.mp hmem)
    have hindex : rule.index < 4 := by cases rule <;> decide
    rw [Finset.mem_range]
    dsimp only [memoKey]
    omega
  calc entries.length
      = entries.toFinset.card := (List.toFinset_card_of_nodup hnodup).symm
    _ = (entries.toFinset.image fun entry => memoKey entry.1 entry.2).card :=
        (Finset.card_image_of_injective _ hinjective).symm
    _ ≤ (Finset.range (4 * n)).card := Finset.card_le_card hsubset
    _ = 4 * n := Finset.card_range _

/-! ## Readers of the grammar -/

/-- What reads an expression or a part of one: a rule that may be remembered, the body of a rule, a chain or
a term. -/
inductive Reader where
  | apply (rule : Rule)
  | body (rule : Rule)
  | chain (least : UInt64)
  | term

namespace Reader

/-- The reader, run with a count of steps. -/
def run (g : Grammar) (steps : Nat) : Reader → Parser Expr
  | .apply rule => remembering g rule (bodyOf g steps rule)
  | .body rule => bodyOf g steps rule
  | .chain least => Parser.chain g steps least
  | .term => Parser.term g steps

/-- What the reader looks for. -/
def goal : Reader → Goal
  | .apply rule | .body rule => goalOf rule
  | .chain least => .chain least
  | .term => .term

theorem run_succ (g : Grammar) (source : List Char) (steps : Nat) (reader : Reader) :
    Outlasts g source (reader.run g steps) (reader.run g (steps + 1)) := by
  cases reader with
  | apply rule => exact .remembering (bodyOf_succ g source steps rule)
  | body rule => exact bodyOf_succ g source steps rule
  | chain least => exact (steady g source steps).chain least
  | term => exact (steady g source steps).term

theorem settles_run (hended : Ended items) {steps : Nat} (hsteps : 4 * items.length + 4 ≤ steps)
    (reader : Reader) (i : Nat) : Settles g items reader.goal i (reader.run g steps) := by
  have henough := enough g hended steps
  cases reader with
  | apply rule => exact .remembering rule (settles_bodyOf hended hsteps rule i)
  | body rule => exact settles_bodyOf hended hsteps rule i
  | chain least => exact henough.chain i least (by omega)
  | term => exact henough.term i (by omega)

/-- What a reader gives, it reads by the rules of the grammar, whatever the count of steps. -/
theorem reads_of_run {reader : Reader} {steps : Nat} {state final : State}
    (hstate : Reached g source state) (hrun : reader.run g steps state = .ok expr final) :
    Reads g (itemAt (tokenize source)) reader.goal state.position final.position expr := by
  -- more steps give the same, and enough of them what the rules say
  have hmore := Outlasts.add (fun steps => reader.run_succ g source steps) steps
    (4 * (tokenize source).length + 4) state hstate
  rw [hrun] at hmore
  have hsettled := reader.settles_run (g := g) (ended_tokenize source)
    (show 4 * (tokenize source).length + 4 ≤ steps + (4 * (tokenize source).length + 4) + 1 by omega)
    state.position state.marks state hstate.kept rfl
  unfold Meets at hsettled
  rw [hmore.1] at hsettled
  exact hsettled.1

/-- No reader gives anything at the end of the items. -/
theorem lt_length_of_reads {reader : Reader} (hended : Ended items)
    (h : Reads g (itemAt items) reader.goal i j expr) : i < items.length := by
  obtain ⟨token, htoken, hstarts⟩ := h.starts
  have hkind : token.kind ≠ .finish := by
    intro hfinish
    cases reader with
    | apply rule | body rule =>
      cases rule <;> simp [goal, goalOf, Goal.Starts, startsNoTerm, hfinish] at hstarts
    | chain least => simp [goal, Goal.Starts, startsNoTerm, hfinish] at hstarts
    | term => simp [goal, Goal.Starts, startsNoTerm, hfinish] at hstarts
  exact Nat.lt_of_succ_lt (hended.lt_length htoken hkind)

/-- A reader that succeeds goes on by one token at least, and not past the end. -/
theorem moves {reader : Reader} {steps : Nat} {state final : State}
    (hstate : Reached g source state) (hrun : reader.run g steps state = .ok expr final) :
    state.position < final.position ∧ final.position < (tokenize source).length := by
  have hreads := reads_of_run hstate hrun
  have hended := ended_tokenize source
  refine ⟨?_, hreads.lt_length hended (lt_length_of_reads hended hreads)⟩
  have hprogress := hreads.progress
  cases reader with
  | apply rule | body rule => cases rule <;> exact hprogress
  | chain | term => exact hprogress

theorem run_ne_outOfSteps {reader : Reader} {steps : Nat}
    (hsteps : 4 * (tokenize source).length + 4 ≤ steps) {state : State}
    (hstate : Reached g source state) (final : State) :
    reader.run g steps state ≠ .error .outOfSteps final := by
  intro hrun
  have hsettled := reader.settles_run (g := g) (ended_tokenize source) hsteps state.position
    state.marks state hstate.kept rfl
  unfold Meets at hsettled
  rw [hrun] at hsettled
  exact hsettled

end Reader

/-! ## Main statement -/

/-- With as many steps as four for each item and four more, a parse gives what it gives with any greater
number. -/
theorem statement_eq_of_steps {steps : Nat} (hsteps : 4 * (tokenize source).length + 4 ≤ steps) :
    statement g steps (.start source) =
      statement g (4 * (tokenize source).length + 4) (.start source) := by
  rcases hsteps.eq_or_lt with heq | hlt
  · rw [heq]
  · obtain ⟨more, rfl⟩ : ∃ more, steps = 4 * (tokenize source).length + 4 + more + 1 :=
      ⟨steps - (4 * (tokenize source).length + 4) - 1, by omega⟩
    have hmore := Outlasts.add (statement_succ g source) (4 * (tokenize source).length + 4) more _
      .start
    have hrun := statement_yields (ended_tokenize source) le_rfl [] _ (kept_start g source) rfl
    unfold Meets at hrun
    cases hresult : statement g (4 * (tokenize source).length + 4) (.start source) with
    | ok value final =>
      rw [hresult] at hmore
      exact hmore.1
    | error stop final =>
      rw [hresult] at hmore hrun
      cases stop with
      | outOfSteps => exact hrun.elim
      | failed why => exact hmore.1

theorem statement_ne_outOfSteps {steps : Nat} (hsteps : 4 * (tokenize source).length + 4 ≤ steps)
    (final : State) : statement g steps (.start source) ≠ .error .outOfSteps final := by
  intro hrun
  have hmeets := statement_yields (ended_tokenize source) hsteps [] _ (kept_start g source) rfl
  unfold Meets at hmeets
  rw [hrun] at hmeets
  exact hmeets

/-- In the parse of a text no rule is worked out twice at one token, neither after it was left nor while it
is being worked out, and all are entered at its tokens.  From whatever state a parse can reach, a reader
that succeeds goes on by one token at least and not past the last one.  Readers nest at most as deep as
four for each token and four more, so with that many steps none is stopped for want of them, and the parse
of the text gives the same with any greater number. -/
theorem worked_out_once (priority : BinaryOp → UInt64) (source : List Char) :
    (workedOut ⟨priority, true⟩ source).Nodup ∧
    (∀ rule i, (rule, i) ∈ workedOut ⟨priority, true⟩ source → i < (tokenize source).length) ∧
    (workedOut ⟨priority, true⟩ source).length ≤ 4 * (tokenize source).length ∧
    (∀ (reader : Reader) steps state expr final, Reached ⟨priority, true⟩ source state →
      reader.run ⟨priority, true⟩ steps state = .ok expr final →
        state.position < final.position ∧ final.position < (tokenize source).length) ∧
    (∀ (reader : Reader) steps state final, Reached ⟨priority, true⟩ source state →
      4 * (tokenize source).length + 4 ≤ steps →
        reader.run ⟨priority, true⟩ steps state ≠ .error .outOfSteps final) ∧
    ∀ steps, 4 * (tokenize source).length + 4 ≤ steps →
      statement ⟨priority, true⟩ steps (.start source) =
          statement ⟨priority, true⟩ (stepsFor source.length) (.start source) ∧
        ∀ final, statement ⟨priority, true⟩ steps (.start source) ≠ .error .outOfSteps final := by
  have hnodup : (workedOut ⟨priority, true⟩ source).Nodup := nodup_workedOut rfl source
  have hlt : ∀ rule i, (rule, i) ∈ workedOut ⟨priority, true⟩ source →
      i < (tokenize source).length := fun _ _ => lt_length_of_workedOut
  refine ⟨hnodup, hlt, length_le_of_nodup hnodup hlt, ?_, ?_, ?_⟩
  · intro reader steps state expr final hstate hrun
    exact Reader.moves hstate hrun
  · intro reader steps state final hstate hsteps
    exact Reader.run_ne_outOfSteps hsteps hstate final
  · intro steps hsteps
    refine ⟨?_, statement_ne_outOfSteps hsteps⟩
    rw [statement_eq_of_steps hsteps, statement_eq_of_steps (length_le_stepsFor source)]

/-- A call without its end, of which the expression and the argument were worked out. -/
theorem worked_out_once_of_open_call :
    workedOut .default "f(1".toList = [(.expression, 2), (.call, 0), (.expression, 0)] ∧
      (workedOut .default "f(1".toList).Nodup ∧
      (∀ final, Reader.run .default 20 (.apply .call) (.start "f(1".toList) ≠
        .error .outOfSteps final) ∧
      ∃ expr final, Reader.run .default 20 .term (.start "1".toList) = .ok expr final ∧
        0 < final.position ∧ final.position < (tokenize "1".toList).length := by
  have hworked : workedOut .default "f(1".toList =
      [(.expression, 2), (.call, 0), (.expression, 0)] := by cbv
  have hlength : (tokenize "f(1".toList).length = 4 := by cbv
  obtain ⟨hnodup, _, _, _, hsteps, _⟩ := worked_out_once BinaryOp.defaultPriority "f(1".toList
  obtain ⟨_, _, _, hmoves, _, _⟩ := worked_out_once BinaryOp.defaultPriority "1".toList
  have hread : ∃ expr final, Reader.run .default 20 .term (.start "1".toList) = .ok expr final :=
    ⟨_, _, rfl⟩
  obtain ⟨expr, final, hrun⟩ := hread
  exact ⟨hworked, hnodup, fun final => hsteps _ _ _ final .start (by rw [hlength]),
    expr, final, hrun, hmoves _ _ _ _ _ .start hrun⟩

end Abacus.Reading
