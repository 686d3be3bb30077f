import Abacus.Expr.Printer
import Abacus.Proofs.Reading.RoundTrip

/-!
# Reverse Polish forms decode

The words of a reverse Polish form drive a stack.  A literal or a name is pushed; an operator, a function
with its number of arguments and the sign of an assignment take what they need from the top and push what
they make of it.  This gives the tree back: `Expr.turns_polishTerms` is the invariant, for any stack
below, by induction on the tree, and the words can be told apart because none of them holds a space and each
shows by its characters what kind of word it is (`PolishWord.ofText?`).

The main statement is `ofPolish?_toPolish`.
-/

namespace Abacus

open Reading

/-- What a word of a reverse Polish form stands for. -/
inductive PolishWord where
  /-- A literal. -/
  | number (value : Decimal)
  /-- A variable. -/
  | var (name : String)
  /-- An operation on one operand. -/
  | unary (op : UnaryOp)
  /-- An operation on two operands. -/
  | binary (op : BinaryOp)
  /-- A function and the number of its arguments. -/
  | call (name : String) (count : Nat)
  /-- The sign of an assignment. -/
  | assign

namespace PolishWord

/-- The words that are always written in the same way. -/
def marks : List (String × PolishWord) :=
  ("=", .assign) :: UnaryOp.all.map (fun op => ("u" ++ op.symbol, .unary op)) ++
    BinaryOp.all.map (fun op => (op.symbol, .binary op))

/-- What a word stands for.  A slash that is no operator stands between the name of a function and the
number of its arguments. -/
def ofText? (text : String) : Option PolishWord :=
  match marks.lookup text with
  | some word => some word
  | none =>
    match splitFirst (· == '/') text.toList with
    | (name, some count) => some (.call (String.ofList name) (digitValue count))
    | (_, none) =>
      if text.toList.all Char.isAlpha then some (.var text)
      else (Decimal.ofText? text).toOption.map .number

end PolishWord

/-! ## The stack -/

/-- The place of what is read from no text. -/
def Span.nowhere : Span := ⟨0, 0, 1⟩

/-- What a stack holds: expressions, and an assignment when it is done. -/
abbrev PolishStack := List Statement

namespace PolishStack

/-- Takes as many expressions from the stack as are wanted.  The topmost one was pushed last. -/
def pop? : Nat → PolishStack → Option (List Expr × PolishStack)
  | 0, stack => some ([], stack)
  | count + 1, .expression value :: stack => do
    let (values, rest) ← pop? count stack
    return (values ++ [value], rest)
  | _ + 1, _ => none

/-- What a word does to a stack.  It has no result if the stack does not hold what the word takes. -/
def push? (stack : PolishStack) : PolishWord → Option PolishStack
  | .number value => some (.expression (.number .nowhere value) :: stack)
  | .var name => some (.expression (.var .nowhere name) :: stack)
  | .unary op =>
    match stack with
    | .expression operand :: rest =>
      some (.expression (.unary .nowhere ⟨.nowhere, op⟩ operand) :: rest)
    | _ => none
  | .binary op =>
    match stack with
    | .expression rhs :: .expression lhs :: rest =>
      some (.expression (.binary .nowhere lhs ⟨.nowhere, op⟩ rhs) :: rest)
    | _ => none
  | .call name count => do
    let (args, rest) ← pop? count stack
    return .expression (.call .nowhere ⟨.nowhere, name⟩ args) :: rest
  | .assign =>
    match stack with
    | .expression value :: .expression (.var _ target) :: rest =>
      some (.assignment .nowhere ⟨.nowhere, target⟩ value :: rest)
    | _ => none

/-- Reads a word and lets it work on a stack. -/
def step? (stack : PolishStack) (text : String) : Option PolishStack := do
  stack.push? (← PolishWord.ofText? text)

end PolishStack

/-- The words of a text that are separated by single spaces. -/
def wordsOfText (text : String) : List String := (text.toList.splitOn ' ').map String.ofList

/-- The statement that a reverse Polish form stands for: what is on the stack when all words are read, if
it is the only thing there. -/
def Statement.ofPolish? (text : String) : Option Statement :=
  match (wordsOfText text).foldlM PolishStack.step? [] with
  | some [statement] => some statement
  | _ => none

/-! ## Telling the words apart -/

theorem IsName.not_mem {name : String} (h : IsName name) {c : Char} (hc : c.isAlpha = false) :
    c ∉ name.toList := by
  intro hmem
  rw [h.2 c hmem] at hc
  cases hc

theorem not_slash {cs : List Char} (h : '/' ∉ cs) : ∀ c ∈ cs, (c == '/') = false := by
  intro c hc
  rw [beq_eq_false_iff_ne]
  rintro rfl
  exact h hc

namespace PolishWord

theorem mark_ends : ∀ mark ∈ marks, ∀ c ∈ mark.1.toList.getLast?, c.isAlphanum = false := by
  simp [marks, UnaryOp.all, BinaryOp.all, UnaryOp.symbol, BinaryOp.symbol]

/-- A word that ends with a letter or a digit is no mark. -/
theorem lookup_marks_eq_none {text : String} {front : List Char} {c : Char}
    (htext : text.toList = front ++ [c]) (hc : c.isAlphanum = true) : marks.lookup text = none := by
  refine List.lookup_eq_none_iff.mpr fun mark hmark => ?_
  have hne : text ≠ mark.1 := by
    rintro rfl
    have hsymbol := mark_ends mark hmark c (by simp [htext])
    rw [hc] at hsymbol
    cases hsymbol
  simpa using hne

@[simp] theorem ofText?_assign : ofText? "=" = some .assign := by
  rfl

@[simp] theorem ofText?_unary (op : UnaryOp) : ofText? ("u" ++ op.symbol) = some (.unary op) := by
  cases op <;> rfl

@[simp] theorem ofText?_binary (op : BinaryOp) : ofText? op.symbol = some (.binary op) := by
  cases op <;> rfl

theorem ofText?_var {name : String} (h : IsName name) : ofText? name = some (.var name) := by
  obtain ⟨front, last, hname⟩ := (List.eq_nil_or_concat' name.toList).resolve_left h.1
  have hlast : last.isAlphanum = true := by
    simp [Char.isAlphanum, h.2 last (by simp [hname])]
  have hsplit := splitFirst_eq_none (not_slash (h.not_mem (by decide)))
  simp only [ofText?, lookup_marks_eq_none hname hlast, hsplit, List.all_eq_true.mpr h.2, if_true]

theorem ofText?_call {name : String} (h : IsName name) (count : Nat) :
    ofText? (name ++ "/" ++ toString count) = some (.call name count) := by
  have htext : (name ++ "/" ++ toString count).toList =
      name.toList ++ '/' :: Nat.toDigits 10 count := by
    simp
  obtain ⟨front, last, hcount⟩ :=
    (List.eq_nil_or_concat' (Nat.toDigits 10 count)).resolve_left Nat.toDigits_ne_nil
  have hlast : last.isAlphanum = true := by
    simp [Char.isAlphanum, allDigits_toDigits count last (by simp [hcount])]
  have hchars : (name ++ "/" ++ toString count).toList = (name.toList ++ '/' :: front) ++ [last] := by
    simp [hcount]
  have hmark := lookup_marks_eq_none hchars hlast
  have hsplit : splitFirst (· == '/') (name.toList ++ '/' :: Nat.toDigits 10 count) =
      (name.toList, some (Nat.toDigits 10 count)) :=
    splitFirst_append (not_slash (h.not_mem (by decide))) (by decide) _
  simp only [ofText?, hmark, htext, hsplit, String.ofList_toList, digitValue_toDigits]

theorem toChars_ends (value : Decimal) :
    ∃ front last, value.toChars = front ++ [last] ∧ last.isDigit = true := by
  obtain ⟨whole, fraction, hne, hwhole, hfraction, _, _, hchars⟩ := value.toChars_eq
  rcases List.eq_nil_or_concat' fraction with rfl | ⟨front, last, rfl⟩
  · obtain ⟨front, last, rfl⟩ := (List.eq_nil_or_concat' whole).resolve_left hne
    exact ⟨value.signChars ++ front, last, by simp [hchars, pointPart], hwhole last (by simp)⟩
  · refine ⟨value.signChars ++ whole ++ '.' :: front, last, ?_, hfraction last (by simp)⟩
    simp [hchars, pointPart]

/-- A literal is read as its value. -/
theorem ofText?_number {value : Decimal} (h : IsLiteral value) :
    ∃ value', ofText? value.toText = some (.number value') ∧ value.value = value'.value := by
  obtain ⟨value', hread⟩ : ∃ value', Decimal.ofText? value.toText = .ok value' :=
    ⟨_, Decimal.ofText?_toText h.2⟩
  refine ⟨value', ?_, (Decimal.value_of_ofText?_toText hread).symm⟩
  obtain ⟨front, last, hchars, hlast⟩ := toChars_ends value
  have htext : value.toText.toList = value.toChars := String.toList_ofList
  have hmark : marks.lookup value.toText = none :=
    lookup_marks_eq_none (htext.trans hchars) (by simp [Char.isAlphanum, hlast])
  have hsplit := splitFirst_eq_none
    (not_slash (value.not_mem_toChars (by decide) (by decide) (by decide)))
  have hletters : value.toChars.all Char.isAlpha = false := by
    refine List.all_eq_false.mpr ⟨last, by simp [hchars], fun halpha => ?_⟩
    rw [(isAlpha_facts halpha).2.1] at hlast
    cases hlast
  simp only [ofText?, hmark, htext, hsplit, hletters, hread]
  rfl

end PolishWord

/-! ## Running the words -/

namespace PolishStack

theorem pop?_pushed (args : List Expr) (stack : PolishStack) :
    pop? args.length ((args.map Statement.expression).reverse ++ stack) = some (args, stack) := by
  induction args using List.reverseRecOn with
  | nil => rfl
  | append_singleton args arg ih => simp [pop?, ih]

/-- On top of any stack the words take the entries `taken` and leave the entries `left` there. -/
def Turns (words : List String) (taken left : PolishStack) : Prop :=
  ∀ stack, words.foldlM step? (taken ++ stack) = some (left ++ stack)

namespace Turns

variable {words more : List String} {taken left left' : PolishStack}

theorem append (h : Turns words taken left) (hmore : Turns more left left') :
    Turns (words ++ more) taken left' := by
  intro stack
  rw [List.foldlM_append, h stack, Option.bind_eq_bind, Option.bind_some, hmore stack]

/-- What lies below is not touched. -/
theorem above (h : Turns words taken left) (below : PolishStack) :
    Turns words (taken ++ below) (left ++ below) := by
  intro stack
  rw [List.append_assoc, List.append_assoc, h]

theorem word {text : String} {word : PolishWord} (h : PolishWord.ofText? text = some word)
    (hpush : ∀ stack, push? (taken ++ stack) word = some (left ++ stack)) :
    Turns [text] taken left := by
  intro stack
  simp [step?, h, hpush stack]

end Turns

/-- The name of a function takes its arguments. -/
theorem turns_call {name : String} (hname : IsName name) (args : List Expr) :
    Turns [name ++ "/" ++ toString args.length] (args.map .expression).reverse
      [.expression (.call .nowhere ⟨.nowhere, name⟩ args)] := by
  refine .word (PolishWord.ofText?_call hname args.length) fun stack => ?_
  simp [push?, pop?_pushed]

end PolishStack

open PolishStack

/-- Literals of the same value. -/
abbrev SameLiteral (value value' : Decimal) : Prop := value.value = value'.value

/-- The words of arguments push them one after the other, if those of every argument push it. -/
theorem turns_polishTermsAll {args : List Expr}
    (h : ∀ arg ∈ args, ∃ arg', arg.Alike SameLiteral arg' ∧
      Turns arg.polishTerms [] [.expression arg']) :
    ∃ args', AllAlike SameLiteral args args' ∧
      Turns (Expr.polishTermsAll args) [] (args'.map .expression).reverse := by
  induction args with
  | nil => exact ⟨[], trivial, fun stack => rfl⟩
  | cons arg args ih =>
    obtain ⟨arg', halike, hturns⟩ := h arg (by simp)
    obtain ⟨args', hallAlike, hturnsAll⟩ := ih fun arg hmem => h arg (List.mem_cons_of_mem _ hmem)
    refine ⟨arg' :: args', ⟨halike, hallAlike⟩, ?_⟩
    simpa [Expr.polishTermsAll] using hturns.append (hturnsAll.above [.expression arg'])

/-- The words of an expression push it, whatever lies on the stack below. -/
theorem Expr.turns_polishTerms {expr : Expr} (h : Printable expr) :
    ∃ expr', expr.Alike SameLiteral expr' ∧ Turns expr.polishTerms [] [.expression expr'] := by
  induction expr using Expr.induct with
  | number span value =>
    obtain ⟨value', hword, hvalue⟩ := PolishWord.ofText?_number h
    exact ⟨.number .nowhere value', hvalue, .word hword fun _ => rfl⟩
  | var span name => exact ⟨.var .nowhere name, rfl, .word (PolishWord.ofText?_var h) fun _ => rfl⟩
  | call span name args ih =>
    obtain ⟨args', halike, hturns⟩ := turns_polishTermsAll fun arg hmem =>
      ih arg hmem (everyWordOf_iff.mp h.2 arg hmem)
    have hlength : args.length = args'.length := (allAlike_iff.mp halike).length_eq
    refine ⟨.call .nowhere ⟨.nowhere, name.val⟩ args', ⟨rfl, halike⟩, ?_⟩
    rw [Expr.polishTerms, hlength]
    exact hturns.append (turns_call h.1 args')
  | unary span op operand ih =>
    obtain ⟨operand', halike, hturns⟩ := ih h
    refine ⟨.unary .nowhere ⟨.nowhere, op.val⟩ operand', ⟨rfl, halike⟩, ?_⟩
    exact hturns.append (.word (PolishWord.ofText?_unary op.val) fun _ => rfl)
  | binary span lhs op rhs ihlhs ihrhs =>
    obtain ⟨lhs', halike, hlhs⟩ := ihlhs h.1
    obtain ⟨rhs', halike', hrhs⟩ := ihrhs h.2
    refine ⟨.binary .nowhere lhs' ⟨.nowhere, op.val⟩ rhs', ⟨halike, rfl, halike'⟩, ?_⟩
    have hoperands := hlhs.append (hrhs.above [.expression lhs'])
    exact hoperands.append (.word (PolishWord.ofText?_binary op.val) fun _ => rfl)

/-! ## Cutting the text into words -/

theorem mem_polishTermsAll {word : String} {args : List Expr} :
    word ∈ Expr.polishTermsAll args ↔ ∃ arg ∈ args, word ∈ arg.polishTerms := by
  induction args with
  | nil => simp [Expr.polishTermsAll]
  | cons arg args ih => simp [Expr.polishTermsAll, ih]

/-- No word of an expression holds a space. -/
theorem Expr.space_not_mem_polishTerms {expr : Expr} (h : Printable expr) :
    ∀ word ∈ expr.polishTerms, ' ' ∉ word.toList := by
  induction expr using Expr.induct with
  | number span value =>
    simpa [Expr.polishTerms, Decimal.toText] using
      value.not_mem_toChars (c := ' ') (by decide) (by decide) (by decide)
  | var span name =>
    have hname : ' ' ∉ name.toList := IsName.not_mem h (by decide)
    simpa [Expr.polishTerms] using hname
  | call span name args ih =>
    intro word hword
    rcases List.mem_append.mp hword with hword | hword
    · obtain ⟨arg, harg, hword⟩ := mem_polishTermsAll.mp hword
      exact ih arg harg (everyWordOf_iff.mp h.2 arg harg) word hword
    · have hname : ' ' ∉ name.val.toList := IsName.not_mem h.1 (by decide)
      have hcount : ' ' ∉ Nat.toDigits 10 args.length := fun hmem => by
        simpa using allDigits_toDigits _ _ hmem
      rw [List.mem_singleton.mp hword]
      simp [hname, hcount]
  | unary span op operand ih =>
    have hop : ' ' ∉ op.val.symbol.toList := by cases op.val <;> decide
    simpa [Expr.polishTerms, or_imp, forall_and, hop] using ih h
  | binary span lhs op rhs ihlhs ihrhs =>
    have hop : ' ' ∉ op.val.symbol.toList := by cases op.val <;> decide
    simpa [Expr.polishTerms, or_imp, forall_and, hop] using And.intro (ihlhs h.1) (ihrhs h.2)

theorem wordsOfText_intercalate {words : List String} (hne : words ≠ [])
    (h : ∀ word ∈ words, ' ' ∉ word.toList) : wordsOfText (" ".intercalate words) = words := by
  have hsplit : List.splitOn ' ' ([' '].intercalate (words.map String.toList)) =
      words.map String.toList :=
    List.splitOn_intercalate ' ' (by simpa using h) (by simpa using hne)
  have htext : (" ".intercalate words).toList = [' '].intercalate (words.map String.toList) :=
    String.toList_intercalate
  rw [wordsOfText, htext, hsplit, List.map_map]
  simp [Function.comp_def]

/-- The words of the reverse Polish form of a statement. -/
def Statement.polishTerms : Statement → List String
  | .expression value => value.polishTerms
  | .assignment _ target value => target.val :: value.polishTerms ++ ["="]

theorem Statement.toPolish_eq (statement : Statement) :
    statement.toPolish = " ".intercalate statement.polishTerms := by
  cases statement <;> rfl

theorem Statement.wordsOfText_toPolish {statement : Statement} (h : PrintableStatement statement) :
    wordsOfText statement.toPolish = statement.polishTerms := by
  rw [statement.toPolish_eq]
  cases statement with
  | expression value =>
    refine wordsOfText_intercalate ?_ (Expr.space_not_mem_polishTerms h)
    cases value <;> simp [Statement.polishTerms, Expr.polishTerms]
  | assignment span target value =>
    have htarget : ' ' ∉ target.val.toList := IsName.not_mem h.1 (by decide)
    have hvalue := Expr.space_not_mem_polishTerms h.2
    refine wordsOfText_intercalate (List.cons_ne_nil _ _) fun word hword => ?_
    simp only [Statement.polishTerms, List.mem_append, List.mem_cons, List.not_mem_nil, or_false] at hword
    rcases hword with (rfl | hword) | rfl
    · exact htarget
    · exact hvalue word hword
    · decide

/-! ## Decoding -/

/-- The words of a statement leave it on the stack. -/
theorem Statement.turns_polishTerms {statement : Statement} (h : PrintableStatement statement) :
    ∃ statement', statement.Alike SameLiteral statement' ∧
      Turns statement.polishTerms [] [statement'] := by
  cases statement with
  | expression value =>
    obtain ⟨value', halike, hvalue⟩ := Expr.turns_polishTerms h
    exact ⟨.expression value', halike, hvalue⟩
  | assignment span target value =>
    obtain ⟨value', halike, hvalue⟩ := Expr.turns_polishTerms h.2
    refine ⟨.assignment .nowhere ⟨.nowhere, target.val⟩ value', ⟨rfl, halike⟩, ?_⟩
    have htarget : Turns [target.val] [] [.expression (.var .nowhere target.val)] :=
      .word (PolishWord.ofText?_var h.1) fun _ => rfl
    have hsign : Turns ["="] [.expression value', .expression (.var .nowhere target.val)]
        [.assignment .nowhere ⟨.nowhere, target.val⟩ value'] :=
      .word PolishWord.ofText?_assign fun _ => rfl
    exact (htarget.append (hvalue.above _)).append hsign

theorem Statement.ofPolish?_of_printable {statement : Statement} (h : PrintableStatement statement) :
    ∃ statement', Statement.ofPolish? statement.toPolish = some statement' ∧
      statement.Alike SameLiteral statement' := by
  obtain ⟨statement', halike, hturns⟩ := turns_polishTerms h
  have hrun : statement.polishTerms.foldlM step? [] = some [statement'] := hturns []
  refine ⟨statement', ?_, halike⟩
  simp only [ofPolish?, wordsOfText_toPolish h, hrun]

/-- Whatever is read, its reverse Polish form decodes: its words find on the stack what they take, and in
the end one statement is there, which is the one that was read up to its places and the scales of its
literals.  So two statements with the same reverse Polish form are the same in this sense. -/
theorem ofPolish?_toPolish {g : Grammar} {source : List Char} {statement : Statement}
    (h : Statement.parse? g source = .ok statement) :
    (∃ statement', Statement.ofPolish? statement.toPolish = some statement' ∧
      statement.Alike SameLiteral statement') ∧
    ∀ (g' : Grammar) (source' : List Char) (statement' : Statement),
      Statement.parse? g' source' = .ok statement' → statement'.toPolish = statement.toPolish →
      statement.Alike SameLiteral statement' := by
  obtain ⟨decoded, hdecoded, halike⟩ := Statement.ofPolish?_of_printable (printable_of_parse? h)
  refine ⟨⟨decoded, hdecoded, halike⟩, fun g' source' statement' h' hsame => ?_⟩
  obtain ⟨decoded', hdecoded', halike'⟩ := Statement.ofPolish?_of_printable (printable_of_parse? h')
  obtain rfl : decoded = decoded' := by
    rw [hsame, hdecoded] at hdecoded'
    exact Option.some.inj hdecoded'
  exact Statement.Alike.trans (fun _ _ _ h h' => h.trans h') halike
    (halike'.symm fun _ _ hvalue => hvalue.symm)

/-- The slash of a division stands beside those that count arguments, and a sign beside a minus. -/
theorem ofPolish?_toPolish_of_slashes :
    ∃ statement, Statement.parse? .default "x = -f(1.50e3, (.5)) / g() ^ u".toList = .ok statement ∧
      statement.toPolish = "x 1500 0.5 f/2 u- g/0 u ^ / =" ∧
      ∃ statement', Statement.ofPolish? "x 1500 0.5 f/2 u- g/0 u ^ / =" = some statement' ∧
        statement.Alike SameLiteral statement' := by
  have hpolish : (Statement.parse? .default "x = -f(1.50e3, (.5)) / g() ^ u".toList).map
      Statement.toPolish = .ok "x 1500 0.5 f/2 u- g/0 u ^ / =" := by
    cbv
  cases hparse : Statement.parse? .default "x = -f(1.50e3, (.5)) / g() ^ u".toList with
  | error error => rw [hparse] at hpolish; cases hpolish
  | ok statement =>
    rw [hparse] at hpolish
    have htext := Except.ok.inj hpolish
    have hdecoded := (ofPolish?_toPolish hparse).1
    rw [htext] at hdecoded
    exact ⟨statement, rfl, htext, hdecoded⟩

end Abacus
