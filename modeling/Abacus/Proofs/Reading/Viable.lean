import Abacus.Proofs.Reading.Grammar

/-!
# Viable beginnings

A list of items is viable if some statement of the grammar begins with it.  Whatever a rule has read can
be gone on with: a name stands for each expression that is missing, and a closing parenthesis for each
one that is open.  `Goal.Begins` says that some tokens can be gone on with to what a goal stands for, and
there is one lemma for each way in which a goal is met within another one.
-/

namespace Abacus.Reading

open Abacus.Parser

/-- The token is spelled in the way of its kind, and it is a decimal if it is a literal. -/
structure IsValid (token : Token) : Prop where
  spelled : token.Spelled
  readable : IsReadable token

theorem spelled_of_isValid {tokens : List Token} (h : ∀ token ∈ tokens, IsValid token) :
    Spelled (tokens.map .ok) := by
  intro token hmem
  obtain ⟨found, hfound, hok⟩ := List.mem_map.mp hmem
  obtain rfl := Except.ok.inj hok
  exact (h found hfound).spelled

/-- Some statement of the grammar begins with the items. -/
def Viable (items : List Lexed) : Prop :=
  ∃ tokens more, items = tokens.map .ok ∧ Derives .statement (tokens ++ more) ∧
    ∀ token ∈ tokens ++ more, IsValid token

/-- A part of a viable beginning is viable. -/
theorem Viable.take {items : List Lexed} (h : Viable items) (k : Nat) : Viable (items.take k) := by
  obtain ⟨tokens, more, rfl, hderives, hvalid⟩ := h
  refine ⟨tokens.take k, tokens.drop k ++ more, List.map_take.symm, ?_, ?_⟩
  · rwa [← List.append_assoc, List.take_append_drop]
  · rwa [← List.append_assoc, List.take_append_drop]

/-! ## Tokens to go on with -/

/-- A name. -/
def someName : Token := ⟨.ident, "x", ⟨0, 0, 1⟩⟩

/-- A literal. -/
def someNumber : Token := ⟨.number, "1", ⟨0, 0, 1⟩⟩

/-- A closing parenthesis. -/
def someClosing : Token := ⟨.rightParen, ")", ⟨0, 0, 1⟩⟩

/-- An end of the input. -/
def someEnd : Token := ⟨.finish, "", ⟨0, 0, 1⟩⟩

theorem isValid_someName : IsValid someName :=
  ⟨.inr ⟨['x'], ['x'], by decide, rfl⟩, fun h => by cases h⟩

theorem isValid_someNumber : IsValid someNumber :=
  ⟨.inr ⟨['1'], ['1'], by decide, rfl⟩, fun _ => ⟨⟨1, 0⟩, by decide⟩⟩

theorem isValid_someClosing : IsValid someClosing :=
  ⟨.inr ⟨[')'], [')'], by decide, rfl⟩, fun h => by cases h⟩

theorem isValid_someEnd : IsValid someEnd :=
  ⟨.inl rfl, fun h => by cases h⟩

/-! ## Beginnings of goals -/

/-- The tokens are what the goal stands for. -/
def Goal.Derived (goal : Goal) (tokens : List Token) : Prop :=
  match goal with
  | .chain _ => Derives .expression tokens
  | .extend _ _ => Derives .operations tokens
  | .term | .unary => Derives .term tokens
  | .call => Derives .call tokens
  | .arguments _ _ => ∃ others closing, tokens = others ++ [closing] ∧ closing.kind = .rightParen ∧
      Derives .furtherArguments others
  | .paren => Derives .operand tokens

/-- What the goal stands for can begin with the tokens. -/
def Goal.Begins (goal : Goal) (front : List Token) : Prop :=
  ∃ more, goal.Derived (front ++ more) ∧ ∀ token ∈ more, IsValid token

/-- What begins a part of the goal begins the goal, behind the tokens before that part, if some tokens can
stand behind it. -/
theorem Goal.Begins.lift {goal goal' : Goal} {front before ending : List Token}
    (h : goal.Begins front) (hending : ∀ token ∈ ending, IsValid token)
    (hgoal : ∀ tokens, goal.Derived tokens → goal'.Derived (before ++ tokens ++ ending)) :
    goal'.Begins (before ++ front) := by
  obtain ⟨more, hderived, hvalid⟩ := h
  refine ⟨more ++ ending, ?_, List.forall_mem_append.mpr ⟨hvalid, hending⟩⟩
  rw [← List.append_assoc, List.append_assoc before]
  exact hgoal _ hderived

theorem derives_someName : Derives .operand [someName] := .var rfl

theorem derives_someNumber : Derives .operand [someNumber] := .number rfl

end Abacus.Reading
