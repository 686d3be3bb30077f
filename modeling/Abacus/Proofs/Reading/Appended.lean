import Abacus.Proofs.Reading.Lexemes

/-!
# Texts behind one another

A lexeme is a piece of its text (`lexeme?_isPrefix`), and it stays what it is if something that ends a
literal is put behind the text (`lexeme?_before`).  So a text that is cut into lexemes as a whole is cut
into the same ones before a blank, a closing parenthesis or a comma: `Lexes.append`.  What is cut with
one of these in it is cut apart there: `Lexes.of_append`.  The texts that are cut as a whole are those
without lexical error (`exists_lexes`).
-/

namespace Abacus

/-! ## Lexemes are pieces of their text -/

theorem mantissa?_isPrefix {cs mantissa : List Char} (h : mantissa? cs = some mantissa) :
    mantissa <+: cs := by
  have hwhole : cs.takeWhile Char.isDigit <+: cs := List.takeWhile_prefix _
  simp only [mantissa?] at h
  split at h
  · rename_i rest hrest
    split at h
    · obtain rfl := Option.some.inj h
      have hcs : cs = cs.takeWhile Char.isDigit ++ '.' :: rest := by
        rw [← hrest, List.takeWhile_append_dropWhile]
      obtain ⟨others, hothers⟩ : rest.takeWhile Char.isDigit <+: rest := List.takeWhile_prefix _
      refine ⟨others, ?_⟩
      rw [List.append_assoc, List.cons_append, hothers, ← hcs]
    · obtain ⟨_, heq⟩ := Option.ite_none_right_eq_some.mp h
      exact Option.some.inj heq ▸ hwhole
  · obtain ⟨_, heq⟩ := Option.ite_none_right_eq_some.mp h
    exact Option.some.inj heq ▸ hwhole

/-- An optional sign is a piece of its text. -/
theorem sign_isPrefix (p : Char → Bool) (cs : List Char) : cs.head?.toList.filter p <+: cs := by
  cases cs with
  | nil => exact List.nil_prefix
  | cons c cs => cases hc : p c <;> simp [hc]

theorem exponentPart_isPrefix (cs : List Char) : exponentPart cs <+: cs := by
  unfold exponentPart
  split
  · rename_i letter rest
    split
    · dsimp only
      split
      · exact List.nil_prefix
      · obtain ⟨digits, hdigits⟩ := sign_isPrefix (fun c => c == '+' || c == '-') rest
        generalize rest.head?.toList.filter (fun c => c == '+' || c == '-') = sign at hdigits ⊢
        rw [← hdigits, List.drop_left]
        exact List.prefix_append_right_inj (letter :: sign) |>.mpr (List.takeWhile_prefix _)
    · exact List.nil_prefix
  · exact List.nil_prefix

theorem numeral?_isPrefix {cs text : List Char} (h : numeral? cs = some text) : text <+: cs := by
  obtain ⟨mantissa, hmantissa, rfl⟩ := Option.map_eq_some_iff.mp h
  obtain ⟨rest, rfl⟩ := mantissa?_isPrefix hmantissa
  rw [List.drop_left]
  exact List.prefix_append_right_inj .. |>.mpr (exponentPart_isPrefix rest)

theorem lexeme?_isPrefix {cs text : List Char} {kind : TokenKind}
    (h : lexeme? cs = some (kind, text)) : text <+: cs := by
  unfold lexeme? at h
  split at h
  · rename_i numeral hnumeral
    obtain ⟨_, rfl⟩ := Prod.mk.inj (Option.some.inj h)
    exact numeral?_isPrefix hnumeral
  · split at h
    · obtain ⟨c, hc, h⟩ := Option.bind_eq_some_iff.mp h
      obtain ⟨_, _, h⟩ := Option.bind_eq_some_iff.mp h
      obtain ⟨_, rfl⟩ := Prod.mk.inj (Option.some.inj h)
      obtain ⟨rest, rfl⟩ := List.head?_eq_some_iff.mp hc
      exact List.prefix_append [c] rest
    · obtain ⟨_, rfl⟩ := Prod.mk.inj (Option.some.inj h)
      exact List.takeWhile_prefix _

/-! ## Something behind a text -/

section

variable {cs : List Char}

theorem takeWhile_before {p : Char → Bool} (hstop : ∀ c ∈ cs.head?, p c = false)
    (text : List Char) :
    (text ++ cs).takeWhile p = text.takeWhile p ∧
      (text ++ cs).dropWhile p = text.dropWhile p ++ cs := by
  induction text with
  | nil => exact takeWhile_run (List.forall_mem_nil _) hstop
  | cons c text ih =>
    cases hc : p c with
    | false => simp [hc]
    | true => simpa [hc] using ih

variable (hends : EndsLiteral cs) (text : List Char)
include hends

theorem mantissa?_before : mantissa? (text ++ cs) = mantissa? text := by
  have hdigit : ∀ c ∈ cs.head?, c.isDigit = false := fun c hc => (hends.facts c hc).1
  obtain ⟨htake, hdrop⟩ := takeWhile_before hdigit text
  rw [mantissa?, mantissa?, htake, hdrop]
  cases text.dropWhile Char.isDigit with
  | nil =>
    cases cs with
    | nil => rfl
    | cons c cs => simp [(hends.facts c rfl).2.1]
  | cons c rest =>
    by_cases hc : c = '.'
    · subst hc
      simp [(takeWhile_before hdigit rest).1]
    · simp [hc]

theorem exponentPart_before : exponentPart (text ++ cs) = exponentPart text := by
  have hdigit : ∀ c ∈ cs.head?, c.isDigit = false := fun c hc => (hends.facts c hc).1
  cases text with
  | nil => exact exponentPart_of_endsLiteral hends
  | cons letter rest =>
    have hsign : (rest ++ cs).head?.toList.filter (fun c => c == '+' || c == '-') =
        rest.head?.toList.filter (fun c => c == '+' || c == '-') := by
      cases rest with
      | cons c rest => rfl
      | nil =>
        cases cs with
        | nil => rfl
        | cons c cs => rcases hends c rfl with rfl | rfl | rfl <;> rfl
    obtain ⟨digits, hdigits⟩ := sign_isPrefix (fun c => c == '+' || c == '-') rest
    rw [List.cons_append, exponentPart, exponentPart, hsign]
    generalize rest.head?.toList.filter (fun c => c == '+' || c == '-') = sign at hdigits ⊢
    dsimp only
    rw [← hdigits, List.append_assoc, List.drop_left, List.drop_left,
      (takeWhile_before hdigit digits).1]

theorem numeral?_before : numeral? (text ++ cs) = numeral? text := by
  rw [numeral?, numeral?, mantissa?_before hends]
  refine Option.map_congr fun mantissa hmantissa => ?_
  obtain ⟨rest, rfl⟩ := mantissa?_isPrefix hmantissa
  rw [List.append_assoc, List.drop_left, List.drop_left, exponentPart_before hends]

theorem lexeme?_before (hne : text ≠ []) : lexeme? (text ++ cs) = lexeme? text := by
  have halpha : ∀ c ∈ cs.head?, c.isAlpha = false := fun c hc => (hends.facts c hc).2.2.2.2
  rw [lexeme?, lexeme?, numeral?_before hends, (takeWhile_before halpha text).1,
    List.head?_append_of_ne_nil _ hne]

end

/-- Behind a text that is not blank, what ends a literal does not change the first lexeme. -/
theorem lexeme?_append {text cs : List Char} (hends : EndsLiteral cs)
    (hne : text.dropWhile isSeparator ≠ []) :
    (text ++ cs).dropWhile isSeparator = text.dropWhile isSeparator ++ cs ∧
      lexeme? ((text ++ cs).dropWhile isSeparator) = lexeme? (text.dropWhile isSeparator) := by
  have hdrop : (text ++ cs).dropWhile isSeparator = text.dropWhile isSeparator ++ cs := by
    rw [List.dropWhile_append, if_neg (by simpa using hne)]
  exact ⟨hdrop, hdrop ▸ lexeme?_before hends _ hne⟩

/-- A text that is cut as a whole is cut in the same way before something that ends a literal. -/
theorem Lexes.append {text cs : List Char} {lexemes more : List Lexeme} (h : Lexes text lexemes)
    (hends : EndsLiteral cs) (hmore : Lexes cs more) : Lexes (text ++ cs) (lexemes ++ more) := by
  induction h with
  | finish hempty => exact (Lexes.blanks_iff (by simpa using hempty)).mpr hmore
  | @lexeme text piece kind lexemes hlexeme _ ih =>
    have hne : text.dropWhile isSeparator ≠ [] := by
      intro hnil
      rw [hnil] at hlexeme
      cases hlexeme
    obtain ⟨hdrop, hsame⟩ := lexeme?_append hends hne
    refine .lexeme (hsame.trans hlexeme) ?_
    rwa [hdrop, List.drop_append_of_le_length (lexeme?_isPrefix hlexeme).length_le]

/-- What is cut as a whole, with something in it that ends a literal, is cut apart there. -/
theorem Lexes.of_append {text cs : List Char} {lexemes : List Lexeme}
    (h : Lexes (text ++ cs) lexemes) (hends : EndsLiteral cs) :
    ∃ first more, lexemes = first ++ more ∧ Lexes text first ∧ Lexes cs more := by
  generalize hwhole : text ++ cs = whole at h
  induction h generalizing text with
  | finish hempty =>
    have hblanks : ∀ c ∈ text ++ cs, isSeparator c = true := hwhole ▸ by simpa using hempty
    obtain ⟨htext, hcs⟩ := List.forall_mem_append.mp hblanks
    exact ⟨[], [], rfl, .finish (by simpa using htext), .finish (by simpa using hcs)⟩
  | @lexeme whole piece kind lexemes hlexeme rest ih =>
    subst hwhole
    by_cases hempty : text.dropWhile isSeparator = []
    · have hmore : Lexes cs ((kind, piece) :: lexemes) :=
        (Lexes.blanks_iff (by simpa using hempty)).mp (.lexeme hlexeme rest)
      exact ⟨[], _, rfl, .finish hempty, hmore⟩
    · obtain ⟨hdrop, hsame⟩ := lexeme?_append hends hempty
      rw [hsame] at hlexeme
      rw [hdrop, List.drop_append_of_le_length (lexeme?_isPrefix hlexeme).length_le] at ih
      obtain ⟨first, more, rfl, hfirst, hmore⟩ := ih rfl
      exact ⟨(kind, piece) :: first, more, rfl, .lexeme hlexeme hfirst, hmore⟩

/-! ## Texts without lexical error -/

/-- A lexer that gives nothing but tokens cuts all that it has left into lexemes. -/
theorem Lexer.Gives.exists_lexes {lexer : Lexer} {items : List Lexed} (h : lexer.Gives items)
    (hfinished : lexer.finished = false) (htokens : ∀ item ∈ items, ∃ token, item = .ok token) :
    ∃ lexemes, Lexes lexer.cursor.rest lexemes := by
  induction h with
  | nil hnext =>
    rcases next?_cases hfinished with ⟨_, _, hsome, _⟩ | ⟨_, _, hsome, _⟩ | ⟨_, _, hsome, _⟩
    all_goals simp [hnext] at hsome
  | @cons lexer after item items hnext rest ih =>
    have hskip := lexer.cursor.skipSeparators_rest
    simp only [next?, hfinished, Bool.false_eq_true, if_false] at hnext
    split at hnext
    · rename_i hempty
      exact ⟨[], .finish (by simpa [hskip] using hempty)⟩
    · split at hnext
      · rename_i kind text hlexeme
        obtain ⟨rfl, rfl⟩ := Prod.mk.inj (Option.some.inj hnext)
        obtain ⟨lexemes, hrest⟩ := ih rfl fun other hmem => htokens other (List.mem_cons_of_mem _ hmem)
        rw [hskip] at hlexeme
        refine ⟨(kind, text) :: lexemes, .lexeme hlexeme ?_⟩
        rwa [Cursor.advance, hskip] at hrest
      · obtain ⟨rfl, rfl⟩ := Prod.mk.inj (Option.some.inj hnext)
        obtain ⟨token, htoken⟩ := htokens _ List.mem_cons_self
        cases htoken

/-- A text that gives tokens only is cut into these. -/
theorem lexes_of_tokenize {source : List Char} {tokens : List Token} {finish : Token}
    (h : tokenize source = (tokens ++ [finish]).map .ok) :
    Lexes source (tokens.map Token.lexeme) := by
  have htokens : ∀ item ∈ tokenize source, ∃ token, item = .ok token := by
    intro item hmem
    rw [h] at hmem
    obtain ⟨token, _, rfl⟩ := List.mem_map.mp hmem
    exact ⟨token, rfl⟩
  obtain ⟨lexemes, hlexes⟩ := (gives_tokenize source).exists_lexes rfl htokens
  obtain ⟨tokens', finish', htokens', rfl, _⟩ := tokenize_of_lexes hlexes
  have hmap := List.map_injective_iff.mpr (fun _ _ => Except.ok.inj) (h.symm.trans htokens')
  rwa [(List.append_inj' hmap rfl).1]

end Abacus
