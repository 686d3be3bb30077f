import Abacus.Proofs.Reading.Entries
import Abacus.Proofs.Reading.Order
import Abacus.Proofs.Reading.Stuck

/-!
# Errors are about the first offending item

Both ways to read a statement stop at an item behind a viable beginning, and the error that got further is
the one of the first item with which the beginning is viable no more (`Unread.halts`).  A lexical error is
about a character that starts no token, or about a literal that is no decimal where a literal could stand.
So what is wrong behind the first offending item does not show.

The main statement is `parse?_error_first`.
-/

namespace Abacus.Reading

open Abacus.Parser

variable {g : Grammar} {s s' : Nat → Lexed} {items : List Lexed} {i j k : Nat}
  {error : Located SyntaxError} {refusal : (Nat → Lexed) → SyntaxFailure → Prop}
  {front : List Token}

/-! ## Where a statement stops -/

/-- A statement stops at item `k`, which the error is about, behind tokens that can be gone on with, and it
is refused in all items that agree with these ones. -/
structure Halts (refusal : (Nat → Lexed) → SyntaxFailure → Prop) (s : Nat → Lexed) (k : Nat)
    (error : Located SyntaxError) (front : List Token) : Prop where
  between : Between s 0 k front
  ends : ∀ token ∈ front, token.kind ≠ .finish
  blames : Blames error (s k)
  begins : ∀ middle, Fits error.val middle →
    ∃ more, Derives .statement (front ++ middle ++ more) ∧ ∀ token ∈ more, IsValid token
  frame : error.val.isLexical = false → ∀ s', Agrees s s' k →
    ∃ error', error'.val.isLexical = false ∧ refusal s' (.refused error')

namespace Halts

theorem eq_length (h : Halts refusal s k error front) : k = front.length := by
  simpa using h.between.stop

theorem item (h : Halts refusal s k error front) {l : Nat} (hl : l < front.length) :
    s l = .ok front[l] := by
  simpa using h.between.carries.getElem hl

end Halts

/-- A statement stops where its expression stops. -/
theorem Stuck.halts {least : UInt64} {before : List Token} (hbefore : Between s 0 i before)
    (h : Stuck g s (.chain least) i k error front) (hends : ∀ token ∈ before, token.kind ≠ .finish)
    (hstatement : ∀ tokens, Derives .expression tokens →
      Derives .statement (before ++ tokens ++ [someEnd]))
    (hframe : ∀ s' error', Agrees s s' k → Fails g s' (.chain least) i (.refused error') →
      refusal s' (.refused error')) :
    Halts refusal s k error (before ++ front) where
  between := hbefore.append h.between
  ends := by
    obtain ⟨more, hderived, _⟩ := h.begins [] (.inl rfl)
    have hkinds := Derives.kind_ne hderived (by decide)
    exact List.forall_mem_append.mpr ⟨hends, fun token hmem => (hkinds token (by simp [hmem])).1⟩
  blames := h.blames
  begins middle hfits := by
    obtain ⟨more, hderived, hvalid⟩ := h.begins middle hfits
    refine ⟨more ++ [someEnd], ?_, List.forall_mem_append.mpr ⟨hvalid, by simp [isValid_someEnd]⟩⟩
    have hwhole := hstatement _ hderived
    simpa using hwhole
  frame hlexical s' hagrees := by
    obtain ⟨error', hlexical', hfails⟩ := h.frame hlexical s' hagrees
    exact ⟨error', hlexical', hframe s' error' hagrees hfails⟩

/-- A statement stops where it misses a token that goes on with what it read. -/
theorem Halts.missing {kind : TokenKind} {context : Context} {more : List Token}
    (hbetween : Between s 0 k front) (hends : ∀ token ∈ front, token.kind ≠ .finish)
    (hmissing : missing? kind context (s k) = some error) (hderives : Derives .statement (front ++ more))
    (hvalid : ∀ token ∈ more, IsValid token)
    (hframe : ∀ s' error', Agrees s s' k → missing? kind context (s' k) = some error' →
      refusal s' (.refused error')) :
    Halts refusal s k error front where
  between := hbetween
  ends := hends
  blames := (missing?_blames hmissing).1
  begins middle hfits := by
    rw [hfits.eq_nil (missing?_blames hmissing).2, List.append_nil]
    exact ⟨more, hderives, hvalid⟩
  frame _ s' hagrees := by
    obtain ⟨error', hlexical', hmissing'⟩ := hagrees.missing hmissing
    exact ⟨error', hlexical', hframe s' error' hagrees hmissing'⟩

theorem NoExpression.halts (hspelled : ∀ i token, s i = .ok token → token.Spelled)
    (h : NoExpression g s (.refused error)) : ∃ k front, Halts (NoExpression g) s k error front := by
  have hend : ∀ token ∈ [someEnd], IsValid token := by simp [isValid_someEnd]
  cases h with
  | expression expression =>
    obtain ⟨k, front, h⟩ := expression.stuck hspelled rfl trivial
    exact ⟨k, _, h.halts (.nil s 0) (by simp) (fun _ hexpr => .expressionStatement hexpr rfl)
      fun _ _ _ hfails => .expression hfails⟩
  | finish expression hfinish =>
    obtain ⟨tokens, hbetween, hderives, _⟩ := expression.derives hspelled
    have hkinds := Derives.kind_ne hderives (by decide)
    exact ⟨_, tokens, .missing hbetween (fun token hmem => (hkinds token hmem).1) hfinish
      (.expressionStatement hderives rfl) hend fun s' error' hagrees hmissing =>
        .finish (expression.agrees hagrees le_rfl) hmissing⟩

theorem NoAssignment.halts (hspelled : ∀ i token, s i = .ok token → token.Spelled)
    (h : NoAssignment g s (.refused error)) : ∃ k front, Halts (NoAssignment g) s k error front := by
  have hend : ∀ token ∈ [someEnd], IsValid token := by simp [isValid_someEnd]
  have hname : ∀ name : Token, name.kind = .ident → Derives .statement ([name] ++ [someEnd]) :=
    fun name hkind =>
      .expressionStatement (by simpa using Derives.expression (.unsigned (.var hkind)) .noOperation) rfl
  cases h with
  | target htarget =>
    exact ⟨0, [], .missing (.nil s 0) (by simp) htarget (hname someName rfl)
      (by simp [isValid_someName, isValid_someEnd]) fun _ _ _ hmissing => .target hmissing⟩
  | equals htarget hequals =>
    exact ⟨1, [_], .missing (.stands htarget (by decide)) (by simp [htarget.2]) hequals
      (hname _ htarget.2) hend fun s' error' hagrees hmissing =>
        .equals (hagrees.stands (by omega) htarget) hmissing⟩
  | @expression target equals _ htarget hequals expression =>
    obtain ⟨k, front, h⟩ := expression.stuck hspelled rfl trivial
    have hk : 2 ≤ k := h.entry
    have hstart : Between s 0 2 [target, equals] :=
      (Between.stands htarget (by decide)).append (.stands hequals (by decide))
    refine ⟨k, _, h.halts hstart (by simp [htarget.2, hequals.2])
      (fun _ hexpr => .assignmentStatement htarget.2 hequals.2 hexpr rfl) fun s' error' hagrees h => ?_⟩
    exact .expression (hagrees.stands (by omega) htarget) (hagrees.stands (by omega) hequals) h
  | @finish j target equals _ _ htarget hequals expression hfinish =>
    obtain ⟨tokens, hbetween, hderives, _⟩ := expression.derives hspelled
    have hkinds := Derives.kind_ne hderives (by decide)
    have hj : 2 < j := expression.progress
    have hstart : Between s 0 2 [target, equals] :=
      (Between.stands htarget (by decide)).append (.stands hequals (by decide))
    have hends : ∀ token ∈ [target, equals] ++ tokens, token.kind ≠ .finish :=
      List.forall_mem_append.mpr
        ⟨by simp [htarget.2, hequals.2], fun token hmem => (hkinds token hmem).1⟩
    refine ⟨j, _, .missing (hstart.append hbetween) hends hfinish
      (.assignmentStatement htarget.2 hequals.2 hderives rfl) hend fun s' error' hagrees h => ?_⟩
    exact .finish (hagrees.stands (by omega) htarget) (hagrees.stands (by omega) hequals)
      (expression.agrees hagrees le_rfl) h

/-! ## The alternative that got further -/

/-- Where a statement stops there is an item. -/
theorem Halts.lt_length (hended : Ended items) (h : Halts refusal (itemAt items) k error front) :
    k < items.length := by
  cases k with
  | zero => exact List.length_pos_iff.mpr hended.ne_nil
  | succ k =>
    have hlast : k < front.length := h.eq_length ▸ Nat.lt_succ_self k
    exact hended.lt_length (h.item hlast) (h.ends _ (List.getElem_mem hlast))

theorem Agrees.of_lt (h : Agrees s s' k) (hj : j < k) {token : Token} (htoken : s j = .ok token) :
    Agrees s s' j :=
  ⟨fun l hl => h.before l (hl.trans hj), token, token, htoken, (h.before j hj).trans htoken, rfl, rfl⟩

theorem offset_lt (hordered : items.Pairwise Lexed.Before) (hj : j < k) (hk : k < items.length)
    {token token' : Token} (htoken : itemAt items j = .ok token)
    (htoken' : itemAt items k = .ok token') : token.span.offset < token'.span.offset := by
  have hj' : j < items.length := hj.trans hk
  rw [itemAt_eq_getElem (List.getElem?_eq_getElem hj')] at htoken
  rw [itemAt_eq_getElem (List.getElem?_eq_getElem hk)] at htoken'
  exact List.pairwise_iff_getElem.mp hordered j k hj' hk hj token token' htoken htoken'

/-- Tokens stand in the order of their numbers. -/
theorem offset_lt_iff (hordered : items.Pairwise Lexed.Before) (hj : j < items.length)
    (hk : k < items.length) {token token' : Token} (htoken : itemAt items j = .ok token)
    (htoken' : itemAt items k = .ok token') : token.span.offset < token'.span.offset ↔ j < k := by
  refine ⟨fun hoffset => ?_, fun hlt => offset_lt hordered hlt hk htoken htoken'⟩
  by_contra hle
  rcases Nat.lt_or_eq_of_le (Nat.le_of_not_lt hle) with hlt | rfl
  · exact absurd hoffset (offset_lt hordered hlt hj htoken' htoken).asymm
  · obtain rfl := Except.ok.inj (htoken.symm.trans htoken')
    exact lt_irrefl _ hoffset

/-- A refused statement stops where the alternative that got further stops. -/
theorem Unread.halts (hended : Ended items) (hspelled : Spelled items)
    (hordered : items.Pairwise Lexed.Before) (h : Unread g (itemAt items) (.refused error)) :
    ∃ k front, Halts (Unread g) (itemAt items) k error front := by
  have hspelled' := Ended.spelled_itemAt hended hspelled
  cases h with
  | fatal expression hfatal =>
    obtain ⟨k, front, h⟩ := expression.halts hspelled'
    refine ⟨k, front, h.between, h.ends, h.blames, h.begins, fun hother => ?_⟩
    cases hother.symm.trans hfatal
  | assignmentFatal _ _ assignment hfatal =>
    obtain ⟨k, front, h⟩ := assignment.halts hspelled'
    refine ⟨k, front, h.between, h.ends, h.blames, h.begins, fun hother => ?_⟩
    cases hother.symm.trans hfatal
  | @neither asExpression asAssignment expression hexpression assignment hassignment =>
    obtain ⟨j, front, hfirst⟩ := expression.halts hspelled'
    obtain ⟨k, front', hsecond⟩ := assignment.halts hspelled'
    obtain ⟨token, htoken, hspan⟩ := hfirst.blames.token_of hexpression
    obtain ⟨token', htoken', hspan'⟩ := hsecond.blames.token_of hassignment
    rw [hspan, hspan']
    -- The later of the two stops is reported.  Items that agree up to there agree up to the earlier one
    -- too, so that both alternatives stop in them as well.
    have hoffset := offset_lt_iff hordered (hfirst.lt_length hended) (hsecond.lt_length hended) htoken
      htoken'
    by_cases hjk : j < k
    · rw [if_pos (hoffset.mpr hjk)]
      refine ⟨k, front', hsecond.between, hsecond.ends, hsecond.blames, hsecond.begins,
        fun _ s' hagrees => ?_⟩
      obtain ⟨e, he, hno⟩ := hfirst.frame hexpression s' (hagrees.of_lt hjk htoken)
      obtain ⟨e', he', hno'⟩ := hsecond.frame hassignment s' hagrees
      exact ⟨_, by split <;> assumption, .neither hno he hno' he'⟩
    · rw [if_neg (mt hoffset.mp hjk)]
      refine ⟨j, front, hfirst.between, hfirst.ends, hfirst.blames, hfirst.begins,
        fun _ s' hagrees => ?_⟩
      obtain ⟨e, he, hno⟩ := hfirst.frame hexpression s' hagrees
      have hagrees' : Agrees (itemAt items) s' k := by
        rcases Nat.lt_or_eq_of_le (Nat.le_of_not_lt hjk) with hlt | rfl
        · exact hagrees.of_lt hlt htoken'
        · exact hagrees
      obtain ⟨e', he', hno'⟩ := hsecond.frame hassignment s' hagrees'
      exact ⟨_, by split <;> assumption, .neither hno he hno' he'⟩

/-! ## The first offending item -/

/-- The item is the first one with which the items up to it are not viable. -/
structure FirstOffence (items : List Lexed) (k : Nat) (item : Lexed) : Prop where
  item : items[k]? = some item
  viable : ∀ l ≤ k, Viable (items.take l)
  offends : ¬ Viable (items.take (k + 1))

/-- The item is a character that starts no token, or a literal that is no decimal and stands where a
literal can stand. -/
def LexicalOffence (items : List Lexed) (k : Nat) (item : Lexed) : Prop :=
  (∃ span, item = .error span) ∨
    ∃ token number, item = .ok token ∧ token.kind = .number ∧ ¬ IsReadable token ∧
      number.kind = .number ∧ Viable (items.take k ++ [.ok number])

namespace Halts

theorem take_eq (h : Halts refusal (itemAt items) k error front) (hk : k ≤ items.length) :
    items.take k = front.map .ok := by
  have hlength := h.eq_length
  refine List.ext_getElem (by simp [hlength ▸ hk, hlength]) fun l hl hl' => ?_
  rw [List.length_map] at hl'
  have hitem := h.item hl'
  rw [itemAt_eq_getElem (List.getElem?_eq_getElem (by omega))] at hitem
  simp [hitem]

theorem valid_front (hspelled : ∀ i token, s i = .ok token → token.Spelled)
    (h : Halts refusal s k error front) : ∀ token ∈ front, IsValid token := by
  intro token hmem
  obtain ⟨l, hl, rfl⟩ := List.mem_iff_getElem.mp hmem
  exact ⟨hspelled _ _ (h.item hl), h.between.readable _ hmem⟩

/-- What fits behind the tokens that were read makes them a viable beginning. -/
theorem viable (hspelled : ∀ i token, s i = .ok token → token.Spelled)
    (h : Halts refusal s k error front) {middle : List Token} (hfits : Fits error.val middle) :
    Viable ((front ++ middle).map .ok) := by
  obtain ⟨more, hderives, hvalid⟩ := h.begins middle hfits
  have hmiddle : ∀ token ∈ middle, IsValid token := by
    rcases hfits with rfl | ⟨_, rfl⟩
    · simp
    · simp [isValid_someNumber]
  exact ⟨front ++ middle, more, rfl, hderives, List.forall_mem_append.mpr
    ⟨List.forall_mem_append.mpr ⟨h.valid_front hspelled, hmiddle⟩, hvalid⟩⟩

/-- Where the error is not lexical no token of the same kind makes a viable beginning. -/
theorem not_viable (h : Halts (Unread g) s k error front) (hlexical : error.val.isLexical = false)
    {token token' : Token} (htoken : s k = .ok token) (hkind : token'.kind = token.kind)
    (hop : binaryOp? token' = binaryOp? token) :
    ¬ Viable ((front ++ [token']).map .ok) := by
  intro hviable
  obtain ⟨tokens, more, hitems, hderives, hvalid⟩ := hviable
  obtain rfl : tokens = front ++ [token'] := by
    refine (List.map_injective_iff.mpr (fun a b hab => ?_) hitems).symm
    exact Except.ok.inj hab
  have hcarries := carries_itemAt [] (front ++ [token'] ++ more)
  rw [List.nil_append] at hcarries
  obtain ⟨hfront, hlast⟩ := carries_append.mp (carries_append.mp hcarries).1
  have hlength := h.eq_length
  -- a statement that begins in this way agrees with the items up to the stop, so it is refused as well
  have hagrees : Agrees s (itemAt ((front ++ [token'] ++ more).map .ok)) k := by
    refine ⟨fun l hl => ?_, token, token', htoken, ?_, hkind, hop⟩
    · have hl' : l < front.length := hlength ▸ hl
      have hitem := hfront.getElem hl'
      rw [List.length_nil, Nat.zero_add] at hitem
      rw [hitem, h.item hl']
    · rw [hlength]
      simpa using hlast.1
  obtain ⟨error', _, hrefused⟩ := h.frame hlexical _ hagrees
  obtain ⟨statement, hreads⟩ | hover := hderives.readsWhole (g := g) (spelled_of_isValid hvalid)
    hderives.ended fun token hmem => (hvalid token hmem).readable
  · exact hreads.not_unread hrefused
  · cases hrefused.unique hover

end Halts

theorem Viable.mem {item : Lexed} (h : Viable items) (hmem : item ∈ items) :
    ∃ token, item = .ok token ∧ IsValid token := by
  obtain ⟨tokens, more, rfl, _, hvalid⟩ := h
  obtain ⟨token, htoken, rfl⟩ := List.mem_map.mp hmem
  exact ⟨token, rfl, hvalid token (List.mem_append_left _ htoken)⟩

theorem not_isReadable_iff {token : Token} :
    ¬ IsReadable token ↔
      token.kind = .number ∧ ∃ why, Decimal.ofText? token.text = .error why := by
  rw [IsReadable, Classical.not_imp]
  refine and_congr_right fun _ => ?_
  cases Decimal.ofText? token.text <;> simp

/-- A lexical error is about a lexical offence. -/
theorem Halts.lexicalOffence (hspelled : ∀ i token, s i = .ok token → token.Spelled)
    (h : Halts refusal s k error front) (hlexical : error.val.isLexical = true) :
    (∃ span, s k = .error span) ∨
      ∃ token, s k = .ok token ∧ ¬ IsReadable token ∧
        Viable (front.map .ok ++ [.ok someNumber]) := by
  have hblames := h.blames
  have hviable : ∀ middle, Fits error.val middle → Viable ((front ++ middle).map .ok) :=
    fun _ hfits => h.viable hspelled hfits
  cases hitem : s k with
  | error span => exact .inl ⟨span, rfl⟩
  | ok token =>
    rw [hitem] at hblames
    refine .inr ⟨token, rfl, ?_⟩
    cases hblames with
    | number hkind hvalue =>
      refine ⟨not_isReadable_iff.mpr ⟨hkind, _, hvalue⟩, ?_⟩
      simpa using hviable [someNumber] (.inr ⟨rfl, rfl⟩)
    | token _ hother =>
      rw [hother] at hlexical
      cases hlexical

/-- There is one first offending item. -/
theorem FirstOffence.unique {l : Nat} {item item' : Lexed} (h : FirstOffence items k item)
    (h' : FirstOffence items l item') : k = l := by
  rcases Nat.lt_trichotomy k l with hlt | heq | hlt
  · exact absurd (h'.viable (k + 1) hlt) h.offends
  · exact heq
  · exact absurd (h.viable (l + 1) hlt) h'.offends

/-- The error of a refused text is about its first offending item. -/
theorem Unread.blames_firstOffence (hended : Ended items) (hspelled : Spelled items)
    (hordered : items.Pairwise Lexed.Before) (h : Unread g (itemAt items) (.refused error)) :
    ∃ k item, FirstOffence items k item ∧ Blames error item ∧
      (error.val.isLexical = true ↔ LexicalOffence items k item) := by
  have hspelled' := Ended.spelled_itemAt hended hspelled
  obtain ⟨k, front, h⟩ := h.halts hended hspelled hordered
  have hk := h.lt_length hended
  have hitem : items[k]? = some (itemAt items k) := by
    rw [itemAt_eq_getElem (List.getElem?_eq_getElem hk), List.getElem?_eq_getElem hk]
  have htake : items.take k = front.map .ok := h.take_eq hk.le
  have hnext : items.take (k + 1) = front.map .ok ++ [itemAt items k] := by
    rw [List.take_add_one, htake, hitem, Option.toList_some]
  have hfront : Viable (items.take k) := by
    rw [htake]
    simpa using h.viable hspelled' (.inl rfl)
  refine ⟨k, itemAt items k, ⟨hitem, fun l hl => ?_, fun hviable => ?_⟩, h.blames, ?_⟩
  · have hpart := hfront.take l
    rwa [List.take_take, Nat.min_eq_left hl] at hpart
  · rw [hnext] at hviable
    obtain ⟨token, htoken, hvalid⟩ := hviable.mem (List.mem_append_right _ List.mem_cons_self)
    cases hlexical : error.val.isLexical with
    | false =>
      rw [htoken] at hviable
      exact h.not_viable hlexical htoken rfl rfl (by simpa using hviable)
    | true =>
      obtain ⟨span, hspan⟩ | ⟨found, hfound, hunreadable, _⟩ := h.lexicalOffence hspelled' hlexical
      · cases htoken.symm.trans hspan
      · obtain rfl := Except.ok.inj (htoken.symm.trans hfound)
        exact hunreadable hvalid.readable
  · constructor
    · intro hlexical
      obtain hspan | ⟨token, htoken, hunreadable, hviable⟩ := h.lexicalOffence hspelled' hlexical
      · exact .inl hspan
      · exact .inr ⟨token, someNumber, htoken, (not_isReadable_iff.mp hunreadable).1, hunreadable, rfl,
          htake ▸ hviable⟩
    · intro hoffence
      by_contra hlexical
      rw [Bool.not_eq_true] at hlexical
      obtain ⟨token, htoken, _⟩ := h.blames.token_of hlexical
      obtain ⟨span, hspan⟩ | ⟨found, number, hfound, hkind, _, hnumber, hviable⟩ := hoffence
      · cases htoken.symm.trans hspan
      · have hop : ∀ token : Token, token.kind = .number → binaryOp? token = none :=
          fun token h => by simp [binaryOp?, h]
        refine h.not_viable hlexical hfound (hnumber.trans hkind.symm)
          ((hop number hnumber).trans (hop found hkind).symm) ?_
        rw [htake] at hviable
        simpa using hviable

/-- A refused text is refused for its first offending item. -/
theorem Unread.firstOffence (hended : Ended items) (hspelled : Spelled items)
    (hordered : items.Pairwise Lexed.Before) (h : Unread g (itemAt items) (.refused error)) :
    ∃ k item, FirstOffence items k item ∧ error.span = placeOf item ∧
      (error.val.isLexical = true ↔ LexicalOffence items k item) := by
  obtain ⟨k, item, hfirst, hblames, hlexical⟩ := h.blames_firstOffence hended hspelled hordered
  exact ⟨k, item, hfirst, hblames.span_eq, hlexical⟩

/-- The error of a text is about its first offending item, and it is lexical if the item is.  No lexical
error that was met on the way is replaced by another one. -/
theorem parse?_error_first {source : List Char} (h : Statement.parse? g source = .error (.refused error)) :
    (∃ k item, FirstOffence (tokenize source) k item ∧ error.span = placeOf item ∧
        (error.val.isLexical = true ↔ LexicalOffence (tokenize source) k item)) ∧
      LexicalReported g source 0 (wholeExpression g) ∧ LexicalReported g source 0 (wholeAssignment g) ∧
      ∀ rule i, (rule, i) ∈ workedOut g source →
        LexicalReported g source i fun steps => bodyOf g steps rule :=
  ⟨(parse?_eq_error_iff.mp h).firstOffence (ended_tokenize source) (spelled_tokenize source)
    (pairwise_tokenize source), lexical_reported g source⟩

/-- In `x = 1e99999999999 $` it is the literal that is reported, and neither the equals sign, at which an
expression ends, nor the character behind the literal. -/
theorem parse?_error_first_of_literal :
    Statement.parse? .default "x = 1e99999999999 $".toList =
        .error (.refused ⟨⟨4, 13, 1⟩, .malformedNumber⟩) ∧
      ∃ k item, FirstOffence (tokenize "x = 1e99999999999 $".toList) k item ∧
        placeOf item = ⟨4, 13, 1⟩ ∧
        LexicalOffence (tokenize "x = 1e99999999999 $".toList) k item := by
  have herror : Statement.parse? .default "x = 1e99999999999 $".toList =
      .error (.refused ⟨⟨4, 13, 1⟩, .malformedNumber⟩) := by cbv
  obtain ⟨⟨k, item, hfirst, hspan, hlexical⟩, _⟩ := parse?_error_first herror
  exact ⟨herror, k, item, hfirst, hspan.symm, hlexical.mp rfl⟩

end Abacus.Reading
