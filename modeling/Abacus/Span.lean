/-!
# Places in a source text

A span is a stretch of a source text, measured in bytes of its UTF-8 form, with the line on which it
starts.  A span holds no text of its own: `Span.fragment` cuts it out of the source.
-/

namespace Abacus

/-- The number of bytes of a text in UTF-8. -/
def byteSize : List Char → Nat
  | [] => 0
  | c :: rest => c.utf8Size + byteSize rest

@[simp] theorem byteSize_append (xs ys : List Char) :
    byteSize (xs ++ ys) = byteSize xs + byteSize ys := by
  induction xs with
  | nil => simp [byteSize]
  | cons c xs ih => simp [byteSize, ih, Nat.add_assoc]

/-- The characters that lie within the first `bytes` bytes. -/
def takeBytes : Nat → List Char → List Char
  | _, [] => []
  | bytes, c :: rest =>
    if c.utf8Size ≤ bytes then c :: takeBytes (bytes - c.utf8Size) rest else []

/-- The characters from byte `bytes` on. -/
def dropBytes : Nat → List Char → List Char
  | _, [] => []
  | bytes, c :: rest => if bytes = 0 then c :: rest else dropBytes (bytes - c.utf8Size) rest

/-- The number of line ends in a text. -/
def newlines (cs : List Char) : Nat := cs.count '\n'

@[simp] theorem newlines_append (xs ys : List Char) :
    newlines (xs ++ ys) = newlines xs + newlines ys := List.count_append

/-- A stretch of a source text. -/
structure Span where
  /-- The bytes before it. -/
  offset : Nat
  /-- The bytes in it. -/
  size : Nat
  /-- The line of its start; the first line is 1. -/
  line : Nat
deriving DecidableEq

namespace Span

/-- The byte after the last one of the span. -/
def stop (s : Span) : Nat := s.offset + s.size

/-- The stretch from the start of `first` to the end of `last`. -/
def unite (first last : Span) : Span :=
  ⟨first.offset, last.stop - first.offset, first.line⟩

/-- The part of the source that the span covers. -/
def fragment (source : List Char) (s : Span) : List Char :=
  takeBytes s.size (dropBytes s.offset source)

end Span

/-- A value with the place in the source that it comes from. -/
structure Located (α : Type) where
  /-- Where the value stands. -/
  span : Span
  /-- The value. -/
  val : α
deriving DecidableEq

/-- The whole of a source text as a span. -/
def Span.whole (source : List Char) : Span := ⟨0, byteSize source, 1⟩

end Abacus
