/-! Places in a source text. A place counts what lies before it: bytes of the UTF-8
encoding for the offset, line feeds for the line, characters since the last line feed for
the column. Lines and columns start at one. -/

namespace Stencil.Text

structure Place where
  offset : Nat
  line : Nat
  column : Nat
deriving DecidableEq, Repr, Inhabited

namespace Place

def origin : Place := ⟨0, 1, 1⟩

/-- The place just behind one character. A carriage return is a column like any other. -/
def step (place : Place) (c : Char) : Place :=
  if c = '\n' then ⟨place.offset + c.utf8Size, place.line + 1, 1⟩
  else ⟨place.offset + c.utf8Size, place.line, place.column + 1⟩

/-- The place behind a run of characters. -/
def after (place : Place) (chars : List Char) : Place := chars.foldl step place

@[simp] theorem after_nil (place : Place) : place.after [] = place := rfl

@[simp] theorem after_append (place : Place) (first second : List Char) :
    place.after (first ++ second) = (place.after first).after second := by
  simp [after, List.foldl_append]

end Place

/-- The stretch of source that a piece of a template was written in. The offsets are in
bytes and the end is exclusive; line and column are those of the start. -/
structure Span where
  start : Nat
  stop : Nat
  line : Nat
  column : Nat
deriving DecidableEq, Repr, Inhabited

namespace Span

/-- The span of a piece that no source was written for. -/
def none : Span := ⟨0, 0, 0, 0⟩

def between (first last : Place) : Span := ⟨first.offset, last.offset, first.line, first.column⟩

end Span

end Stencil.Text
