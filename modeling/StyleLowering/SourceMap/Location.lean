/-
# Lines and columns

A place in a text is a number of bytes of its UTF-8 form.  A line ends with a
line feed, a carriage return or the two together, and the next one starts
behind it, unless the text ends there.

Columns count UTF-16 code units: the bytes since the start of the line, less
what the characters begun since then take up in UTF-8 beyond UTF-16.  That says
also how far along a place is that lies inside a character or behind the end of
the text, where there is nothing to take off.
-/

import StyleLowering.Text.Utf16

namespace StyleLowering
namespace SourceMap

/-- A place in a text, counted from zero. -/
structure Location where
  line : Nat
  column : Nat
  deriving DecidableEq, Repr

/-- Whether a line starts between a character and the text behind it. -/
def endsLine (c : Char) (rest : List Char) : Bool :=
  !rest.isEmpty && (c == '\n' || (c == '\r' && rest.head? != some '\n'))

/-- The place behind a character. -/
def Location.step (l : Location) (c : Char) (rest : List Char) : Location :=
  if endsLine c rest then ⟨l.line + 1, 0⟩ else ⟨l.line, l.column + (Text.units16 c).length⟩

/-- How many more bytes than UTF-16 code units a character takes. -/
def surplus (c : Char) : Nat := c.utf8Size - (Text.units16 c).length

/-- The place a number of bytes into a character that starts at `l`.  A column
that would lie in front of the line is counted by its distance from the start. -/
def Location.inside (l : Location) (c : Char) (bytes : Nat) : Location :=
  ⟨l.line, (l.column + bytes - surplus c) + (surplus c - (l.column + bytes))⟩

/-- The place that lies a number of bytes behind `l`, in front of the text. -/
def locateFrom (l : Location) (bytes : Nat) : List Char → Location
  | [] => ⟨l.line, l.column + bytes⟩
  | c :: rest =>
    if bytes = 0 then l
    else if bytes < c.utf8Size then l.inside c bytes
    else locateFrom (l.step c rest) (bytes - c.utf8Size) rest

/-- The place a number of bytes into a text. -/
def locate (text : String) (bytes : Nat) : Location :=
  locateFrom ⟨0, 0⟩ bytes text.toList

example : locate "é\n日😀" 6 = ⟨1, 1⟩ ∧ locate "é\n日😀" 12 = ⟨1, 5⟩ ∧ locate "a\r" 2 = ⟨0, 2⟩ := by
  decide

end SourceMap
end StyleLowering
