/-
# Lines and columns counted from the text in front of a place

A place between two characters of a text: its line is the number of lines that
end in front of it, its column the number of UTF-16 code units of the last line
there (`SourceMap.locate_append`).  Whether a line ends with a character depends
on what stands behind it, also behind the place.
-/

import StyleLowering.SourceMap.Comment

namespace StyleLowering
namespace SourceMap

/-- How many lines end inside a text that stands in front of another one. -/
def lineEnds : List Char → List Char → Nat
  | [], _ => 0
  | c :: cs, after => (if endsLine c (cs ++ after) then 1 else 0) + lineEnds cs after

/-- The longest end of a text in which no line ends, in front of another text. -/
def lastLine : List Char → List Char → List Char
  | [], _ => []
  | c :: cs, after => if lineEnds (c :: cs) after = 0 then c :: cs else lastLine cs after

/-- Where no line ends, everything is on the last line. -/
theorem lastLine_of_lineEnds_eq_zero {cs after : List Char} (h : lineEnds cs after = 0) :
    lastLine cs after = cs := by
  cases cs with
  | nil => rfl
  | cons c cs => exact if_pos h

/-- At the start of a text, the location is the one of the start. -/
theorem locateFrom_zero (l : Location) (cs : List Char) : locateFrom l 0 cs = l := by
  cases cs with
  | nil => rfl
  | cons c cs => exact if_pos rfl

/-- The location behind a character is counted on from there. -/
theorem locateFrom_cons (l : Location) (c : Char) (bytes : Nat) (cs : List Char) :
    locateFrom l (c.utf8Size + bytes) (c :: cs) = locateFrom (l.step c cs) bytes cs := by
  have hpos := c.utf8Size_pos
  rw [locateFrom, if_neg (by omega), if_neg (by omega), Nat.add_sub_cancel_left]

/-- The bytes of a text are those of its first character and those of the others. -/
theorem length_utf8_cons (c : Char) (cs : List Char) :
    (utf8 (c :: cs)).length = c.utf8Size + (utf8 cs).length := by
  rw [utf8, List.flatMap_cons, List.length_append, String.length_utf8EncodeChar]
  rfl

/-- The first line goes on from the column where the text starts. -/
theorem locateFrom_append (l : Location) (before after : List Char) :
    locateFrom l (utf8 before).length (before ++ after) =
      if lineEnds before after = 0 then ⟨l.line, l.column + Text.length16 before⟩
      else ⟨l.line + lineEnds before after, Text.length16 (lastLine before after)⟩ := by
  induction before generalizing l with
  | nil => exact locateFrom_zero l after
  | cons c cs ih =>
    rw [length_utf8_cons, List.cons_append, locateFrom_cons, ih, Location.step, lastLine]
    by_cases hend : endsLine c (cs ++ after) = true
    · have hends : lineEnds (c :: cs) after = 1 + lineEnds cs after := by
        rw [lineEnds, if_pos hend]
      rw [if_pos hend, hends, if_neg (c := 1 + lineEnds cs after = 0) (by omega),
        if_neg (c := 1 + lineEnds cs after = 0) (by omega)]
      split
      · next hzero =>
        rw [lastLine_of_lineEnds_eq_zero hzero, hzero, Nat.zero_add]
      · rw [Nat.add_assoc]
    · have hends : lineEnds (c :: cs) after = lineEnds cs after := by
        rw [lineEnds, if_neg hend, Nat.zero_add]
      rw [if_neg hend, hends]
      split
      · rw [Nat.add_assoc, Text.length16, Text.length16, List.flatMap_cons, List.length_append]
      · rfl

/-- **Lines and columns.**  The place behind some characters of a text. -/
theorem locate_append (before after : List Char) :
    locate (String.ofList (before ++ after)) (utf8 before).length =
      ⟨lineEnds before after, Text.length16 (lastLine before after)⟩ := by
  rw [locate, String.toList_ofList, locateFrom_append]
  split
  · next hzero => rw [lastLine_of_lineEnds_eq_zero hzero, hzero, Nat.zero_add]
  · rw [Nat.zero_add]

end SourceMap
end StyleLowering
