/-
# Source-map comments

A style comment that carries a source map: a JSON object with one source, its
whole text, and one mapping from the start of the generated text to a place in
the source, written in base 64 behind a fixed beginning.
-/

import StyleLowering.Json.Quote
import StyleLowering.SourceMap.Location
import StyleLowering.SourceMap.Vlq

namespace StyleLowering
namespace SourceMap

/-- How every source-map comment begins. -/
def commentStart : String :=
  "/*# sourceMappingURL=data:application/json;charset=utf-8;base64,"

/-- The mapping of the generated start to a place in the first source. -/
def mappings (l : Location) : List Char :=
  'A' :: 'A' :: vlq l.line ++ vlq l.column

/-- The source map, as JSON without blanks. -/
def json (filename source : String) (l : Location) : List Char :=
  "\x7b\"version\":3,\"sources\":[".toList ++ Json.quote filename.toList ++
    "],\"sourcesContent\":[".toList ++ Json.quote source.toList ++
    "],\"names\":[],\"mappings\":\"".toList ++ mappings l ++ "\"\x7d".toList

/-- The UTF-8 bytes of a text. -/
def utf8 (cs : List Char) : List UInt8 :=
  cs.flatMap String.utf8EncodeChar

/-- The comment that maps to a place of a file. -/
def comment (filename source : String) (l : Location) : String :=
  commentStart ++ String.ofList (base64 (utf8 (json filename source l))) ++ " */"

/-- A text that begins like a source-map comment. -/
def isComment (text : String) : Bool :=
  commentStart.toList.isPrefixOf text.toList

/-- A source-map comment is recognised as one. -/
theorem isComment_comment (filename source : String) (l : Location) :
    isComment (comment filename source l) = true := by
  rw [isComment, comment, String.toList_append, String.toList_append, List.append_assoc,
    List.isPrefixOf_iff_prefix]
  exact List.prefix_append ..

end SourceMap
end StyleLowering
