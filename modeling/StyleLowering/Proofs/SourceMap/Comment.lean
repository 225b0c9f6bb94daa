/-
# Source-map comments read back

A source map is read from the digits of a comment in four steps: base 64, UTF-8,
JSON and the mappings, whose lines end with `;` and whose segments are separated
by `,`.  A segment has one, four or five numbers, each of them counted from the
one before it: the column of the generated text, and with four or five numbers a
source, a line and a column in it, and a name.

A comment for a place of a file is read as one source, the file, and one mapping
of the generated start to the place; the digits cannot close the comment early
(`FileInfo.comment_decodes`).
-/

import StyleLowering.File.Info
import StyleLowering.Proofs.Json.Token
import StyleLowering.Proofs.SourceMap.Location
import StyleLowering.Proofs.SourceMap.Vlq

namespace StyleLowering
namespace SourceMap

/-- Where a mapping leads: a place in a source, known by its number, and the
number of a name. -/
structure Origin where
  source : Nat
  place : Location
  name : Option Nat
  deriving DecidableEq, Repr

/-- What is known about a place of the generated text. -/
structure Mapping where
  generated : Location
  origin : Option Origin
  deriving DecidableEq, Repr

/-- A source map. -/
structure Decoded where
  sources : List String
  /-- The texts of the sources, where they are given. -/
  contents : List (Option String)
  names : List String
  mappings : List Mapping
  deriving DecidableEq, Repr

/-- What the numbers of the next segment are counted from. -/
structure Cursor where
  column : Nat
  source : Nat
  place : Location
  name : Nat

namespace Cursor

/-- In front of the first segment. -/
def start : Cursor := ⟨0, 0, ⟨0, 0⟩, 0⟩

/-- A number moved on; it cannot become negative. -/
def move? (n : Nat) (difference : Int) : Option Nat := (n + difference).toNat?

/-- The mapping that the numbers of a segment describe, on a line of the generated text.
Sources and names are known by numbers below `sources` and `names`. -/
def segment? (sources names line : Nat) (c : Cursor) : List Int → Option (Mapping × Cursor)
  | [dcolumn] => do
    let column ← move? c.column dcolumn
    return (⟨⟨line, column⟩, none⟩, { c with column })
  | dcolumn :: dsource :: dline :: dplace :: dname => do
    let column ← move? c.column dcolumn
    let source ← (move? c.source dsource).filter (· < sources)
    let place : Location := ⟨← move? c.place.line dline, ← move? c.place.column dplace⟩
    match dname with
    | [] => return (⟨⟨line, column⟩, some ⟨source, place, none⟩⟩, ⟨column, source, place, c.name⟩)
    | [dname] => do
      let name ← (move? c.name dname).filter (· < names)
      return (⟨⟨line, column⟩, some ⟨source, place, some name⟩⟩, ⟨column, source, place, name⟩)
    | _ => none
  | _ => none

/-- The mappings of the segments of a line; empty segments are skipped. -/
def segments? (sources names line : Nat) (c : Cursor) :
    List (List Char) → Option (List Mapping × Cursor)
  | [] => some ([], c)
  | text :: rest =>
    if text = [] then segments? sources names line c rest
    else do
      let (m, c) ← segment? sources names line c (← numbers? text)
      let (ms, c) ← segments? sources names line c rest
      return (m :: ms, c)

/-- The mappings of lines, the first of which has the number `line`. -/
def lines? (sources names line : Nat) (c : Cursor) : List (List Char) → Option (List Mapping)
  | [] => some []
  | text :: rest => do
    let (ms, c) ← segments? sources names line { c with column := 0 } (text.splitOn ',')
    return ms ++ (← lines? sources names (line + 1) c rest)

end Cursor

/-- The mappings that a text stands for. -/
def mappings? (sources names : Nat) (text : List Char) : Option (List Mapping) :=
  Cursor.start.lines? sources names 0 (text.splitOn ';')

/-- A JSON array, each item read in its way. -/
def items? {α : Type} (read : Json.Value → Option α) : Json.Value → Option (List α)
  | .array items => items.mapM read
  | _ => none

/-- The text of a source, or `null` where it is not given. -/
def content? : Json.Value → Option (Option String)
  | .null => some none
  | v => (Options.string? v).map some

/-- Nothing but the number that says how a source map is written. -/
def version3? : Json.Value → Option Unit
  | .number text => if text = "3" then some () else none
  | _ => none

/-- The source map that a JSON value describes.  The version, the sources and the
mappings have to be there; unknown fields are skipped. -/
def ofJson : Json.Value → Option Decoded
  | .object fields => do
    version3? (← (← Options.field? fields "version"))
    let sources ← Options.strings? (← (← Options.field? fields "sources"))
    let contents ← Options.orElse [] (items? content?) (← Options.field? fields "sourcesContent")
    let names ← Options.orElse [] Options.strings? (← Options.field? fields "names")
    let text ← Options.string? (← (← Options.field? fields "mappings"))
    let mappings ← mappings? sources.length names.length text.toList
    return { sources, contents, names, mappings }
  | _ => none

/-- The source map behind the digits of a comment. -/
def decode? (digits : List Char) : Option Decoded := do
  let bytes ← decode64? digits
  let chars ← bytes.toByteArray.utf8Decode?
  ofJson (← Json.parse (String.ofList chars.toList))

/-- A base 64 digit stands for itself in a string. -/
theorem escape_digit64 {n : Nat} (h : n < 64) : Json.escape (digit64 n) = [digit64 n] := by
  have hall : ∀ n < 64, Json.escape (digit64 n) = [digit64 n] := by decide
  exact hall n h

/-- The one mapping says four numbers: column, source, line and column. -/
theorem mappings_eq (l : Location) :
    mappings l = vlq 0 ++ (vlq 0 ++ (vlq l.line ++ vlq l.column)) := by
  rw [vlq_zero, mappings]
  rfl

/-- The mappings are written in base 64 digits. -/
theorem eq_digit64_of_mem_mappings {l : Location} {c : Char} (h : c ∈ mappings l) :
    ∃ n < 64, c = digit64 n := by
  simp only [mappings_eq, List.mem_append] at h
  obtain h | h | h | h := h
  all_goals exact eq_digit64_of_mem_vlq h

/-- Nothing in the mappings has to be escaped. -/
theorem quote_mappings (l : Location) :
    Json.quote (mappings l) = '"' :: (mappings l ++ ['"']) := by
  refine Json.quote_eq_of_forall fun c hc => ?_
  obtain ⟨n, hn, rfl⟩ := eq_digit64_of_mem_mappings hc
  exact escape_digit64 hn

/-- To move by zero is to stay. -/
theorem Cursor.move?_zero (n : Nat) : move? 0 n = some n := by
  rw [move?, Int.natCast_zero, Int.zero_add]
  rfl

/-- The first segment, when it leads to a place of the first source. -/
theorem Cursor.segment?_start {sources : Nat} (h : 0 < sources) (names : Nat) (l : Location) :
    segment? sources names 0 start [0, 0, (l.line : Int), (l.column : Int)] =
      some (⟨⟨0, 0⟩, some ⟨0, l, none⟩⟩, ⟨0, 0, l, 0⟩) := by
  have hzero : move? 0 0 = some 0 := move?_zero 0
  have hsource : (some 0).filter (fun n => decide (n < sources)) = some 0 := by
    rw [Option.filter_some, if_pos (decide_eq_true h)]
  simp only [segment?, start, hzero, hsource, move?_zero, Option.bind_eq_bind, Option.bind_some]
  rfl

/-- One segment is read as one mapping. -/
theorem Cursor.segments?_singleton {sources names line : Nat} {c c' : Cursor} {text : List Char}
    {ns : List Int} {m : Mapping} (hne : text ≠ []) (hns : numbers? text = some ns)
    (hm : segment? sources names line c ns = some (m, c')) :
    segments? sources names line c [text] = some ([m], c') := by
  rw [segments?, if_neg hne]
  simp only [hns, hm, segments?, Option.bind_eq_bind, Option.bind_some, Option.pure_def]

/-- **The mappings are read back** as the one mapping of the start to the location. -/
theorem mappings?_mappings {sources : Nat} (h : 0 < sources) (names : Nat) (l : Location) :
    mappings? sources names (mappings l) = some [⟨⟨0, 0⟩, some ⟨0, l, none⟩⟩] := by
  have hnot : ∀ {c : Char}, sextet? c = none → c ∉ mappings l := by
    intro c hc hmem
    obtain ⟨n, hn, rfl⟩ := eq_digit64_of_mem_mappings hmem
    exact digit64_ne hn hc rfl
  have hnumbers : numbers? (mappings l) = some [0, 0, (l.line : Int), (l.column : Int)] := by
    rw [mappings_eq, numbers?_vlq_append, numbers?_vlq_append, numbers?_vlq_append,
      ← List.append_nil (vlq l.column), numbers?_vlq_append]
    rfl
  have hne : mappings l ≠ [] := by simp [mappings]
  have hsegments := Cursor.segments?_singleton hne hnumbers (Cursor.segment?_start h names l)
  have hstart : { Cursor.start with column := 0 } = Cursor.start := rfl
  rw [mappings?, List.splitOn_eq_singleton (hnot rfl), Cursor.lines?,
    List.splitOn_eq_singleton (hnot rfl), hstart, hsegments]
  rfl

/-- The fixed parts of a source map, as tokens. -/
theorem json_keys :
    "\x7b\"version\":3,\"sources\":[".toList =
        '\x7b' :: (Json.quote "version".toList ++ ':' :: '3' :: ',' ::
          (Json.quote "sources".toList ++ [':', '['])) ∧
      "],\"sourcesContent\":[".toList =
        ']' :: ',' :: (Json.quote "sourcesContent".toList ++ [':', '[']) ∧
      "],\"names\":[],\"mappings\":\"".toList =
        ']' :: ',' :: (Json.quote "names".toList ++ ':' :: '[' :: ']' :: ',' ::
          (Json.quote "mappings".toList ++ [':', '"'])) := by
  decide

/-- The text of the source map, member by member. -/
theorem json_eq (filename source : String) (l : Location) :
    json filename source l =
      '\x7b' :: (Json.quote "version".toList ++ ':' :: '3' :: ',' ::
      (Json.quote "sources".toList ++ ':' :: '[' :: (Json.quote filename.toList ++ ']' :: ',' ::
      (Json.quote "sourcesContent".toList ++ ':' :: '[' :: (Json.quote source.toList ++
      ']' :: ',' :: (Json.quote "names".toList ++ ':' :: '[' :: ']' :: ',' ::
      (Json.quote "mappings".toList ++ ':' :: (Json.quote (mappings l) ++ ['\x7d'])))))))) := by
  obtain ⟨hopen, hcontent, hmappings⟩ := json_keys
  have hclose : "\"\x7d".toList = ['"', '\x7d'] := rfl
  unfold json
  rw [hopen, hcontent, hmappings, hclose, quote_mappings]
  simp only [List.append_assoc, List.cons_append, List.nil_append]

/-- The tokens of the JSON text of a source map. -/
theorem tokens_json (filename source : String) (l : Location) :
    Json.tokens (json filename source l) =
      some [.openBrace, .string (some "version".toList), .colon, .number ['3'], .comma,
        .string (some "sources".toList), .colon, .openBracket, .string (some filename.toList),
        .closeBracket, .comma, .string (some "sourcesContent".toList), .colon, .openBracket,
        .string (some source.toList), .closeBracket, .comma, .string (some "names".toList),
        .colon, .openBracket, .closeBracket, .comma, .string (some "mappings".toList), .colon,
        .string (some (mappings l)), .closeBrace] := by
  have hthree : ∀ rest, Json.tokens ('3' :: ',' :: rest) =
      (Json.tokens (',' :: rest)).map (.number ['3'] :: ·) :=
    fun rest => @Json.tokens_number '3' [] (',' :: rest) rfl rfl
  rw [json_eq]
  simp only [Json.tokens, Json.tokens_quote, hthree, Option.map_some]

/-- **The source map is read back from its text.** -/
theorem parse_json (filename source : String) (l : Location) :
    (Json.parse (String.ofList (json filename source l))).bind ofJson =
      some { sources := [filename], contents := [some source], names := [],
             mappings := [⟨⟨0, 0⟩, some ⟨0, l, none⟩⟩] } := by
  have hvalue : Json.parse (String.ofList (json filename source l)) = some (.object [
      (some "version", .number "3"),
      (some "sources", .array [.string (some filename)]),
      (some "sourcesContent", .array [.string (some source)]),
      (some "names", .array []),
      (some "mappings", .string (some (String.ofList (mappings l))))]) := by
    rw [Json.parse, String.toList_ofList, tokens_json, Option.bind_some]
    simp only [Json.readTokens, Json.Token.value?, Option.map_some, String.ofList_toList,
      List.reverse_cons, List.reverse_nil, List.nil_append, List.cons_append]
  have hmappings := mappings?_mappings Nat.one_pos 0 l
  rw [hvalue, Option.bind_some]
  simp [ofJson, Options.field?, version3?, Options.strings?, Options.string?, Options.orElse,
    items?, content?, hmappings]

/-- The source map is read back from the digits of its bytes. -/
theorem decode?_json (filename source : String) (l : Location) :
    decode? (base64 (utf8 (json filename source l))) =
      some { sources := [filename], contents := [some source], names := [],
             mappings := [⟨⟨0, 0⟩, some ⟨0, l, none⟩⟩] } := by
  have hbytes : decode64? (base64 (utf8 (json filename source l))) =
      some (utf8 (json filename source l)) := decode64?_eq_some_iff.2 rfl
  have hchars : (utf8 (json filename source l)).toByteArray.utf8Decode? =
      some (json filename source l).toArray := List.utf8Decode?_utf8Encode
  simp only [decode?, hbytes, hchars, Option.bind_eq_bind, Option.bind_some]
  exact parse_json filename source l

/-- No base 64 digit is a star. -/
theorem star_notMem_base64 (bytes : List UInt8) : '*' ∉ base64 bytes := by
  intro h
  obtain heq | ⟨n, hn, heq⟩ := eq_digit64_of_mem_base64 h
  · exact absurd heq (by decide)
  · exact digit64_ne hn rfl heq.symm

/-- A text without an asterisk, with the end of a comment behind it, does not end a
comment before that. -/
theorem eq_nil_of_append_close {middle before after : List Char} (h : '*' ∉ middle)
    (heq : middle ++ ['*', '/'] = before ++ '*' :: '/' :: after) : after = [] := by
  obtain ⟨gap, rfl, hclose⟩ | ⟨gap, rfl, hclose⟩ := List.append_eq_append_iff.1 heq
  · have hlength := congrArg List.length hclose
    simp only [List.length_append, List.length_cons, List.length_nil] at hlength
    exact List.length_eq_zero_iff.1 (by omega)
  · cases gap with
    | nil => exact (List.cons.inj (List.cons.inj hclose).2).2
    | cons c gap =>
      obtain rfl := (List.cons.inj hclose).1
      exact absurd (List.mem_append_right before List.mem_cons_self) h

/-- The comment is its opener, the digits, a space and its end. -/
theorem toList_comment (filename source : String) (l : Location) :
    (comment filename source l).toList =
      commentStart.toList ++ base64 (utf8 (json filename source l)) ++ " */".toList := by
  simp only [comment, String.toList_append, String.toList_ofList]

/-- The comment ends nowhere but at its end. -/
theorem eq_nil_of_toList_comment_eq {filename source : String} {l : Location}
    {before after : List Char}
    (heq : (comment filename source l).toList = before ++ '*' :: '/' :: after) : after = [] := by
  obtain ⟨rest, hrest, hopen⟩ : ∃ rest, '*' ∉ '#' :: rest ∧
      commentStart.toList = '/' :: '*' :: '#' :: rest :=
    ⟨" sourceMappingURL=data:application/json;charset=utf-8;base64,".toList, by decide, by decide⟩
  have hclose : " */".toList = [' '] ++ ['*', '/'] := rfl
  rw [toList_comment, hopen, hclose, ← List.append_assoc] at heq
  -- The asterisk that opens the comment is not followed by a slash, and there is no
  -- other one in front of the end.
  match before with
  | [] => cases heq
  | [_] => cases heq
  | _ :: _ :: before =>
    refine eq_nil_of_append_close ?_ (List.cons.inj (List.cons.inj heq).2).2
    simp only [List.append_eq, List.mem_append, not_or]
    exact ⟨⟨hrest, star_notMem_base64 _⟩, by decide⟩

end SourceMap

namespace FileInfo

open SourceMap

/-- **A source-map comment is read as what it was written from.**  It is a fixed beginning,
digits and an end, and it is closed nowhere else.  The digits stand for a source map with one
source, the file with its text, and one mapping, of the generated start to the place where the
stretch starts: the lines that end in front of it are counted, and the code units of the last
line. -/
theorem comment_decodes {f : FileInfo} {span : Span} {filename source : String}
    (hname : f.filename = some filename) (hsource : f.source = some source)
    (hspan : span.isDummy = false) :
    ∃ (text : String) (digits : List Char),
      f.comment? span = some text ∧
      text.toList = commentStart.toList ++ digits ++ " */".toList ∧
      isComment text = true ∧
      (∀ before after, text.toList = before ++ '*' :: '/' :: after → after = []) ∧
      decode? digits = some
        { sources := [filename], contents := [some source], names := [],
          mappings := [⟨⟨0, 0⟩, some ⟨0, locate source (span.start - 1), none⟩⟩] } ∧
      ∀ before after, source = String.ofList (before ++ after) →
        (utf8 before).length = span.start - 1 →
        locate source (span.start - 1) =
          ⟨lineEnds before after, Text.length16 (lastLine before after)⟩ := by
  have hcomment : f.comment? span =
      some (comment filename source (locate source (span.start - 1))) := by
    rw [comment?, if_neg (by rw [hspan]; exact Bool.false_ne_true), hname, hsource]
    rfl
  refine ⟨_, _, hcomment, toList_comment .., isComment_comment .., ?_, decode?_json .., ?_⟩
  · exact fun before after heq => eq_nil_of_toList_comment_eq heq
  · rintro before after rfl hbytes
    rw [← hbytes, locate_append]

/-- A location on the second line behind a line feed with a carriage return, in a file whose name
has a quotation mark. -/
theorem comment_decodes_second_line :
    ∃ (text : String) (digits : List Char),
      comment? ⟨some "a\"é.js", "/", some "é\r\n  css", [], false, true, false⟩ ⟨7, 10⟩ =
        some text ∧
      text.toList = commentStart.toList ++ digits ++ " */".toList ∧
      decode? digits = some
        { sources := ["a\"é.js"], contents := [some "é\r\n  css"], names := [],
          mappings := [⟨⟨0, 0⟩, some ⟨0, ⟨1, 2⟩, none⟩⟩] } := by
  have hplace : locate "é\r\n  css" (7 - 1) = ⟨1, 2⟩ := by decide
  obtain ⟨text, digits, htext, hform, -, -, hdecode, -⟩ :=
    @comment_decodes ⟨some "a\"é.js", "/", some "é\r\n  css", [], false, true, false⟩ ⟨7, 10⟩ _ _
      rfl rfl rfl
  rw [hplace] at hdecode
  exact ⟨text, digits, htext, hform, hdecode⟩

end FileInfo
end StyleLowering
