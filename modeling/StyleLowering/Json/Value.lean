/-
# JSON values

The tree of a JSON text, read from its tokens with a stack of the arrays and
objects that are still open.  The fields of an object keep their order, and a
name may occur twice: what that means is for the reader of the value to say.
-/

import StyleLowering.Json.Token

namespace StyleLowering
namespace Json

/-- A JSON value.  Strings and names that hold a lone surrogate are `none`. -/
inductive Value where
  | null
  | bool (b : Bool)
  | number (text : String)
  | string (text : Option String)
  | array (items : List Value)
  | object (fields : List (Option String × Value))

/-- An array or object whose end has not been reached, with what it holds so
far, the last part first. -/
inductive Frame where
  | array (done : List Value)
  | object (done : List (Option String × Value)) (key : Option String)

/-- What has to come next. -/
inductive Expect where
  | value
  /-- A value, or the end of an empty array. -/
  | item
  | key (done : List (Option String × Value))
  /-- A name, or the end of an empty object. -/
  | field
  | colon (done : List (Option String × Value)) (key : Option String)
  /-- A separator, a closing bracket or the end of the text. -/
  | after (v : Value)

/-- The value that a single token stands for. -/
def Token.value? : Token → Option Value
  | .null => some .null
  | .bool b => some (.bool b)
  | .number text => some (.number (String.ofList text))
  | .string chars => some (.string (chars.map String.ofList))
  | _ => none

/-- Reads the rest of a value inside the open frames. -/
def readTokens : Expect → List Frame → List Token → Option Value
  | .after v, [], [] => some v
  | _, _, [] => none
  | .after v, .array done :: fs, .comma :: ts => readTokens .value (.array (v :: done) :: fs) ts
  | .after v, .array done :: fs, .closeBracket :: ts =>
    readTokens (.after (.array (v :: done).reverse)) fs ts
  | .after v, .object done key :: fs, .comma :: ts => readTokens (.key ((key, v) :: done)) fs ts
  | .after v, .object done key :: fs, .closeBrace :: ts =>
    readTokens (.after (.object ((key, v) :: done).reverse)) fs ts
  | .after _, _, _ :: _ => none
  | .item, .array done :: fs, .closeBracket :: ts => readTokens (.after (.array done)) fs ts
  | .field, fs, .closeBrace :: ts => readTokens (.after (.object [])) fs ts
  | .field, fs, .string chars :: ts => readTokens (.colon [] (chars.map String.ofList)) fs ts
  | .field, _, _ :: _ => none
  | .key done, fs, .string chars :: ts =>
    readTokens (.colon done (chars.map String.ofList)) fs ts
  | .key _, _, _ :: _ => none
  | .colon done key, fs, .colon :: ts => readTokens .value (.object done key :: fs) ts
  | .colon _ _, _, _ :: _ => none
  | .value, fs, .openBracket :: ts | .item, fs, .openBracket :: ts =>
    readTokens .item (.array [] :: fs) ts
  | .value, fs, .openBrace :: ts | .item, fs, .openBrace :: ts => readTokens .field fs ts
  | .value, fs, t :: ts | .item, fs, t :: ts =>
    match t.value? with
    | some v => readTokens (.after v) fs ts
    | none => none

/-- The value of a JSON text, `none` if it is no JSON. -/
def parse (text : String) : Option Value :=
  (tokens text.toList).bind (readTokens .value [])

end Json
end StyleLowering
