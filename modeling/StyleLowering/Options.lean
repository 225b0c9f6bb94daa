/-
# Options

The configuration of a run.  It is read from a JSON object whose unknown fields
are skipped and whose known fields may be left out but not repeated, or from a
JSON array that gives the fields by position, from the front and as many as
are wanted.
-/

import StyleLowering.Json.Value

namespace StyleLowering

/-- The configuration of a run. -/
structure Options where
  /-- Module paths that re-export the whole styling runtime, as configured. -/
  instances : List String := []
  /-- Whether css props are compiled; `none` leaves the decision to the file. -/
  cssPropOptimization : Option Bool := none
  /-- Whether source-map comments are added. -/
  sourceMap : Bool := false
  /-- Whether the names of declarations are added as labels. -/
  autoLabel : Bool := false
  deriving DecidableEq, Repr

namespace Options

/-- A JSON Boolean. -/
def bool? : Json.Value → Option Bool
  | .bool b => some b
  | _ => none

/-- A JSON Boolean or `null`, which stands for no choice. -/
def choice? : Json.Value → Option (Option Bool)
  | .null => some none
  | .bool b => some (some b)
  | _ => none

/-- A JSON string. -/
def string? : Json.Value → Option String
  | .string text => text
  | _ => none

/-- A JSON array of strings. -/
def strings? : Json.Value → Option (List String)
  | .array items => items.mapM string?
  | _ => none

/-- A field read in its way, or its default where it is missing. -/
def orElse {α : Type} (default : α) (read : Json.Value → Option α) :
    Option Json.Value → Option α
  | none => some default
  | some v => read v

/-- The options whose fields have the given values, where they are given. -/
def ofValues (instances cssPropOptimization sourceMap autoLabel : Option Json.Value) :
    Option Options := do
  let instances ← orElse [] strings? instances
  let cssPropOptimization ← orElse none choice? cssPropOptimization
  let sourceMap ← orElse false bool? sourceMap
  let autoLabel ← orElse false bool? autoLabel
  return { instances, cssPropOptimization, sourceMap, autoLabel }

/-- The value of a field, `some none` where it is missing and `none` where it is
given more than once. -/
def field? (fields : List (Option String × Json.Value)) (name : String) :
    Option (Option Json.Value) :=
  match fields.filter (fun f => f.1 == some name) with
  | [] => some none
  | [f] => some (some f.2)
  | _ => none

/-- The options that a JSON value describes. -/
def ofJson : Json.Value → Option Options
  | .object fields => do
    guard (fields.all fun f => f.1.isSome)
    let instances ← field? fields "instances"
    let cssPropOptimization ← field? fields "cssPropOptimization"
    let sourceMap ← field? fields "sourceMap"
    let autoLabel ← field? fields "autoLabel"
    ofValues instances cssPropOptimization sourceMap autoLabel
  | .array items =>
    if items.length ≤ 4 then ofValues items[0]? items[1]? items[2]? items[3]? else none
  | _ => none

/-- The options written in a JSON text, `none` if they are not valid. -/
def read? (text : String) : Option Options :=
  (Json.parse text).bind ofJson

/-- The options of a run: invalid ones are as good as none. -/
def effective (config : Option String) : Options :=
  (config.bind read?).getD {}

end Options
end StyleLowering
