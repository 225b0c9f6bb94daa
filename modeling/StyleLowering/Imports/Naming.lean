/-
# Names for injected imports

The name of an injected import starts with one underscore, followed by a hint in
which all characters but ASCII letters, digits, `_` and `$` are underscores and
which has lost the underscores at its front.  If that name is occupied, the
numbers from 2 on are tried behind it.

One of the first `n + 1` candidates is free when `n` names are occupied, so the
search looks at no more than these.
-/

namespace StyleLowering
namespace Imports

/-- A character that may stand in a generated name. -/
def isNameChar (c : Char) : Bool :=
  c.isAlphanum || c == '_' || c == '$'

/-- The name made of a hint. -/
def baseName (hint : String) : String :=
  let cs := hint.toList.map fun c => if isNameChar c then c else '_'
  String.ofList ('_' :: cs.dropWhile (· == '_'))

/-- The candidates in the order in which they are tried: the name itself, then
the name with the numbers from 2 on. -/
def candidate (base : String) : Nat → String
  | 0 => base
  | n + 1 => base ++ Nat.repr (n + 2)

/-- The first candidate that is not occupied. -/
def firstFree (base : String) (occupied : List String) : String :=
  (((List.range (occupied.length + 1)).map (candidate base)).find?
    (!occupied.contains ·)).getD base

end Imports
end StyleLowering
