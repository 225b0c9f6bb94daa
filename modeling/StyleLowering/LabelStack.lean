/-
# Names of enclosing declarations

A style is labelled with the name of the declaration it stands in.  On the way
into a tree the names of the declarations are stacked: of variable declarators,
of properties with values, and of function and class declarations.  One that
has no simple name, a destructuring pattern or a computed key, stacks no name
and leaves the name around it in force.
-/

import StyleLowering.Syntax.Node

namespace StyleLowering

/-- The names of the declarations around a place, the innermost one first. -/
structure LabelStack where
  names : List (Option String)
  deriving DecidableEq, Repr

/-- The name that a declarator with the given pattern declares. -/
def Node.patternLabel? : Node → Option String
  | .ident .binding x => some x.name
  | _ => none

/-- The name that a property key spells. -/
def Node.keyLabel? : Node → Option String
  | .word w => some w.text
  | .text s => some s.value
  | _ => none

namespace LabelStack

/-- The stack outside of all declarations. -/
def empty : LabelStack := ⟨[]⟩

/-- The stack inside one more declaration. -/
def push (l : LabelStack) (name : Option String) : LabelStack := ⟨name :: l.names⟩

/-- The stack outside of the innermost declaration. -/
def pop (l : LabelStack) : LabelStack := ⟨l.names.tail⟩

/-- The name of the innermost declaration that has one. -/
def current (l : LabelStack) : Option String := l.names.findSome? id

/-- The stack among the parts of a node. -/
def enter (l : LabelStack) : Kind → List Node → LabelStack
  | .declarator, pattern :: _ => l.push pattern.patternLabel?
  | .functionDeclaration, name :: _ | .classDeclaration, name :: _ => l.push name.patternLabel?
  | .keyValue, key :: _ => l.push key.keyLabel?
  | _, _ => l

/-- Outside of all declarations there is no label. -/
@[simp] theorem current_empty : empty.current = none := rfl

/-- A name that is pushed is the label. -/
@[simp] theorem current_push_some (l : LabelStack) (name : String) :
    (l.push (some name)).current = some name := rfl

/-- A declaration without a simple name leaves the label. -/
@[simp] theorem current_push_none (l : LabelStack) : (l.push none).current = l.current := rfl

/-- What is pushed is taken off again. -/
@[simp] theorem pop_push (l : LabelStack) (name : Option String) : (l.push name).pop = l := rfl

end LabelStack
end StyleLowering
