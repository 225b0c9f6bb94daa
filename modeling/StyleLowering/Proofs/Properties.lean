/-
# Objects as properties

What an expression is as an object: the keys and values of its own enumerable
properties.  They are what a spread copies and what `Object.assign` reads.

For an object literal they follow from its properties, of which a later one takes the
place of an earlier one with the same key; `__proto__: value` sets the prototype and
is none of them.  For a call of `Object.assign` with a new object they follow from its
sources.  What any other expression comes to, and what keys that have to be computed
come to, is up to the program around: a `Meaning` says it.
-/

import StyleLowering.Syntax.Node
import Mathlib.Logic.Function.Basic

namespace StyleLowering

/-- A key of an object. -/
inductive ObjectKey where
  | text (s : String)
  /-- A symbol, known by its number. -/
  | symbol (n : Nat)
  deriving DecidableEq, Repr

/-- The own enumerable properties of an object, with the values that are read off them. -/
abbrev Properties (V : Type) := ObjectKey → Option V

/-- A property while its object is made: a value, or accessors, which keep the getter if
there has been one. -/
inductive Slot (V : Type) where
  | value (v : V)
  | accessor (getter : Option V)

/-- The properties of an object while it is made. -/
abbrev Slots (V : Type) := ObjectKey → Option (Slot V)

/-- What a program knows about its expressions. -/
structure Meaning (V : Type) where
  /-- A text as a value. -/
  ofText : String → V
  /-- What is read where there is a setter without a getter. -/
  undefined : V
  /-- What an expression comes to, a method, and a getter when it is read. -/
  value : Node → V
  /-- What a key comes to that is neither an identifier nor a string. -/
  key : Node → ObjectKey
  /-- The properties of what an expression comes to. -/
  own : Node → Properties V

/-- The key that sets a prototype. -/
def ObjectKey.proto : ObjectKey := .text "__proto__"

/-- Properties written over other ones. -/
def Properties.over {V : Type} (new old : Properties V) : Properties V := fun k =>
  (new k).or (old k)

/-- Properties as `Object.assign` sets them: one of them sets the prototype instead. -/
def Properties.assignable {V : Type} (P : Properties V) : Properties V := fun k =>
  if k = .proto then none else P k

/-- Whether a property with this name sets the prototype of its object; a name in brackets
does not. -/
def Node.namesPrototype : Node → Bool
  | .word w => w.text == "__proto__"
  | .text s => s.value == "__proto__"
  | _ => false

/-- Whether an expression is the function `Object.assign`. -/
def Node.isObjectAssign : Node → Bool
  | .member _ (.ident .reference x) (.word w) =>
    x.id == ⟨"Object", Context.unresolved⟩ && w.text == "assign"
  | _ => false

/-- Whether an argument is not spread. -/
def Node.isPlainArgument : Node → Bool
  | .argument _ _ => true
  | _ => false

namespace Meaning

variable {V : Type} (M : Meaning V)

/-- What the value of a property comes to. -/
def valueOf : Node → V
  | .text s => M.ofText s.value
  | e => M.value e

/-- The key that a property name spells. -/
def keyOf : Node → ObjectKey
  | .word w => .text w.text
  | .text s => .text s.value
  | n => M.key n

/-- What is read off a property. -/
def readSlot : Slot V → V
  | .value v => v
  | .accessor getter => getter.getD M.undefined

/-- Properties as they are read when the object has been made. -/
def readSlots (P : Slots V) : Properties V := fun k => (P k).map M.readSlot

/-- A setter joins accessors that are there already. -/
def withSetter : Option (Slot V) → Slot V
  | some (.accessor getter) => .accessor getter
  | _ => .accessor none

mutual

/-- An expression as an object. -/
def properties : Node → Properties V
  | .inner .paren _ [e] => properties e
  | .object _ ps => M.readSlots (slotsAll ps fun _ => none)
  | .call h callee (.argument ha (.object ho []) :: sources) =>
    if callee.isObjectAssign && sources.all Node.isPlainArgument then
      assigned sources fun _ => none
    else M.own (.call h callee (.argument ha (.object ho []) :: sources))
  | e => M.own e

/-- Properties with those of sources set over them, one source after the other. -/
def assigned : List Node → Properties V → Properties V
  | [], P => P
  | .argument _ e :: sources, P => assigned sources ((properties e).assignable.over P)
  | _ :: sources, P => assigned sources P

/-- What has been made of an object, with one more property of its literal. -/
def slots : Node → Slots V → Slots V
  | .ident .shorthand x, P =>
    Function.update P (.text x.name) (some (.value (M.value (.ident .shorthand x))))
  | .keyValue _ key v, P =>
    if key.namesPrototype then P
    else Function.update P (M.keyOf key) (some (.value (M.valueOf v)))
  | .inner .getter h (key :: rest), P =>
    Function.update P (M.keyOf key)
      (some (.accessor (some (M.value (.inner .getter h (key :: rest))))))
  | .inner .setter _ (key :: _), P =>
    Function.update P (M.keyOf key) (some (withSetter (P (M.keyOf key))))
  | .inner .method h (key :: rest), P =>
    Function.update P (M.keyOf key) (some (.value (M.value (.inner .method h (key :: rest)))))
  | .inner .spread _ [e], P => fun k => ((properties e k).map .value).or (P k)
  | _, P => P

/-- What has been made of an object, with more properties of its literal. -/
def slotsAll : List Node → Slots V → Slots V
  | [], P => P
  | p :: ps, P => slotsAll ps (slots p P)

end

/-- Properties are evaluated in their order. -/
theorem slotsAll_append (ps qs : List Node) (P : Slots V) :
    M.slotsAll (ps ++ qs) P = M.slotsAll qs (M.slotsAll ps P) := by
  induction ps generalizing P with
  | nil => rw [List.nil_append, slotsAll]
  | cons p ps ih => rw [List.cons_append, slotsAll, slotsAll, ih]

/-- The properties of an object literal are read once all of them are evaluated. -/
theorem properties_object (h : Head) (ps : List Node) :
    M.properties (.object h ps) = M.readSlots (M.slotsAll ps fun _ => none) := by
  rw [properties]

/-- **Options merged when the program runs.**  What `Object.assign` sets on a new object from
two sources: the second one wins, and prototypes are no properties. -/
theorem properties_objectAssign {callee : Node} (hc : callee.isObjectAssign = true)
    (h ho ha₁ ha₂ ha₃ : Head) (e₁ e₂ : Node) :
    M.properties (.call h callee
        [.argument ha₁ (.object ho []), .argument ha₂ e₁, .argument ha₃ e₂]) =
      (M.properties e₂).assignable.over (M.properties e₁).assignable := by
  have hempty : (M.properties e₁).assignable.over (fun _ => none) =
      (M.properties e₁).assignable := by
    funext k
    exact Option.or_none
  rw [properties, hc]
  simp only [List.all_cons, List.all_nil, Node.isPlainArgument, Bool.and_self, if_true]
  rw [assigned, assigned, assigned, hempty]

end Meaning
end StyleLowering
