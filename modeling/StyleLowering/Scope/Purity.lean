/-
# Purity

A cautious test whether an expression can be evaluated early.  Literals,
functions and names that some scope binds are pure, and so are parentheses,
templates, operators, arrays and objects made of pure parts.  `delete`, spreads
and accessors are not, nor is any other expression.  Of a method only the key
counts.
-/

import StyleLowering.Syntax.Node

namespace StyleLowering
namespace Scope

/-- Whether a leaf is pure: all but the names that no scope binds. -/
def isPureLeaf (unresolved : Context) : Leaf → Bool
  | .ident _ x => x.context != unresolved
  | _ => true

/-- Whether a node of a kind is pure as soon as all its parts are. -/
def isTransparent (h : Head) : Kind → Bool
  | .paren | .template | .binary | .array | .argument | .object | .keyValue | .computed => true
  | .unary => h.operator? != some "delete"
  | _ => false

mutual

/-- Whether evaluating a node runs no code of the user and looks at no name that
is unbound, as far as this test can see. -/
def isPure (unresolved : Context) : Node → Bool
  | .leaf a => isPureLeaf unresolved a
  | .run ns => arePure unresolved ns
  | .inner .method _ (key :: _) => isPure unresolved key
  | .inner k h ns =>
    k.isLiteral || k == .arrow || k == .functionExpression ||
      (isTransparent h k && arePure unresolved ns)

/-- Whether all of several nodes are pure. -/
def arePure (unresolved : Context) : List Node → Bool
  | [] => true
  | n :: ns => isPure unresolved n && arePure unresolved ns

end

/-- Several trees are pure if each of them is. -/
theorem arePure_eq_all (u : Context) (ns : List Node) : arePure u ns = ns.all (isPure u) := by
  induction ns with
  | nil => rw [arePure]; rfl
  | cons n ns ih => rw [arePure, ih, List.all_cons]

/-- Whether a node is pure is read off its parts, of a method off the first one only. -/
theorem isPure_inner (u : Context) {k : Kind} {ns : List Node} (h : Head)
    (hm : ∀ key rest, ¬(k = .method ∧ ns = key :: rest)) :
    isPure u (.inner k h ns) = (k.isLiteral || k == .arrow || k == .functionExpression ||
      (isTransparent h k && arePure u ns)) := by
  rw [isPure]
  exact fun key rest hk hns => hm key rest ⟨hk, hns⟩

end Scope
end StyleLowering
