/-
# What injected imports are written as

An injected import is one export of a source under a name, and a program says so in one of two
ways.  A module has the declaration `import x from "source";` for the default export, and
`import { name as x } from "source";` for any other one (`Injection.IsImport`).  A script has
the statement `var x = require("source").name;` (`Injection.IsRequire`).  Both are given here as
the trees that they are, down to the last leaf.
-/

import StyleLowering.Imports.Flush
import Mathlib.Data.List.Forall2

namespace StyleLowering
namespace Injection

/-- **A declaration that imports one export.**  It has one specifier and no attributes, it is
not for types only, and nothing of it has a place in the source. -/
inductive IsImport : Injection → ImportDecl → Prop where
  /-- `import x from "source";` -/
  | default {source : String} {x : Ident} :
      IsImport ⟨source, .default, x⟩
        ⟨Span.dummy, [.default Span.dummy x], ⟨Span.dummy, source, none⟩, .absent, false,
          "evaluation"⟩
  /-- `import { name as x } from "source";` -/
  | named {source name : String} {x : Ident} :
      IsImport ⟨source, .named name, x⟩
        ⟨Span.dummy,
          [.named Span.dummy x (some (.ident ⟨Span.dummy, Context.empty, name, false⟩)) false],
          ⟨Span.dummy, source, none⟩, .absent, false, "evaluation"⟩

/-- The tree of `var x = require("source").name;`, where `require` is bound by no scope. -/
def requireTree (source name : String) (x : Ident) : Node :=
  .inner .variableDeclaration
    ⟨some Span.dummy, some Context.empty, [("declare", .flag false), ("kind", .text "var")]⟩
    [.run [.inner .declarator ⟨some Span.dummy, none, [("definite", .flag false)]⟩
      [.ident .binding x,
        .member ⟨some Span.dummy, none, []⟩
          (.call ⟨some Span.dummy, some Context.empty, []⟩
            (.ident .reference ⟨Span.dummy, Context.unresolved, "require", false⟩)
            [.argument ⟨none, none, []⟩ (.text ⟨Span.dummy, source, none⟩)])
          (.word ⟨Span.dummy, name⟩)]]]

/-- **A statement that requires one export.**  The default export is the one named `default`. -/
inductive IsRequire : Injection → Node → Prop where
  /-- `var x = require("source").default;` -/
  | default {source : String} {x : Ident} :
      IsRequire ⟨source, .default, x⟩ (requireTree source "default" x)
  /-- `var x = require("source").name;` -/
  | named {source name : String} {x : Ident} :
      IsRequire ⟨source, .named name, x⟩ (requireTree source name x)

/-- What an injected import is written as in a program. -/
def IsWritten (i : Injection) : Program → Item → Prop
  | .module _, item => ∃ d, i.IsImport d ∧ item = .importing d
  | .script _, item => ∃ n, i.IsRequire n ∧ item = .node n

variable {i : Injection} {is : List Injection}

/-- In a module, an injected import is written as the declaration that imports it. -/
theorem isImport_iff {d : ImportDecl} : i.IsImport d ↔ d = i.toImport := by
  obtain ⟨source, exported, x⟩ := i
  constructor
  · rintro (_ | _) <;> rfl
  · rintro rfl
    cases exported with
    | default => exact .default
    | named name => exact .named

/-- In a script, an injected import is written as the statement that requires it. -/
theorem isRequire_iff {n : Node} : i.IsRequire n ↔ n = i.toRequire := by
  obtain ⟨source, exported, x⟩ := i
  constructor
  · rintro (_ | _) <;> rfl
  · rintro rfl
    cases exported with
    | default => exact .default
    | named name => exact .named

/-- Where a relation is a function, related lists are images. -/
theorem forall₂_iff_eq_map {α β : Type} {R : α → β → Prop} {f : α → β}
    (h : ∀ a b, R a b ↔ b = f a) {as : List α} {bs : List β} :
    List.Forall₂ R as bs ↔ bs = as.map f := by
  induction as generalizing bs with
  | nil => exact List.forall₂_nil_left_iff
  | cons a as ih =>
    rw [List.forall₂_cons_left_iff, List.map_cons]
    constructor
    · rintro ⟨b, bs', hab, hrest, rfl⟩
      rw [(h a b).1 hab, ih.1 hrest]
    · rintro rfl
      exact ⟨f a, as.map f, (h a _).2 rfl, ih.2 rfl, rfl⟩

/-- Injected imports are declared one after the other. -/
theorem forall₂_isImport {ds : List ImportDecl} :
    List.Forall₂ IsImport is ds ↔ ds = is.map (·.toImport) :=
  forall₂_iff_eq_map (f := toImport) fun _ _ => isImport_iff

/-- Injected imports are required one after the other. -/
theorem forall₂_isRequire {ns : List Node} :
    List.Forall₂ IsRequire is ns ↔ ns = is.map (·.toRequire) :=
  forall₂_iff_eq_map (f := toRequire) fun _ _ => isRequire_iff

end Injection
end StyleLowering
