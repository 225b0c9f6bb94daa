/-
# The last pass

After the imports, one pass over the whole tree compiles css props on the way
down and normalises `withComponent` calls on the way up.  A call that is in
error stays as it is and is reported, unless the same report about the same
place has been made before.
-/

import StyleLowering.CssProp
import StyleLowering.WithComponent

namespace StyleLowering

/-- A report about a place of the file. -/
structure Diagnostic where
  message : String
  span : Span
  deriving DecidableEq, Repr

/-- The state of a file and the reports so far, the first one first. -/
structure Walk where
  file : FileState
  diagnostics : List Diagnostic
  deriving Repr

namespace Walk

/-- Computations during the pass. -/
abbrev M := StateM Walk

/-- A computation on the state of the file. -/
def onFile {α : Type} (f : FileM α) : M α := fun w =>
  let (a, file) := f w.file
  (a, { w with file })

/-- Reports with one more at the end, if it is not among them. -/
def addReport (d : Diagnostic) (ds : List Diagnostic) : List Diagnostic :=
  if d ∈ ds then ds else ds ++ [d]

/-- A report is added to those that there are. -/
theorem mem_addReport {d e : Diagnostic} {ds : List Diagnostic} :
    e ∈ addReport d ds ↔ e ∈ ds ∨ e = d := by
  unfold addReport
  split
  · next h => exact ⟨Or.inl, fun he => he.elim id fun he => he ▸ h⟩
  · simp

/-- No report is made twice. -/
theorem nodup_addReport {d : Diagnostic} {ds : List Diagnostic} (h : ds.Nodup) :
    (addReport d ds).Nodup := by
  unfold addReport
  split
  · exact h
  · next hd =>
    rw [List.nodup_append]
    refine ⟨h, by simp, fun a ha b hb hab => ?_⟩
    rw [List.mem_singleton] at hb
    exact hd (hb ▸ hab ▸ ha)

/-- Makes a report. -/
def report (d : Diagnostic) : M Unit :=
  modify fun w => { w with diagnostics := addReport d w.diagnostics }

/-- A node after its parts have been visited; `callee` is what a compiled css prop
calls. -/
def leave (labels : LabelStack) (callee : Option Ident) (k : Kind) (h : Head)
    (parts : List Node) : M Node := do
  match k, callee with
  | .jsxAttribute, some callee =>
    let info := (← get).file.info
    return .inner k h (CssProp.wrapParts info labels.current callee h parts)
  | .call, _ =>
    match ← onFile (WithComponent.normalize labels.current (.inner k h parts)) with
    | .ok (_, n) => return n
    | .error e => do
      report ⟨e.message, h.place⟩
      return .inner k h parts
  | _, _ => return .inner k h parts

mutual

/-- A tree after the pass; `labels` are the names of the declarations around it. -/
def node (labels : LabelStack) : Node → M Node
  | .leaf a => pure (.leaf a)
  | .run ns => .run <$> nodes labels ns
  | .inner k h parts => do
    let callee ← onFile (CssProp.enter k parts)
    let parts ← nodes (labels.enter k parts) parts
    leave labels callee k h parts

/-- Several trees after the pass, visited from the first to the last. -/
def nodes (labels : LabelStack) : List Node → M (List Node)
  | [] => pure []
  | n :: ns => do
    let n ← node labels n
    let ns ← nodes labels ns
    return n :: ns

end

/-- An item after the pass. -/
def item : Item → M Item
  | .importing d => do
    let attributes ← node LabelStack.empty d.attributes
    return .importing { d with attributes }
  | .node n => .node <$> node LabelStack.empty n

/-- Items after the pass. -/
def items : List Item → M (List Item)
  | [] => pure []
  | i :: is => do
    let i ← item i
    let is ← items is
    return i :: is

/-- A program after the pass. -/
def program : Program → M Program
  | .module m => do return .module { m with body := ← items m.body }
  | .script s => do return .script { s with body := ← nodes LabelStack.empty s.body }

end Walk
end StyleLowering
