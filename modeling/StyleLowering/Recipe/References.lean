/-
# References of an import

For every imported name of an import declaration, the binding it has in the
file and the places where that binding is used.  Names keep the order of the
specifiers; of two specifiers for one name the later one counts, in the place
of the earlier one.
-/

import StyleLowering.Scope.Index

namespace StyleLowering

/-- The binding of an imported name, and where it is used. -/
structure References where
  binding : Id
  sites : List Span
  deriving DecidableEq, Repr

/-- Whether the binding is used anywhere. -/
def References.isUsed (r : References) : Bool := !r.sites.isEmpty

/-- References by imported name. -/
abbrev ReferenceMap := List (String × References)

namespace ReferenceMap

/-- The map in which a name has the given references. -/
def insert (name : String) (r : References) : ReferenceMap → ReferenceMap
  | [] => [(name, r)]
  | e :: es => if e.1 = name then (name, r) :: es else e :: insert name r es

/-- What has been inserted is found. -/
theorem lookup_insert_self (name : String) (r : References) (m : ReferenceMap) :
    (insert name r m).lookup name = some r := by
  induction m with
  | nil => simp [insert]
  | cons e es ih =>
    rw [insert]
    split
    · simp
    · next h => rw [List.lookup_cons, beq_eq_false_iff_ne.2 (Ne.symm h)]; exact ih

/-- Other names are found as before. -/
theorem lookup_insert_of_ne {name other : String} (h : other ≠ name) (r : References)
    (m : ReferenceMap) : (insert name r m).lookup other = m.lookup other := by
  induction m with
  | nil => simp [insert, List.lookup_cons, beq_eq_false_iff_ne.2 h]
  | cons e es ih =>
    rw [insert]
    split
    · next he =>
      subst he
      rw [List.lookup_cons, List.lookup_cons, beq_eq_false_iff_ne.2 h]
    · rw [List.lookup_cons, List.lookup_cons, ih]

/-- A name that is new goes to the end, and one that is not keeps its place. -/
theorem map_fst_insert (name : String) (r : References) (m : ReferenceMap) :
    (insert name r m).map Prod.fst =
      if name ∈ m.map Prod.fst then m.map Prod.fst else m.map Prod.fst ++ [name] := by
  induction m with
  | nil => simp [insert]
  | cons e es ih =>
    rw [insert]
    split
    · next h => simp [h]
    · next h =>
      rw [List.map_cons, ih]
      by_cases hm : name ∈ es.map Prod.fst
      · simp only [List.map_cons, List.mem_cons, hm, or_true, if_true]
      · simp only [List.map_cons, List.mem_cons, hm, Ne.symm h, or_self, if_false,
          List.cons_append]

/-- The binding of a name, if it is used anywhere. -/
def used? (m : ReferenceMap) (name : String) : Option References :=
  (m.lookup name).filter (·.isUsed)

/-- The entries whose bindings are used. -/
def used (m : ReferenceMap) : ReferenceMap := m.filter (·.2.isUsed)

/-- The references of the given specifiers, added to those of `m`; `none` as soon
as one of the bindings is not declared. -/
def collect (scope : Scope.Index) (m : ReferenceMap) : List ImportSpecifier → Option ReferenceMap
  | [] => some m
  | s :: ss =>
    match s.importedName? with
    | none => collect scope m ss
    | some name => do
      let sites ← scope.sites? s.binding.id
      collect scope (m.insert name ⟨s.binding.id, sites⟩) ss

end ReferenceMap
end StyleLowering
