/-
# Class names and the place of a project

The class names of a file depend on where it is inside the project, and not on where the
project is: the steps of the directory of the run are dropped from those of the file, and
what is left is the path of the file in the project as it is written.  A relative file name
has no relation to the directory of the run and stands for itself
(`Styled.className_relocates`).

The one file that is told apart is `unknown`: a host gives this name to a file that has
none, so it is hashed like the empty path (`Styled.not_forall_className_relocates`).
-/

import StyleLowering.Styled
import StyleLowering.Proofs.Path.Component

namespace StyleLowering

/-! ## Dropping a directory -/

namespace Path

/-- From a directory, what is inside of it is reached by the rest of its path. -/
theorem difference_append (base rest : List Component) :
    difference false (base ++ rest) base = some rest := by
  induction base with
  | nil => cases rest <;> rfl
  | cons b bs ih =>
    rw [List.cons_append, difference]
    simpa using ih

/-- The steps of an absolute directory are dropped from a path that begins with them. -/
theorem relative?_of_components_eq_append {path base : List Char} {rest : List Component}
    (hpath : isAbsolute path = true) (hbase : isAbsolute base = true)
    (h : components path = components base ++ rest) : relative? path base = some (render rest) := by
  rw [relative?, hpath, hbase, h, difference_append]
  rfl

/-- A relative path is not seen from an absolute directory. -/
theorem relative?_eq_none {path base : List Char} (hpath : isAbsolute path = false)
    (hbase : isAbsolute base = true) : relative? path base = none := by
  rw [relative?, hpath, hbase]
  rfl

/-- The segments of a path are all names: no slash leads, trails or is doubled, and there are no
lone dots or pairs of dots. -/
def IsClean (path : List Char) : Prop := ∀ seg ∈ pieces path, IsName seg

instance (path : List Char) : Decidable (IsClean path) :=
  inferInstanceAs (Decidable (∀ seg ∈ pieces path, IsName seg))

/-- A clean path starts from some directory, not from the root. -/
theorem IsClean.isAbsolute {path : List Char} (h : IsClean path) : isAbsolute path = false := by
  rw [← Bool.not_eq_true, isAbsolute_iff]
  rintro ⟨rest, rfl⟩
  exact (h [] (List.mem_cons_self ..)).1 rfl

/-- A clean path is written as its steps are. -/
theorem IsClean.render {path : List Char} (h : IsClean path) :
    render ((pieces path).filterMap ofPiece) = path := by
  rw [filterMap_ofPiece_names h, render_names, joinPieces_pieces]

end Path

/-! ## The path that a file is hashed by -/

namespace FileInfo

/-- The facts about a file of this name in a run from this directory, whatever else is known
or chosen. -/
def IsOf (f : FileInfo) (name cwd : String) : Prop :=
  ∃ o source compilesCssProp, f = ofOptions o ⟨some name, cwd, source⟩ compilesCssProp

/-- A path with every backslash replaced by a slash. -/
def withSlashes (path : String) : String :=
  String.ofList (path.toList.map fun c => if c = '\\' then '/' else c)

/-- A name for the file at a path under a directory: with a slash between the two, or with
none where the directory ends in one. -/
def IsUnder (name dir path : String) : Prop :=
  name = dir ++ "/" ++ path ∨ name = String.ofList (Path.join dir.toList path.toList)

/-- The name of a file under an absolute directory is absolute. -/
theorem IsUnder.isAbsolute {name dir path : String} (h : IsUnder name dir path)
    (hdir : Path.isAbsolute dir.toList = true) (hpath : Path.isAbsolute path.toList = false) :
    Path.isAbsolute name.toList = true := by
  rcases h with rfl | rfl
  · rw [String.toList_append, String.toList_append, List.append_assoc]
    exact Path.isAbsolute_append hdir _
  · rw [String.toList_ofList]
    exact Path.isAbsolute_join hdir hpath

/-- The components of such a name are those of the directory, then those of the path. -/
theorem IsUnder.components {name dir path : String} (h : IsUnder name dir path)
    (hdir : Path.isAbsolute dir.toList = true) (hpath : Path.isAbsolute path.toList = false) :
    Path.components name.toList =
      Path.components dir.toList ++ (Path.pieces path.toList).filterMap Path.ofPiece := by
  rcases h with rfl | rfl
  · rw [String.toList_append, String.toList_append, List.append_assoc]
    exact Path.components_append hdir _
  · rw [String.toList_ofList, Path.components_join hdir hpath]

/-- What is hashed is the name from the working directory, or the whole name, with slashes. -/
theorem IsOf.hashedPath_eq {f : FileInfo} {name cwd : String} (hf : f.IsOf name cwd)
    (hne : name ≠ "") (hunknown : name ≠ "unknown") :
    f.hashedPath =
      withSlashes (String.ofList ((Path.relative? name.toList cwd.toList).getD name.toList)) := by
  obtain ⟨o, source, compilesCssProp, rfl⟩ := hf
  have hname : (ofOptions o ⟨some name, cwd, source⟩ compilesCssProp).filename = some name :=
    if_pos (decide_eq_true ⟨hne, hunknown⟩)
  rw [hashedPath, hname, withSlashes, String.toList_ofList]
  rfl

/-- A file under the directory of the run is hashed by its path there. -/
theorem IsOf.hashedPath_of_isUnder {f : FileInfo} {name cwd path : String} (hf : f.IsOf name cwd)
    (hcwd : Path.isAbsolute cwd.toList = true) (hpath : Path.IsClean path.toList)
    (hname : IsUnder name cwd path) : f.hashedPath = withSlashes path := by
  have habsolute := hname.isAbsolute hcwd hpath.isAbsolute
  have hrelative := Path.relative?_of_components_eq_append habsolute hcwd
    (hname.components hcwd hpath.isAbsolute)
  rw [hf.hashedPath_eq, hrelative, Option.getD_some, hpath.render, String.ofList_toList]
  · rintro rfl
    exact absurd habsolute (by decide)
  · rintro rfl
    exact absurd habsolute (by decide)

/-- A file with a clean name is hashed by that name, wherever the run is. -/
theorem IsOf.hashedPath_of_isClean {f : FileInfo} {path cwd : String} (hf : f.IsOf path cwd)
    (hcwd : Path.isAbsolute cwd.toList = true) (hpath : Path.IsClean path.toList)
    (hunknown : path ≠ "unknown") : f.hashedPath = withSlashes path := by
  rw [hf.hashedPath_eq ?_ hunknown, Path.relative?_eq_none hpath.isAbsolute hcwd,
    Option.getD_none, String.ofList_toList]
  rintro rfl
  exact absurd hpath (by decide)

end FileInfo

namespace Styled

open Hash FileInfo

/-- **Class names do not tell where a project is.**  A file has the same class names under
any two absolute directories that a run is started from, made of the hash of its path there;
and it has them under its path alone, unless that is the name of files without a name. -/
theorem className_relocates {path root₁ root₂ name₁ name₂ : String} {f₁ f₂ : FileInfo}
    (hpath : Path.IsClean path.toList)
    (hroot₁ : Path.isAbsolute root₁.toList = true) (hroot₂ : Path.isAbsolute root₂.toList = true)
    (hname₁ : IsUnder name₁ root₁ path) (hname₂ : IsUnder name₂ root₂ path)
    (hf₁ : f₁.IsOf name₁ root₁) (hf₂ : f₂.IsOf name₂ root₂) (n : Nat) :
    className f₁ n = "e" ++ hashString (withSlashes path) ++ Nat.repr n ∧
      className f₂ n = className f₁ n ∧
      (path ≠ "unknown" → ∀ cwd (f₃ : FileInfo), Path.isAbsolute cwd.toList = true →
        f₃.IsOf path cwd → className f₃ n = className f₁ n) := by
  have h₁ := hf₁.hashedPath_of_isUnder hroot₁ hpath hname₁
  have h₂ := hf₂.hashedPath_of_isUnder hroot₂ hpath hname₂
  refine ⟨by rw [className, h₁], by rw [className, className, h₁, h₂], ?_⟩
  intro hunknown cwd f₃ hcwd hf₃
  rw [className, className, h₁, hf₃.hashedPath_of_isClean hcwd hpath hunknown]

/-- The facts about a file of this name in a run from this directory, with no options. -/
def plainFile (name cwd : String) : FileInfo := ofOptions {} ⟨some name, cwd, none⟩ false

/-- A plain file is of its name, in its directory. -/
theorem plainFile_isOf (name cwd : String) : (plainFile name cwd).IsOf name cwd :=
  ⟨{}, none, false, rfl⟩

/-- A path with a backslash, at two roots and relative to one of them. -/
theorem className_relocates_backslash :
    Path.IsClean "src\\lib/App.js".toList ∧
      className (plainFile "/src\\lib/App.js" "/") 3 =
        "e" ++ hashString "src/lib/App.js" ++ "3" ∧
      className (plainFile "/home/me/src\\lib/App.js" "/home/me") 3 =
        className (plainFile "/src\\lib/App.js" "/") 3 ∧
      className (plainFile "src\\lib/App.js" "/home/me") 3 =
        className (plainFile "/src\\lib/App.js" "/") 3 := by
  have hpath : Path.IsClean "src\\lib/App.js".toList := by decide
  obtain ⟨hhash, hsame, hrelative⟩ := className_relocates hpath (by decide) (by decide)
    (.inr (by decide)) (.inl (by decide)) (plainFile_isOf "/src\\lib/App.js" "/")
    (plainFile_isOf "/home/me/src\\lib/App.js" "/home/me") 3
  have hslashes : withSlashes "src\\lib/App.js" = "src/lib/App.js" := by decide
  rw [hslashes] at hhash
  exact ⟨hpath, hhash, hsame,
    hrelative (by decide) "/home/me" _ (by decide) (plainFile_isOf _ _)⟩

/-- The file `unknown` has class names of its own under its path alone: those of a file
without a name. -/
theorem not_forall_className_relocates :
    ¬∀ (path root cwd : String) (f₁ f₃ : FileInfo) (n : Nat), Path.IsClean path.toList →
      Path.isAbsolute root.toList = true → Path.IsClean (root.toList.drop 1) →
      Path.isAbsolute cwd.toList = true →
      f₁.IsOf (root ++ "/" ++ path) root → f₃.IsOf path cwd → className f₃ n = className f₁ n := by
  intro h
  have hhash : hashString (plainFile "/app/unknown" "/app").hashedPath = "hn416t" ∧
      hashString (plainFile "unknown" "/app").hashedPath = "0" := by
    decide +kernel
  have hsame := h "unknown" "/app" "/app" _ _ 0 (by decide) (by decide) (by decide) (by decide)
    (plainFile_isOf "/app/unknown" "/app") (plainFile_isOf "unknown" "/app")
  rw [className, className, hhash.1, hhash.2] at hsame
  exact absurd hsame (by decide)

end Styled
end StyleLowering
