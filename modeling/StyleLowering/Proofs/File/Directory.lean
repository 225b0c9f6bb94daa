/-
# Where the imports of a file start from

A relative import is seen from the directory of its file.  Step by step, that is the name of the
file without its last step, seen from the directory of the run unless it begins at the root; a
file without a name is in the directory of the run (`FileEnv.directory`).  The directory that a
file keeps for its imports has these steps (`FileInfo.steps_importBaseDir`), and no more than the
steps of a directory matters to what is resolved there (`Path.resolve_eq_key`).

Cutting off the last step works on the text: lone dots and doubled slashes stay where they are,
and those at the end go.
-/

import StyleLowering.File.Info
import StyleLowering.Proofs.Path.Resolve
import Mathlib.Data.List.Induction

namespace StyleLowering
namespace Path

/-! ### Steps -/

/-- The steps of a path: from the root if it begins with a slash, and then along its segments,
those apart that are empty or a lone dot. -/
def steps (path : List Char) : List Component :=
  (if path.head? = some '/' then [.root] else []) ++ (pieces path).filterMap ofPiece

/-- The key of a specifier as seen from a directory with the given steps.  One that begins with a
dot goes on from there, and its key is where it leads; any other stands for itself. -/
def key (dir : List Component) (specifier : String) : String :=
  if specifier.toList.head? = some '.' then
    String.ofList (render (normalSteps (dir ++ steps specifier.toList)))
  else specifier

variable {path dir : List Char}

/-- The steps of a path that begins with a slash. -/
theorem steps_root (rest : List Char) :
    steps ('/' :: rest) = .root :: (pieces rest).filterMap ofPiece := rfl

/-- The steps of a path that does not begin with a slash. -/
theorem steps_of_not_isAbsolute (h : isAbsolute path = false) :
    steps path = (pieces path).filterMap ofPiece := by
  rw [isAbsolute, beq_eq_false_iff_ne] at h
  rw [steps, if_neg h, List.nil_append]

/-- No segment is the root. -/
theorem ofPiece_ne_root (seg : List Char) : ofPiece seg ≠ some .root := by
  unfold ofPiece
  split
  · nofun
  · split <;> nofun

/-- The steps of a path tell whether it is absolute. -/
theorem head?_steps_eq_root : (steps path).head? = some .root ↔ isAbsolute path = true := by
  rw [isAbsolute, beq_iff_eq]
  unfold steps
  split
  · next h => simp [h]
  · next h =>
    rw [List.nil_append, iff_false_right h]
    intro hroot
    obtain ⟨seg, -, hseg⟩ := List.mem_filterMap.1 (List.mem_of_mem_head? hroot)
    exact ofPiece_ne_root seg hseg

/-- What a path begins with does not matter to the segments behind it. -/
theorem steps_append (front back : List Char) :
    steps (front ++ '/' :: back) = steps (front ++ ['/']) ++ (pieces back).filterMap ofPiece := by
  have hpieces : (pieces []).filterMap ofPiece = [] := rfl
  rw [steps, steps, pieces_append, pieces_append, List.filterMap_append, List.filterMap_append,
    hpieces, List.append_nil, List.append_assoc]
  cases front <;> rfl

/-- A slash at the end adds no step. -/
theorem steps_append_slash (h : path ≠ []) : steps (path ++ ['/']) = steps path := by
  have hpieces : (pieces []).filterMap ofPiece = [] := rfl
  obtain ⟨c, cs, rfl⟩ := List.exists_cons_of_ne_nil h
  rw [steps, steps, pieces_append, List.filterMap_append, hpieces, List.append_nil]
  rfl

/-- A relative path that is joined to a directory goes on from there, and an absolute one begins
at the root. -/
theorem steps_join (dir path : List Char) :
    steps (join dir path) = if isAbsolute path then steps path else steps dir ++ steps path := by
  unfold join
  cases hpath : isAbsolute path with
  | true => rfl
  | false =>
    rw [Bool.false_or, if_neg Bool.false_ne_true, steps_of_not_isAbsolute hpath]
    split
    · next hempty =>
      rw [List.isEmpty_iff.1 hempty, steps_of_not_isAbsolute hpath]
      rfl
    · split
      · next hlast =>
        obtain ⟨front, rfl⟩ := List.getLast?_eq_some_iff.1 hlast
        rw [List.append_assoc, List.singleton_append, steps_append]
      · next hne _ => rw [steps_append, steps_append_slash (mt List.isEmpty_iff.2 hne)]

/-! ### The last step -/

/-- A path begins with a slash, or with a dot that is alone in its segment, or with neither. -/
theorem lead_body_cases (path : List Char) :
    (lead path = some .root ∧ path = '/' :: body path) ∨
      (lead path = some .current ∧ path = '.' :: body path ∧
        ∃ ps, pieces (body path) = [] :: ps) ∨
      (lead path = none ∧ body path = path ∧ isAbsolute path = false) := by
  unfold body lead
  split
  · exact .inl ⟨rfl, rfl⟩
  · exact .inr (.inl ⟨rfl, rfl, _, rfl⟩)
  · exact .inr (.inl ⟨rfl, rfl, _, rfl⟩)
  · next hroot _ _ =>
    refine .inr (.inr ⟨rfl, rfl, ?_⟩)
    rw [← Bool.not_eq_true, isAbsolute_iff]
    rintro ⟨rest, rfl⟩
    exact hroot rest rfl

/-- A lone dot at the beginning is no step. -/
theorem steps_dot {cs : List Char} {ps : List (List Char)} (h : pieces cs = [] :: ps) :
    steps ('.' :: cs) = ps.filterMap ofPiece := by
  rw [steps_of_not_isAbsolute rfl, pieces, if_neg (by decide), h]
  rfl

/-- The steps of a path are those behind its beginning, and the root where it begins there. -/
theorem steps_eq_lead (path : List Char) :
    steps path = (if lead path = some .root then [.root] else []) ++
      (pieces (body path)).filterMap ofPiece := by
  rcases lead_body_cases path with ⟨hlead, hpath⟩ | ⟨hlead, hpath, ps, hps⟩ | ⟨hlead, hbody, habs⟩
  · rw [hlead, hpath, steps_root, if_pos rfl, ← hpath]
    rfl
  · rw [hlead, if_neg nofun, hps, hpath, steps_dot hps]
    rfl
  · rw [hlead, hbody, steps_of_not_isAbsolute habs, if_neg nofun, List.nil_append]

/-- The text of the first segments of a path is what the path begins with. -/
theorem joinPieces_prefix {rs ps : List (List Char)} (h : rs <+: ps) :
    joinPieces rs <+: joinPieces ps := by
  obtain ⟨ts, rfl⟩ := h
  induction rs with
  | nil => exact List.nil_prefix
  | cons p rs ih =>
    cases rs with
    | nil =>
      cases ts with
      | nil => exact List.prefix_refl _
      | cons t ts => exact List.prefix_append _ _
    | cons q rs => exact (List.prefix_append_right_inj _).2 ((List.cons_prefix_cons).2 ⟨rfl, ih⟩)

/-- Segments without slashes are read from the text that they make up. -/
theorem filterMap_pieces_joinPieces_of_subset {rs : List (List Char)} (h : rs ⊆ pieces path) :
    (pieces (joinPieces rs)).filterMap ofPiece = rs.filterMap ofPiece := by
  by_cases hnil : rs = []
  · rw [hnil]
    rfl
  · rw [pieces_joinPieces hnil fun seg hseg => slash_not_mem_of_mem_pieces (h hseg)]

/-- What a path begins with, and the first segments behind it, have the steps that they have in the
path. -/
theorem steps_lead_joinPieces {rs : List (List Char)} (h : rs <+: pieces (body path)) :
    steps (((lead path).map Component.text).getD [] ++ joinPieces rs) =
      (if lead path = some .root then [.root] else []) ++ rs.filterMap ofPiece := by
  have hread := filterMap_pieces_joinPieces_of_subset h.subset
  rcases lead_body_cases path with ⟨hlead, -⟩ | ⟨hlead, -, qs, hqs⟩ | ⟨hlead, hbody, habs⟩
  · rw [hlead, if_pos rfl, ← hread]
    rfl
  · rw [hlead, if_neg nofun, List.nil_append]
    cases rs with
    | nil => rfl
    | cons p ps =>
      obtain rfl : p = [] := (List.cons_prefix_cons.1 (hqs ▸ h)).1
      have hpieces : pieces (joinPieces ([] :: ps)) = [] :: ps :=
        pieces_joinPieces (List.cons_ne_nil _ _) fun seg hseg =>
          slash_not_mem_of_mem_pieces (h.subset hseg)
      have hsteps : steps ('.' :: joinPieces ([] :: ps)) = ps.filterMap ofPiece :=
        steps_dot hpieces
      exact hsteps
  · have hprefix : joinPieces rs <+: path := by
      rw [hbody] at h
      exact joinPieces_pieces path ▸ joinPieces_prefix h
    have hrelative : isAbsolute (joinPieces rs) = false := by
      obtain ⟨rest, hrest⟩ := hprefix
      rw [← Bool.not_eq_true]
      intro hroot
      rw [← hrest, isAbsolute_append hroot] at habs
      cases habs
    rw [hlead, if_neg nofun, ← hread]
    exact steps_of_not_isAbsolute hrelative

/-- A blank piece at the end is dropped with those in front of it; any other stays. -/
theorem dropBlankEnd_concat (ps : List (List Char)) (p : List Char) :
    dropBlankEnd (ps ++ [p]) = if isBlank p then dropBlankEnd ps else ps ++ [p] := by
  rw [dropBlankEnd, List.reverse_append, List.reverse_singleton, List.singleton_append,
    List.dropWhile_cons]
  split
  · rfl
  · rw [List.reverse_cons, List.reverse_reverse]

/-- Segments without the blank ones at their end: there are none left and no steps, or the last
one left is the last step. -/
theorem dropBlankEnd_cases (ps : List (List Char)) :
    (dropBlankEnd ps = [] ∧ ps.filterMap ofPiece = []) ∨
      ∃ qs q c, dropBlankEnd ps = qs ++ [q] ∧ qs ++ [q] <+: ps ∧
        ps.filterMap ofPiece = qs.filterMap ofPiece ++ [c] := by
  induction ps using List.reverseRecOn with
  | nil => exact .inl ⟨rfl, rfl⟩
  | append_singleton ps p ih =>
    rw [dropBlankEnd_concat, List.filterMap_append]
    split
    · next hp =>
      rw [List.filterMap_cons_none (ofPiece_of_isBlank hp), List.filterMap_nil, List.append_nil]
      refine ih.imp_right ?_
      rintro ⟨qs, q, c, hdrop, hprefix, hsteps⟩
      exact ⟨qs, q, c, hdrop, hprefix.trans (List.prefix_append _ _), hsteps⟩
    · next hp =>
      obtain ⟨c, hc⟩ : ∃ c, ofPiece p = some c := by
        rcases segment_cases p with hblank | rfl | hname
        · exact absurd hblank hp
        · exact ⟨.parent, rfl⟩
        · exact ⟨.normal p, ofPiece_of_isName hname⟩
      refine .inr ⟨ps, p, c, rfl, List.prefix_refl _, ?_⟩
      rw [List.filterMap_cons_some hc, List.filterMap_nil]

/-- Pieces are dropped at the end alone. -/
theorem prefix_dropBlankEnd (ps : List (List Char)) : dropBlankEnd ps <+: ps := by
  rcases dropBlankEnd_cases ps with ⟨hdrop, -⟩ | ⟨qs, q, c, hdrop, hprefix, -⟩
  · exact hdrop ▸ List.nil_prefix
  · exact hdrop ▸ hprefix

/-- Blank pieces take no step. -/
theorem filterMap_dropBlankEnd (ps : List (List Char)) :
    (dropBlankEnd ps).filterMap ofPiece = ps.filterMap ofPiece := by
  induction ps using List.reverseRecOn with
  | nil => rfl
  | append_singleton ps p ih =>
    rw [dropBlankEnd_concat, List.filterMap_append]
    split
    · next hp =>
      rw [List.filterMap_cons_none (ofPiece_of_isBlank hp), List.filterMap_nil, List.append_nil, ih]
    · rw [List.filterMap_append]

/-- **A path without its last step.**  There may be no step to lose, or none but the root. -/
theorem steps_parent? (path : List Char) :
    steps ((parent? path).getD []) = (steps path).dropLast := by
  rw [steps_eq_lead path]
  rcases dropBlankEnd_cases (pieces (body path)) with
    ⟨hdrop, hnone⟩ | ⟨qs, q, c, hdrop, hprefix, hsteps⟩
  · have hparent : (parent? path).getD [] = [] := by
      rw [parent?, hdrop]
      split <;> simp_all
    rw [hparent, hnone, List.append_nil]
    split <;> rfl
  · have hparent : parent? path =
        some (((lead path).map Component.text).getD [] ++ joinPieces (dropBlankEnd qs)) := by
      rw [parent?, hdrop]
      split
      · next hnil _ => exact absurd hnil (by simp)
      · next hnil _ => exact absurd hnil (by simp)
      · rw [List.dropLast_concat]
    rw [hparent, Option.getD_some, steps_lead_joinPieces, filterMap_dropBlankEnd, hsteps,
      ← List.append_assoc, List.dropLast_concat]
    exact (prefix_dropBlankEnd qs).trans ((List.prefix_append _ _).trans hprefix)

/-! ### Keys -/

/-- Lone dots take no step. -/
theorem normalSteps_steps (path : List Char) :
    normalSteps (steps path) = normalSteps (components path) := by
  rw [steps_eq_lead, components]
  rcases lead_body_cases path with ⟨hlead, -⟩ | ⟨hlead, -⟩ | ⟨hlead, -⟩ <;> rw [hlead] <;> rfl

/-- A specifier is resolved to the key that it has as seen from the steps of the directory. -/
theorem resolve_eq_key (specifier base : String) :
    resolve specifier base = key (steps base.toList) specifier := by
  unfold key
  split
  · next hdot =>
    rw [resolve_of_head? hdot, normalize, ← normalSteps_steps, steps_join,
      isAbsolute_of_head? hdot, if_neg Bool.false_ne_true]
  · next hdot =>
    rw [resolve]
    split
    · next hrest => simp [hrest] at hdot
    · rfl

end Path

/-- The steps of the directory of a file: those of its name without the last one, behind those of
the directory of the run unless they begin at the root.  A host gives the name `unknown` to a file
that has none. -/
def FileEnv.directory (env : FileEnv) : List Path.Component :=
  match env.filename with
  | none => Path.steps env.cwd.toList
  | some name =>
    if name = "" ∨ name = "unknown" then Path.steps env.cwd.toList
    else
      let steps := (Path.steps name.toList).dropLast
      if steps.head? = some .root then steps else Path.steps env.cwd.toList ++ steps

/-- **The directory that a file keeps for its imports** is the one that it is in. -/
theorem FileInfo.steps_importBaseDir (o : Options) (env : FileEnv) (b : Bool) :
    Path.steps (ofOptions o env b).importBaseDir.toList = env.directory := by
  obtain ⟨filename, cwd, source⟩ := env
  cases filename with
  | none => rfl
  | some name =>
    rw [FileEnv.directory]
    dsimp only
    by_cases hname : name = "" ∨ name = "unknown"
    · have hnone : (ofOptions o ⟨some name, cwd, source⟩ b).filename = none := by
        rcases hname with rfl | rfl <;> rfl
      rw [if_pos hname, importBaseDir, hnone]
      rfl
    · have hsome : (ofOptions o ⟨some name, cwd, source⟩ b).filename = some name :=
        if_pos (decide_eq_true (not_or.1 hname))
      have hdir : Path.steps (ofOptions o ⟨some name, cwd, source⟩ b).importBaseDir.toList =
          Path.steps (Path.join cwd.toList ((Path.parent? name.toList).getD [])) := by
        rw [importBaseDir, hsome, Option.bind_some]
        cases Path.parent? name.toList with
        | none => rw [Option.getD_none, Path.steps_join]; exact (List.append_nil _).symm
        | some dir => rw [Option.getD_some]; exact congrArg Path.steps String.toList_ofList
      rw [if_neg hname, hdir, Path.steps_join, ← Path.steps_parent?]
      simp only [Path.head?_steps_eq_root]

/-- The file `src/App.js` of a run from `/project`. -/
example : FileEnv.directory ⟨some "src/App.js", "/project/", none⟩ =
    [.root, .normal "project".toList, .normal "src".toList] := by
  decide

end StyleLowering
