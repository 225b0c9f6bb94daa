/-
# Segments of a path and its steps

The segments of a path are its pieces between slashes.  A segment names something, or takes
a name back, or does nothing; cutting is compatible with putting paths behind each other,
and names that are joined by slashes are cut into the same names again.
-/

import StyleLowering.Path.Component

namespace StyleLowering
namespace Path

/-- A segment that names something: not empty, and neither a lone dot nor a pair of dots. -/
def IsName (seg : List Char) : Prop := seg ≠ [] ∧ seg ≠ ['.'] ∧ seg ≠ ['.', '.']

instance (seg : List Char) : Decidable (IsName seg) :=
  inferInstanceAs (Decidable (_ ∧ _ ∧ _))

/-- The segments that are skipped are the empty one and `.`. -/
theorem isBlank_iff {seg : List Char} : isBlank seg = true ↔ seg = [] ∨ seg = ['.'] := by
  rw [isBlank, Bool.or_eq_true, beq_iff_eq, beq_iff_eq]

/-- A segment does nothing, takes a name back, or is a name. -/
theorem segment_cases (seg : List Char) :
    isBlank seg = true ∨ seg = ['.', '.'] ∨ IsName seg := by
  by_cases hblank : isBlank seg = true
  · exact .inl hblank
  · by_cases hdots : seg = ['.', '.']
    · exact .inr (.inl hdots)
    · rw [isBlank_iff, not_or] at hblank
      exact .inr (.inr ⟨hblank.1, hblank.2, hdots⟩)

/-- A name is not skipped. -/
theorem IsName.not_isBlank {seg : List Char} (h : IsName seg) : ¬isBlank seg = true := by
  rw [isBlank_iff]
  rintro (rfl | rfl)
  · exact h.1 rfl
  · exact h.2.1 rfl

/-- A segment that is skipped gives no component. -/
theorem ofPiece_of_isBlank {seg : List Char} (h : isBlank seg = true) : ofPiece seg = none := by
  rw [ofPiece, if_pos h]

/-- A name is a component of its own. -/
theorem ofPiece_of_isName {seg : List Char} (h : IsName seg) :
    ofPiece seg = some (.normal seg) := by
  rw [ofPiece, if_neg h.not_isBlank, if_neg h.2.2]

/-! ## Cutting and joining -/

/-- A slash between two texts divides their pieces. -/
theorem pieces_append (a b : List Char) : pieces (a ++ '/' :: b) = pieces a ++ pieces b := by
  induction a with
  | nil => rfl
  | cons c cs ih =>
    rw [List.cons_append, pieces, pieces, ih]
    split
    · rfl
    · cases hcs : pieces cs with
      | nil => exact absurd hcs (pieces_ne_nil cs)
      | cons p ps => rfl

/-- There is no slash within a piece. -/
theorem slash_not_mem_of_mem_pieces {path seg : List Char} (h : seg ∈ pieces path) : '/' ∉ seg := by
  induction path generalizing seg with
  | nil =>
    rw [pieces, List.mem_singleton] at h
    rw [h]
    exact List.not_mem_nil
  | cons c cs ih =>
    rw [pieces] at h
    split at h
    · rcases List.mem_cons.1 h with rfl | h
      · exact List.not_mem_nil
      · exact ih h
    · next hc =>
      cases hcs : pieces cs with
      | nil => exact absurd hcs (pieces_ne_nil cs)
      | cons p ps =>
        rw [hcs] at h ih
        rcases List.mem_cons.1 h with rfl | h
        · rw [List.mem_cons, not_or]
          exact ⟨Ne.symm hc, ih (List.mem_cons_self ..)⟩
        · exact ih (List.mem_cons_of_mem _ h)

/-- A text without a slash is one piece. -/
theorem pieces_of_slash_not_mem {seg : List Char} (h : '/' ∉ seg) : pieces seg = [seg] := by
  induction seg with
  | nil => rfl
  | cons c cs ih =>
    rw [List.mem_cons, not_or] at h
    rw [pieces, if_neg (Ne.symm h.1), ih h.2]

/-- Segments without slashes are told by the path they make up. -/
theorem pieces_joinPieces {segs : List (List Char)} (hne : segs ≠ [])
    (h : ∀ seg ∈ segs, '/' ∉ seg) : pieces (joinPieces segs) = segs := by
  induction segs with
  | nil => exact absurd rfl hne
  | cons p ps ih =>
    have hp := pieces_of_slash_not_mem (h p (List.mem_cons_self ..))
    cases ps with
    | nil => rw [joinPieces, hp]
    | cons q qs =>
      rw [joinPieces, pieces_append, hp,
        ih (List.cons_ne_nil q qs) fun seg hseg => h seg (List.mem_cons_of_mem p hseg),
        List.singleton_append]

/-! ## Steps -/

/-- An absolute path starts with a slash. -/
theorem isAbsolute_iff {path : List Char} :
    isAbsolute path = true ↔ ∃ rest, path = '/' :: rest := by
  rw [isAbsolute, beq_iff_eq, List.head?_eq_some_iff]

/-- An absolute path goes to the root, and from there along its segments. -/
theorem components_of_isAbsolute {path : List Char} (h : isAbsolute path = true) :
    components path = .root :: (pieces path).filterMap ofPiece := by
  obtain ⟨rest, rfl⟩ := isAbsolute_iff.1 h
  rfl

/-- A path is absolute whatever is written behind it. -/
theorem isAbsolute_append {a : List Char} (h : isAbsolute a = true) (b : List Char) :
    isAbsolute (a ++ b) = true := by
  obtain ⟨rest, rfl⟩ := isAbsolute_iff.1 h
  rfl

/-- What is written behind an absolute path and a slash adds its steps. -/
theorem components_append {a : List Char} (h : isAbsolute a = true) (b : List Char) :
    components (a ++ '/' :: b) = components a ++ (pieces b).filterMap ofPiece := by
  rw [components_of_isAbsolute (isAbsolute_append h _), components_of_isAbsolute h, pieces_append,
    List.filterMap_append, List.cons_append]

/-- A relative path goes behind an absolute one, with a slash between them if the latter does
not end in one. -/
theorem join_cases {dir path : List Char} (hdir : isAbsolute dir = true)
    (hpath : isAbsolute path = false) :
    (∃ d, dir = d ++ ['/'] ∧ join dir path = dir ++ path) ∨ join dir path = dir ++ '/' :: path := by
  have hne : dir.isEmpty = false := by
    obtain ⟨rest, rfl⟩ := isAbsolute_iff.1 hdir
    rfl
  rw [join, hpath, hne, Bool.or_false, if_neg Bool.false_ne_true]
  split
  · next hlast =>
    obtain ⟨d, hd⟩ := List.getLast?_eq_some_iff.1 hlast
    exact .inl ⟨d, hd, rfl⟩
  · exact .inr rfl

/-- What is joined to an absolute directory is absolute. -/
theorem isAbsolute_join {dir path : List Char} (hdir : isAbsolute dir = true)
    (hpath : isAbsolute path = false) : isAbsolute (join dir path) = true := by
  rcases join_cases hdir hpath with ⟨d, -, hjoin⟩ | hjoin <;> rw [hjoin]
  · exact isAbsolute_append hdir path
  · exact isAbsolute_append hdir ('/' :: path)

/-- A relative path that is joined to an absolute one adds its steps. -/
theorem components_join {dir path : List Char} (hdir : isAbsolute dir = true)
    (hpath : isAbsolute path = false) :
    components (join dir path) = components dir ++ (pieces path).filterMap ofPiece := by
  rcases join_cases hdir hpath with ⟨d, rfl, hjoin⟩ | hjoin <;> rw [hjoin]
  · rw [components_of_isAbsolute (isAbsolute_append hdir _), components_of_isAbsolute hdir,
      List.append_assoc, List.singleton_append, pieces_append, pieces_append,
      List.filterMap_append, List.filterMap_append, List.cons_append, List.append_assoc]
    rfl
  · exact components_append hdir path

/-! ## Names -/

/-- The steps along names. -/
theorem filterMap_ofPiece_names {names : List (List Char)} (h : ∀ name ∈ names, IsName name) :
    names.filterMap ofPiece = names.map .normal := by
  induction names with
  | nil => rfl
  | cons name names ih =>
    rw [List.filterMap_cons_some (ofPiece_of_isName (h name (List.mem_cons_self ..))),
      ih fun name hname => h name (List.mem_cons_of_mem _ hname), List.map_cons]

/-- A name is written as it is. -/
theorem map_text_normal (names : List (List Char)) :
    (names.map Component.normal).map Component.text = names := by
  rw [List.map_map]
  exact List.map_id names

/-- Names are written with slashes between them. -/
theorem render_names (names : List (List Char)) :
    render (names.map .normal) = joinPieces names := by
  cases names with
  | nil => rfl
  | cons name names => exact congrArg joinPieces (map_text_normal (name :: names))

/-- Names behind the root are written behind a slash. -/
theorem render_root (names : List (List Char)) :
    render (.root :: names.map .normal) = '/' :: joinPieces names :=
  congrArg (fun texts => '/' :: joinPieces texts) (map_text_normal names)

end Path
end StyleLowering
