/-
# Where a specifier leads

An absolute directory and a specifier denote a place: the names that are left on a stack
after walking along the segments of the one and then of the other from the root.  Resolving
writes that place down, so two specifiers get one key exactly if they denote one place
(`Path.resolve_isLexical`).

A normalised path has no step that could be taken back: it is the root, or some pairs of
dots, and then names (`Path.Settled`).  Such steps are read from the text they are written
as, and nothing is taken back when they are walked again.
-/

import StyleLowering.Path.Resolve
import StyleLowering.Proofs.Path.Component

namespace StyleLowering
namespace Path

/-! ## Normalised paths -/

/-- A step that is not at the beginning of a path only: a pair of dots or a name. -/
def Component.IsInner : Component → Prop
  | .parent => True
  | .normal name => IsName name ∧ '/' ∉ name
  | _ => False

/-- The steps of a normalised path, the last one at the head. -/
inductive Settled : List Component → Prop where
  | root : Settled [.root]
  | parents (n : Nat) : Settled (List.replicate n .parent)
  | name {rev : List Component} {name : List Char} :
      Settled rev → Component.IsInner (.normal name) → Settled (.normal name :: rev)

/-- A component read from a piece can stand behind the lead. -/
theorem isInner_of_mem {path : List Char} {c : Component}
    (h : c ∈ (pieces path).filterMap ofPiece) : c.IsInner := by
  obtain ⟨seg, hseg, hc⟩ := List.mem_filterMap.1 h
  rcases segment_cases seg with hblank | rfl | hname
  · rw [ofPiece_of_isBlank hblank] at hc
    cases hc
  · obtain rfl := Option.some.inj hc
    trivial
  · rw [ofPiece_of_isName hname] at hc
    obtain rfl := Option.some.inj hc
    exact ⟨hname, slash_not_mem_of_mem_pieces hseg⟩

/-- A name goes on top of any steps. -/
theorem push_normal (rev : List Component) (name : List Char) :
    push rev (.normal name) = .normal name :: rev := by
  unfold push
  split <;> simp_all

/-- Steps up over nothing are kept. -/
theorem push_parents (n : Nat) :
    push (List.replicate n .parent) .parent = List.replicate (n + 1) .parent := by
  cases n <;> rfl

/-- A settled stack stays settled under one more component. -/
theorem Settled.push {rev : List Component} (h : Settled rev) {c : Component} (hc : c.IsInner) :
    Settled (push rev c) := by
  cases c with
  | root => cases hc
  | current => cases hc
  | normal name =>
    rw [push_normal]
    exact h.name hc
  | parent =>
    cases h with
    | root => exact .root
    | parents n =>
      rw [push_parents]
      exact .parents (n + 1)
    | name h _ => exact h

/-- A settled stack stays settled under any components. -/
theorem Settled.foldl_push {cs : List Component} (hcs : ∀ c ∈ cs, c.IsInner) {rev : List Component}
    (h : Settled rev) : Settled (cs.foldl Path.push rev) := by
  induction cs generalizing rev with
  | nil => exact h
  | cons c cs ih =>
    exact ih (fun c hc => hcs c (List.mem_cons_of_mem _ hc))
      (h.push (hcs c (List.mem_cons_self ..)))

/-- A path leads with the root, with the directory it starts from, or with neither. -/
theorem lead_cases (path : List Char) :
    lead path = none ∨ lead path = some .root ∨ lead path = some .current := by
  unfold lead
  split <;> simp

/-- The steps of any path settle. -/
theorem settled_components (path : List Char) : Settled ((components path).foldl push []) := by
  rw [components, List.foldl_append]
  refine Settled.foldl_push (fun _ => isInner_of_mem) ?_
  rcases lead_cases path with hlead | hlead | hlead <;> rw [hlead]
  · exact .parents 0
  · exact .root
  · exact .parents 0

/-- Nothing is taken back on a second walk. -/
theorem Settled.foldl_reverse {rev : List Component} (h : Settled rev) :
    rev.reverse.foldl Path.push [] = rev := by
  induction h with
  | root => rfl
  | parents n =>
    rw [List.reverse_replicate]
    induction n with
    | zero => rfl
    | succ n ih =>
      rw [List.replicate_succ', List.foldl_append, ih, ← List.replicate_succ']
      exact push_parents n
  | name _ _ ih =>
    rw [List.reverse_cons, List.foldl_append, ih]
    exact push_normal _ _

/-- Settled steps start at the root, or none of them is bound to the beginning. -/
theorem Settled.inner {rev : List Component} (h : Settled rev) :
    (∃ cs, rev.reverse = .root :: cs ∧ ∀ c ∈ cs, c.IsInner) ∨ ∀ c ∈ rev.reverse, c.IsInner := by
  induction h with
  | root => exact .inl ⟨[], rfl, fun _ hc => absurd hc List.not_mem_nil⟩
  | parents n =>
    refine .inr fun c hc => ?_
    rw [List.reverse_replicate] at hc
    rw [List.eq_of_mem_replicate hc]
    trivial
  | @name rev name _ hname ih =>
    rw [List.reverse_cons]
    rcases ih with ⟨cs, hcs, hinner⟩ | hinner
    · refine .inl ⟨cs ++ [.normal name], by rw [hcs, List.cons_append], ?_⟩
      exact List.forall_mem_append.2 ⟨hinner, List.forall_mem_singleton.2 hname⟩
    · exact .inr (List.forall_mem_append.2 ⟨hinner, List.forall_mem_singleton.2 hname⟩)

/-! ## Steps written down and read again -/

/-- An inner component is read back from its text, which has no slash. -/
theorem Component.IsInner.text {c : Component} (h : c.IsInner) :
    ofPiece c.text = some c ∧ '/' ∉ c.text := by
  cases c with
  | root => cases h
  | current => cases h
  | parent => decide
  | normal name => exact ⟨ofPiece_of_isName h.1, h.2⟩

/-- Inner components are read back from their texts. -/
theorem filterMap_ofPiece_text {cs : List Component} (h : ∀ c ∈ cs, c.IsInner) :
    (cs.map Component.text).filterMap ofPiece = cs := by
  induction cs with
  | nil => rfl
  | cons c cs ih =>
    rw [List.map_cons, List.filterMap_cons_some (h c (List.mem_cons_self ..)).text.1,
      ih fun c hc => h c (List.mem_cons_of_mem _ hc)]

/-- The texts of inner components are the pieces of the path joined from them. -/
theorem pieces_joinPieces_text {cs : List Component} (hne : cs ≠ []) (h : ∀ c ∈ cs, c.IsInner) :
    pieces (joinPieces (cs.map Component.text)) = cs.map Component.text := by
  refine pieces_joinPieces (mt List.map_eq_nil_iff.1 hne) fun seg hseg => ?_
  obtain ⟨c, hc, rfl⟩ := List.mem_map.1 hseg
  exact (h c hc).text.2

/-- Inner components are read back from the path joined from their texts. -/
theorem filterMap_pieces_joinPieces {cs : List Component} (h : ∀ c ∈ cs, c.IsInner) :
    (pieces (joinPieces (cs.map Component.text))).filterMap ofPiece = cs := by
  cases cs with
  | nil => rfl
  | cons c cs => rw [pieces_joinPieces_text (List.cons_ne_nil c cs) h, filterMap_ofPiece_text h]

/-- A path that does not begin with an inner step begins with a blank segment. -/
theorem isBlank_of_lead {path p : List Char} {ps : List (List Char)} {c : Component}
    (hlead : lead path = some c) (h : pieces path = p :: ps) : isBlank p = true := by
  unfold lead at hlead
  split at hlead
  · rw [← (List.cons.inj h).1]
    rfl
  · rw [← (List.cons.inj h).1]
    rfl
  · rw [← (List.cons.inj h).1]
    rfl
  · cases hlead

/-- The text of an inner component is not skipped. -/
theorem Component.IsInner.not_isBlank_text {c : Component} (h : c.IsInner) :
    ¬isBlank c.text = true := by
  intro hblank
  have := h.text.1
  rw [ofPiece_of_isBlank hblank] at this
  cases this

/-- A path joined from inner components has no lead. -/
theorem lead_joinPieces_text {cs : List Component} (h : ∀ c ∈ cs, c.IsInner) :
    lead (joinPieces (cs.map Component.text)) = none := by
  cases cs with
  | nil => rfl
  | cons c cs =>
    rw [Option.eq_none_iff_forall_ne_some]
    intro d hlead
    have hblank := isBlank_of_lead hlead (pieces_joinPieces_text (List.cons_ne_nil c cs) h)
    exact (h c (List.mem_cons_self ..)).not_isBlank_text hblank

/-- Inner components are written by joining their texts. -/
theorem render_of_isInner {cs : List Component} (h : ∀ c ∈ cs, c.IsInner) :
    render cs = joinPieces (cs.map Component.text) := by
  cases cs with
  | nil => rfl
  | cons c cs =>
    cases c with
    | root => cases h _ (List.mem_cons_self ..)
    | _ => rfl

/-- Inner steps behind the root are read from the text that they are written as. -/
theorem components_root {cs : List Component} (h : ∀ c ∈ cs, c.IsInner) :
    components ('/' :: joinPieces (cs.map Component.text)) = .root :: cs := by
  rw [components_of_isAbsolute rfl]
  exact congrArg _ (filterMap_pieces_joinPieces h)

/-- Settled steps are read from the text that they are written as. -/
theorem Settled.components_render {rev : List Component} (h : Settled rev) :
    components (render rev.reverse) = rev.reverse := by
  rcases h.inner with ⟨cs, hcs, hinner⟩ | hinner
  · rw [hcs]
    exact components_root hinner
  · rw [render_of_isInner hinner, components, body, lead_joinPieces_text hinner]
    exact filterMap_pieces_joinPieces hinner

/-- A path leads where its normalised form leads. -/
theorem foldl_push_normalize (path : List Char) :
    (components (normalize path)).foldl push [] = (components path).foldl push [] := by
  have h := settled_components path
  rw [normalize, normalSteps, h.components_render, h.foldl_reverse]

/-- **Normal paths are normal:** to normalize twice changes nothing more. -/
theorem normalize_normalize (path : List Char) : normalize (normalize path) = normalize path :=
  congrArg (fun rev : List Component => render rev.reverse) (foldl_push_normalize path)

/-! ## Walking from the root -/

/-- The names on the stack after a segment, the last one on top: an empty segment and a lone
dot do nothing, a pair of dots takes the name on top away where there is one, and a name goes
on top. -/
def visit (stack : List (List Char)) (seg : List Char) : List (List Char) :=
  if seg = [] ∨ seg = ['.'] then stack
  else if seg = ['.', '.'] then stack.tail
  else seg :: stack

/-- The names from the root to where segments lead. -/
def walk (segs : List (List Char)) : List (List Char) := (segs.foldl visit []).reverse

/-- The place that a specifier denotes in an absolute directory. -/
def place (specifier base : String) : List (List Char) :=
  walk (pieces base.toList ++ pieces specifier.toList)

/-- An empty segment or `.` leaves the stack alone. -/
theorem visit_of_isBlank {seg : List Char} (h : isBlank seg = true) (stack : List (List Char)) :
    visit stack seg = stack := by
  rw [visit, if_pos (isBlank_iff.1 h)]

/-- A name is pushed onto the stack. -/
theorem visit_of_isName {seg : List Char} (h : IsName seg) (stack : List (List Char)) :
    visit stack seg = seg :: stack := by
  rw [visit, if_neg (by rw [← isBlank_iff]; exact h.not_isBlank), if_neg h.2.2]

/-- The steps above the root are what walking leaves on the stack. -/
theorem foldl_push_above_root (segs stack : List (List Char)) :
    (segs.filterMap ofPiece).foldl push (stack.map .normal ++ [.root]) =
      (segs.foldl visit stack).map .normal ++ [.root] := by
  induction segs generalizing stack with
  | nil => rfl
  | cons seg segs ih =>
    rw [List.foldl_cons, ← ih]
    rcases segment_cases seg with hblank | rfl | hname
    · rw [List.filterMap_cons_none (ofPiece_of_isBlank hblank), visit_of_isBlank hblank]
    · cases stack <;> rfl
    · rw [List.filterMap_cons_some (ofPiece_of_isName hname), List.foldl_cons, push_normal,
        visit_of_isName hname]
      rfl

/-- What walking leaves are names. -/
theorem isName_of_mem_foldl_visit {segs stack : List (List Char)}
    (hsegs : ∀ seg ∈ segs, '/' ∉ seg) (hstack : ∀ seg ∈ stack, IsName seg ∧ '/' ∉ seg) :
    ∀ seg ∈ segs.foldl visit stack, IsName seg ∧ '/' ∉ seg := by
  induction segs generalizing stack with
  | nil => exact hstack
  | cons seg segs ih =>
    refine ih (fun seg hseg => hsegs seg (List.mem_cons_of_mem _ hseg)) ?_
    rcases segment_cases seg with hblank | rfl | hname
    · rwa [visit_of_isBlank hblank]
    · exact fun seg hseg => hstack seg (List.mem_of_mem_tail hseg)
    · rw [visit_of_isName hname]
      exact List.forall_mem_cons.2 ⟨⟨hname, hsegs seg (List.mem_cons_self ..)⟩, hstack⟩

/-- The segments of a place are names, without a slash. -/
theorem isName_of_mem_place {s b : String} {seg : List Char} (h : seg ∈ place s b) :
    IsName seg ∧ '/' ∉ seg := by
  refine isName_of_mem_foldl_visit (fun seg hseg => ?_) (fun _ hseg => absurd hseg List.not_mem_nil)
    seg (List.mem_reverse.1 h)
  rcases List.mem_append.1 hseg with hseg | hseg <;> exact slash_not_mem_of_mem_pieces hseg

/-- The steps of a path from the root, taken-back names removed. -/
theorem normalSteps_root (segs : List (List Char)) :
    normalSteps (.root :: segs.filterMap ofPiece) = .root :: (walk segs).map .normal := by
  have hwalk : (segs.filterMap ofPiece).foldl push [.root] =
      (segs.foldl visit []).map .normal ++ [.root] := foldl_push_above_root segs []
  rw [normalSteps, List.foldl_cons, show push [] .root = [.root] from rfl, hwalk,
    List.reverse_append, ← List.map_reverse]
  rfl

/-- An absolute path stays absolute. -/
theorem isAbsolute_normalize {path : List Char} (h : isAbsolute path = true) :
    isAbsolute (normalize path) = true := by
  rw [normalize, components_of_isAbsolute h, normalSteps_root, render_root]
  rfl

/-- Of an absolute directory only the normal form matters to what is joined to it. -/
theorem normalize_join {dir path : List Char} (hdir : isAbsolute dir = true)
    (hpath : isAbsolute path = false) :
    normalize (join (normalize dir) path) = normalize (join dir path) := by
  have hsteps : (components (join (normalize dir) path)).foldl push [] =
      (components (join dir path)).foldl push [] := by
    rw [components_join (isAbsolute_normalize hdir) hpath, components_join hdir hpath,
      List.foldl_append, List.foldl_append, foldl_push_normalize]
  exact congrArg (fun rev : List Component => render rev.reverse) hsteps

/-! ## Keys -/

/-- A path that starts with a dot is not absolute. -/
theorem isAbsolute_of_head? {path : List Char} (h : path.head? = some '.') :
    isAbsolute path = false := by
  rw [isAbsolute, h]
  rfl

/-- A source that starts with a dot is joined to the base and normalized. -/
theorem resolve_of_head? {s : String} (hs : s.toList.head? = some '.') (b : String) :
    resolve s b = String.ofList (normalize (join b.toList s.toList)) := by
  obtain ⟨rest, hrest⟩ := List.head?_eq_some_iff.1 hs
  rw [resolve, hrest]
  rfl

/-- An absolute source stands for itself. -/
theorem resolve_of_isAbsolute {s : String} (hs : isAbsolute s.toList = true) (b : String) :
    resolve s b = s := by
  rw [resolve]
  split
  · next h =>
    rw [h] at hs
    exact absurd hs (by simp [isAbsolute])
  · rfl

/-- From an absolute base a relative source resolves to the place that it names. -/
theorem resolve_eq_place {s b : String} (hb : isAbsolute b.toList = true)
    (hs : s.toList.head? = some '.') :
    resolve s b = String.ofList ('/' :: joinPieces (place s b)) := by
  rw [resolve_of_head? hs, normalize, components_join hb (isAbsolute_of_head? hs),
    components_of_isAbsolute hb, List.cons_append, ← List.filterMap_append, normalSteps_root,
    render_root]
  rfl

/-- A place is told by the path that it is written as. -/
theorem place_eq_of_joinPieces_eq {s b s' b' : String}
    (h : joinPieces (place s b) = joinPieces (place s' b')) : place s b = place s' b' := by
  have hread : ∀ s b, components ('/' :: joinPieces (place s b)) =
      .root :: (place s b).map .normal := by
    intro s b
    have hinner : ∀ c ∈ (place s b).map Component.normal, c.IsInner := by
      intro c hc
      obtain ⟨name, hname, rfl⟩ := List.mem_map.1 hc
      exact isName_of_mem_place hname
    rw [← components_root hinner, map_text_normal]
  have hsteps := hread s b
  rw [h, hread s' b'] at hsteps
  rw [← map_text_normal (place s b), ← (List.cons.inj hsteps).2, map_text_normal]

/-- What resolving a specifier in an absolute directory means. -/
structure IsLexical (s b : String) : Prop where
  /-- The key is the place that is reached, written from the root. -/
  key : resolve s b = String.ofList ('/' :: joinPieces (place s b))
  /-- No segment of it is empty, a lone dot or a pair of dots. -/
  names : ∀ seg ∈ place s b, IsName seg ∧ '/' ∉ seg
  /-- The same key is the same place. -/
  same_iff : ∀ s' b' : String, isAbsolute b'.toList = true → s'.toList.head? = some '.' →
    (resolve s b = resolve s' b' ↔ place s b = place s' b')
  /-- A key resolves to itself, in any directory. -/
  again : ∀ b', resolve (resolve s b) b' = resolve s b
  /-- A key is a normalised path. -/
  normalized : normalize (resolve s b).toList = (resolve s b).toList
  /-- Only the normal form of the directory matters. -/
  of_normalize : resolve s (String.ofList (normalize b.toList)) = resolve s b

/-- **Resolving is walking.**  In an absolute directory, a specifier that begins with a dot
gets the path from the root that walking along both leads to; and normalising any path twice
is normalising it once. -/
theorem resolve_isLexical {s b : String} (hb : isAbsolute b.toList = true)
    (hs : s.toList.head? = some '.') :
    IsLexical s b ∧ ∀ path, normalize (normalize path) = normalize path := by
  have hkey := resolve_eq_place hb hs
  have habsolute : isAbsolute (resolve s b).toList = true := by
    rw [hkey, String.toList_ofList]
    rfl
  refine ⟨⟨hkey, fun _ => isName_of_mem_place, ?_, resolve_of_isAbsolute habsolute, ?_, ?_⟩,
    normalize_normalize⟩
  · intro s' b' hb' hs'
    rw [hkey, resolve_eq_place hb' hs']
    refine ⟨fun heq => ?_, fun heq => by rw [heq]⟩
    exact place_eq_of_joinPieces_eq (List.cons.inj (String.ofList_inj.1 heq)).2
  · rw [resolve_of_head? hs, String.toList_ofList, normalize_normalize]
  · rw [resolve_of_head? hs, resolve_of_head? hs, String.toList_ofList,
      normalize_join hb (isAbsolute_of_head? hs)]

/-- A source that goes up one directory and stays there for one step, from a base with a doubled
and a trailing slash. -/
theorem resolve_isLexical_parent :
    isAbsolute "/project/src//components/".toList = true ∧
      "../lib/./emotion".toList.head? = some '.' ∧
      resolve "../lib/./emotion" "/project/src//components/" = "/project/src/lib/emotion" ∧
      IsLexical "../lib/./emotion" "/project/src//components/" :=
  ⟨by decide, by decide, by decide, (resolve_isLexical (by decide) (by decide)).1⟩

end Path
end StyleLowering
