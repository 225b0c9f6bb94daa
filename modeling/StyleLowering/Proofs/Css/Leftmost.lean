/-
# Leftmost matches

What the tokens of a style text are, said without cutting it.  A string goes up
to the first quote of its own that no backslash takes along, a comment to the
first `*/`, and white space as far as it can.  A text falls into leftmost
matches if none of these starts within the plain text between them
(`Leftmost`).  A text falls into leftmost matches in one way, and its tokens
are that way (`leftmost_iff`).
-/

import StyleLowering.Proofs.Css.Cut

namespace StyleLowering
namespace Css

/-- A string from behind its opening quote on: the closing quote comes first
where neither a backslash nor the character behind one stands. -/
inductive QuotedRest (quote : Char) : List Char → Prop
  | close : QuotedRest quote [quote]
  | escaped (c : Char) {s : List Char} : QuotedRest quote s → QuotedRest quote ('\\' :: c :: s)
  | plain {c : Char} {s : List Char} : c ≠ quote → c ≠ '\\' → QuotedRest quote s →
      QuotedRest quote (c :: s)

/-- A comment from behind its opening on: it ends where it can end first. -/
def IsCommentRest (s : List Char) : Prop :=
  ['*', '/'] <:+ s ∧ ∀ s', s' <+: s → ['*', '/'] <:+ s' → s' = s

/-- A token that may be cut off a text which goes on with `rest`.  Plain text is
what is left between these tokens. -/
def Token.Matches (rest : List Char) : Token → Prop
  | .plain _ => False
  | .quoted text => ∃ quote s, text = quote :: s ∧ (quote = '"' ∨ quote = '\'') ∧ QuotedRest quote s
  | .comment text => ∃ s, text = '/' :: '*' :: s ∧ IsCommentRest s
  | .space text =>
    text ≠ [] ∧ (∀ c ∈ text, Text.isWhite c = true) ∧ ∀ c ∈ rest.head?, Text.isWhite c = false

/-- A token may be cut off the start of a text. -/
def StartsToken (cs : List Char) : Prop :=
  ∃ (t : Token) (rest : List Char), t.Matches rest ∧ cs = t.text ++ rest

/-- **A text in leftmost matches.**  Plain text goes from where a token ended to
where the next one starts, and none starts before. -/
inductive Leftmost : List Char → List Token → Prop
  | nil : Leftmost [] []
  | token {t : Token} {rest : List Char} {ts : List Token} :
      t.Matches rest → Leftmost rest ts → Leftmost (t.text ++ rest) (t :: ts)
  | plain {text rest : List Char} {ts : List Token} :
      text ≠ [] → (∀ v, v <:+ text → v ≠ [] → ¬StartsToken (v ++ rest)) →
      (rest = [] ∨ StartsToken rest) → Leftmost rest ts →
        Leftmost (text ++ rest) (.plain text :: ts)

/-! ### What a token is cut off by -/

/-- A string goes on to the first quotation mark that is not escaped. -/
theorem quotedEnd_eq_some_iff {quote : Char} (hq : quote ≠ '\\') {cs s rest : List Char} :
    quotedEnd quote cs = some (s, rest) ↔ QuotedRest quote s ∧ cs = s ++ rest := by
  constructor
  · intro h
    refine ⟨?_, (append_of_quotedEnd h).symm⟩
    fun_induction quotedEnd quote cs generalizing s rest with
    | case1 => cases h
    | case2 c r ih =>
      obtain ⟨⟨s', r'⟩, hr, heq⟩ := Option.map_eq_some_iff.1 h
      obtain ⟨rfl, rfl⟩ := Prod.mk.inj heq
      exact .escaped c (ih hr)
    | case3 r =>
      obtain ⟨rfl, rfl⟩ := Prod.mk.inj (Option.some.inj h)
      exact .close
    | case4 => cases h
    | case5 c r _ hc hb ih =>
      obtain ⟨⟨s', r'⟩, hr, heq⟩ := Option.map_eq_some_iff.1 h
      obtain ⟨rfl, rfl⟩ := Prod.mk.inj heq
      exact .plain hc hb (ih hr)
  · rintro ⟨hs, rfl⟩
    induction hs with
    | close => rw [List.singleton_append, quotedEnd.eq_3 _ _ _ (fun _ _ h _ => hq h), if_pos rfl]
    | escaped c _ ih => rw [List.cons_append, List.cons_append, quotedEnd, ih, Option.map_some]
    | plain hc hb _ ih =>
      rw [List.cons_append, quotedEnd.eq_3 _ _ _ (fun _ _ h _ => hb h), if_neg hc, if_neg hb, ih,
        Option.map_some]

/-- One more character belongs to a comment unless the comment ends with it. -/
theorem isCommentRest_cons {c : Char} {s : List Char} (hne : ¬(c = '*' ∧ s.head? = some '/')) :
    IsCommentRest (c :: s) ↔ IsCommentRest s := by
  have hsuffix : ∀ s', ¬(c = '*' ∧ s'.head? = some '/') →
      (['*', '/'] <:+ c :: s' ↔ ['*', '/'] <:+ s') := by
    intro s' hs'
    rw [List.suffix_cons_iff]
    constructor
    · rintro (h | h)
      · obtain ⟨rfl, rfl⟩ := List.cons.inj h
        exact absurd ⟨rfl, rfl⟩ hs'
      · exact h
    · exact .inr
  have hhead : ∀ s', s' <+: s → ¬(c = '*' ∧ s'.head? = some '/') := by
    rintro s' ⟨t, rfl⟩ ⟨hc, hs⟩
    refine hne ⟨hc, ?_⟩
    rw [List.head?_append, hs, Option.some_or]
  unfold IsCommentRest
  rw [hsuffix s hne]
  refine and_congr_right fun hs => ⟨fun h s' hp hs' => ?_, fun h s' hp hs' => ?_⟩
  · exact (List.cons.inj (h (c :: s') (List.cons_prefix_cons.2 ⟨rfl, hp⟩)
      ((hsuffix s' (hhead s' hp)).2 hs'))).2
  · cases s' with
    | nil => simp at hs'
    | cons d s' =>
      obtain ⟨rfl, hp'⟩ := List.cons_prefix_cons.1 hp
      rw [h s' hp' ((hsuffix s' (hhead s' hp')).1 hs')]

/-- A comment can end at once. -/
theorem isCommentRest_close : IsCommentRest ['*', '/'] := by
  refine ⟨List.suffix_rfl, fun s' hp hs => ?_⟩
  exact hp.eq_of_length_le hs.length_le

/-- A comment goes on to the first `*/`. -/
theorem commentEnd_eq_some_iff {cs s rest : List Char} :
    commentEnd cs = some (s, rest) ↔ IsCommentRest s ∧ cs = s ++ rest := by
  constructor
  · intro h
    refine ⟨?_, (append_of_commentEnd h).symm⟩
    fun_induction commentEnd cs generalizing s rest with
    | case1 => cases h
    | case2 r =>
      obtain ⟨rfl, rfl⟩ := Prod.mk.inj (Option.some.inj h)
      exact isCommentRest_close
    | case3 c r hne ih =>
      obtain ⟨⟨s', r'⟩, hr, heq⟩ := Option.map_eq_some_iff.1 h
      obtain ⟨rfl, rfl⟩ := Prod.mk.inj heq
      have hcs : ¬(c = '*' ∧ s'.head? = some '/') := by
        rintro ⟨hc, hs⟩
        obtain ⟨s'', rfl⟩ := List.head?_eq_some_iff.1 hs
        exact hne (s'' ++ r') hc (append_of_commentEnd hr).symm
      exact (isCommentRest_cons hcs).2 (ih hr)
  · rintro ⟨hs, rfl⟩
    induction s with
    | nil => exact absurd hs.1 (by simp)
    | cons c s ih =>
      by_cases hc : c = '*' ∧ s.head? = some '/'
      · obtain ⟨rfl, hs'⟩ := hc
        obtain ⟨s', rfl⟩ := List.head?_eq_some_iff.1 hs'
        obtain rfl : s' = [] := by simpa using hs.2 ['*', '/'] ⟨s', rfl⟩ List.suffix_rfl
        rfl
      · have hne : ∀ r, c = '*' → s ++ rest = '/' :: r → False := by
          intro r hc' hr
          cases s with
          | nil => exact absurd hs.1 (by simp [List.suffix_cons_iff])
          | cons d s => exact hc ⟨hc', congrArg some (List.cons.inj hr).1⟩
        rw [List.cons_append, commentEnd.eq_3 _ _ hne, ih ((isCommentRest_cons hc).1 hs),
          Option.map_some]

/-- **What may be cut off the start of a text is what is cut off.** -/
theorem token?_eq_some_iff {cs rest : List Char} {t : Token} :
    token? cs = some (t, rest) ↔ t.Matches rest ∧ cs = t.text ++ rest := by
  constructor
  · intro h
    refine ⟨?_, (append_of_token? h).symm⟩
    rcases token?_cases h with ⟨s, r, -, hr, rfl⟩ | ⟨c, s, r, -, hq, hr, rfl⟩ |
      ⟨c, r, -, hw, rfl, rfl⟩
    · exact ⟨s, rfl, (commentEnd_eq_some_iff.1 hr).1⟩
    · have hb : c ≠ '\\' := by rcases hq with rfl | rfl <;> decide
      exact ⟨c, s, rfl, hq, ((quotedEnd_eq_some_iff hb).1 hr).1⟩
    · refine ⟨List.cons_ne_nil _ _, ?_, fun d hd => ?_⟩
      · rw [List.forall_mem_cons]
        exact ⟨hw, List.all_eq_true.1 List.all_takeWhile⟩
      · have hnot := List.head?_dropWhile_not Text.isWhite r
        rwa [Option.mem_def.1 hd] at hnot
  · rintro ⟨hm, rfl⟩
    cases t with
    | plain text => exact hm.elim
    | comment text =>
      obtain ⟨s, rfl, hs⟩ := hm
      rw [Token.text, List.cons_append, List.cons_append, token?,
        commentEnd_eq_some_iff.2 ⟨hs, rfl⟩, Option.map_some]
    | quoted text =>
      obtain ⟨c, s, rfl, hq, hs⟩ := hm
      have hb : c ≠ '\\' := by rcases hq with rfl | rfl <;> decide
      rw [Token.text, List.cons_append, token?_quote hq,
        (quotedEnd_eq_some_iff hb).2 ⟨hs, rfl⟩, Option.map_some]
    -- White space goes on as far as it can, so what follows it starts with none.
    | space text =>
      obtain ⟨hne, hw, hr⟩ := hm
      cases text with
      | nil => exact absurd rfl hne
      | cons c w =>
        rw [List.forall_mem_cons] at hw
        have hrest : rest.takeWhile Text.isWhite = [] ∧ rest.dropWhile Text.isWhite = rest := by
          cases rest with
          | nil => exact ⟨rfl, rfl⟩
          | cons d r => simp [hr d rfl]
        rw [Token.text, List.cons_append, token?_white hw.1, List.takeWhile_append_of_pos hw.2,
          List.dropWhile_append_of_pos hw.2, hrest.1, hrest.2, List.append_nil]

/-- A token starts where one is read. -/
theorem startsToken_iff {cs : List Char} : StartsToken cs ↔ token? cs ≠ none := by
  rw [Option.ne_none_iff_exists']
  constructor
  · rintro ⟨t, rest, h⟩
    exact ⟨(t, rest), token?_eq_some_iff.2 h⟩
  · rintro ⟨⟨t, rest⟩, h⟩
    exact ⟨t, rest, token?_eq_some_iff.1 h⟩

/-! ### The tokens of a text -/

/-- Plain text in front of a token is a token of its own. -/
theorem consPlain_of_matches {t : Token} {rest : List Char} (hm : t.Matches rest) (c : Char)
    (ts : List Token) : consPlain c (t :: ts) = .plain [c] :: t :: ts := by
  cases t with
  | plain => exact hm.elim
  | quoted => rfl
  | comment => rfl
  | space => rfl

/-- A token is read in front of whatever follows it. -/
theorem tokens_append_of_matches {t : Token} {rest : List Char} (hm : t.Matches rest) :
    tokens (t.text ++ rest) = t :: tokens rest := by
  have h := token?_eq_some_iff.2 ⟨hm, rfl⟩
  cases hcs : t.text ++ rest with
  | nil =>
    rw [hcs] at h
    cases h
  | cons c cs =>
    rw [hcs] at h
    exact tokens_cons_of_some h

/-- Plain text may start one character earlier where no token starts. -/
theorem Leftmost.consPlain {c : Char} {cs : List Char} {ts : List Token} (h : Leftmost cs ts)
    (hc : ¬StartsToken (c :: cs)) : Leftmost (c :: cs) (consPlain c ts) := by
  have hsingle : ∀ v, v <:+ [c] → v ≠ [] → ¬StartsToken (v ++ cs) := by
    intro v hv hne
    rcases List.suffix_cons_iff.1 hv with rfl | hv
    · exact hc
    · exact absurd (List.suffix_nil.1 hv) hne
  cases h with
  | nil => exact .plain (List.cons_ne_nil c []) hsingle (.inl rfl) .nil
  | @token t rest ts hm hl =>
    rw [consPlain_of_matches hm]
    exact .plain (List.cons_ne_nil c []) hsingle (.inr ⟨t, rest, hm, rfl⟩) (.token hm hl)
  | @plain text rest ts hne hv hr hl =>
    have hv' : ∀ v, v <:+ c :: text → v ≠ [] → ¬StartsToken (v ++ rest) := by
      intro v hs hn
      rcases List.suffix_cons_iff.1 hs with rfl | hs
      · exact hc
      · exact hv v hs hn
    exact .plain (List.cons_ne_nil c text) hv' hr hl

/-- Plain text is one token. -/
theorem tokens_plain_append {text rest : List Char} (hne : text ≠ [])
    (hv : ∀ v, v <:+ text → v ≠ [] → ¬StartsToken (v ++ rest)) (hr : rest = [] ∨ StartsToken rest) :
    tokens (text ++ rest) = .plain text :: tokens rest := by
  have hrest : ∀ c, consPlain c (tokens rest) = .plain [c] :: tokens rest := by
    intro c
    rcases hr with rfl | ⟨t, after, hm, rfl⟩
    · rw [tokens, consPlain]
      simp
    · rw [tokens_append_of_matches hm]
      exact consPlain_of_matches hm c _
  induction text with
  | nil => exact absurd rfl hne
  | cons c text ih =>
    have hc : token? (c :: (text ++ rest)) = none := by
      by_contra h
      exact hv (c :: text) List.suffix_rfl hne (startsToken_iff.2 h)
    rw [List.cons_append, tokens_cons_of_none hc]
    cases text with
    | nil => exact hrest c
    | cons d text =>
      rw [ih (List.cons_ne_nil d text) fun v hs hn => hv v (hs.trans (List.suffix_cons c _)) hn,
        consPlain]

/-- **A text falls into leftmost matches in one way,** which is how it is cut. -/
theorem leftmost_iff {cs : List Char} {ts : List Token} : Leftmost cs ts ↔ ts = tokens cs := by
  constructor
  · intro h
    induction h with
    | nil => rw [tokens]
    | token hm _ ih => rw [tokens_append_of_matches hm, ih]
    | plain hne hv hr _ ih => rw [tokens_plain_append hne hv hr, ih]
  · rintro rfl
    fun_induction tokens cs with
    | case1 => exact .nil
    | case2 c rest t after h _ ih =>
      obtain ⟨hm, hcs⟩ := token?_eq_some_iff.1 h
      rw [hcs]
      exact .token hm ih
    | case3 c rest h ih => exact ih.consPlain fun hs => startsToken_iff.1 hs h

/-- What a text falls into: tokens that may be cut off, and plain text. -/
theorem Leftmost.mem {cs : List Char} {ts : List Token} (h : Leftmost cs ts) {t : Token}
    (ht : t ∈ ts) : (∃ rest, t.Matches rest) ∨ ∃ text, t = .plain text ∧ text ≠ [] := by
  induction h with
  | nil => cases ht
  | @token u rest ts hm _ ih =>
    rcases List.mem_cons.1 ht with rfl | ht
    · exact .inl ⟨rest, hm⟩
    · exact ih ht
  | @plain text rest ts hne _ _ _ ih =>
    rcases List.mem_cons.1 ht with rfl | ht
    · exact .inr ⟨text, rfl, hne⟩
    · exact ih ht

/-- No match is empty. -/
theorem Leftmost.text_ne_nil {cs : List Char} {ts : List Token} (h : Leftmost cs ts) :
    ∀ t ∈ ts, t.text ≠ [] := by
  intro t ht
  rcases h.mem ht with ⟨rest, hm⟩ | ⟨text, rfl, hne⟩
  · exact text_ne_nil_of_token? (token?_eq_some_iff.2 ⟨hm, rfl⟩)
  · exact hne

/-- **Cutting always takes the leftmost token.** -/
theorem leftmost_tokens (cs : List Char) : Leftmost cs (tokens cs) := leftmost_iff.2 rfl

end Css
end StyleLowering
