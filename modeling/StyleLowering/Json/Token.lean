/-
# Tokens of a JSON text

A JSON text is cut into brackets, separators, words, numbers and strings, with
the four JSON blanks between them.  A string is read as it stands: an escaped
code unit is kept as a number first, and only then are the units of the string
put together to characters, which fails on a lone surrogate.  A text that only
skips over such a string does not mind it.
-/

namespace StyleLowering
namespace Json

/-- A token; the characters of a string are `none` when one of its escapes is a
surrogate without its partner. -/
inductive Token where
  | openBrace
  | closeBrace
  | openBracket
  | closeBracket
  | colon
  | comma
  | null
  | bool (b : Bool)
  | number (text : List Char)
  | string (chars : Option (List Char))
  deriving DecidableEq, Repr

/-- The blanks of JSON: space, line feed, carriage return and tab. -/
def isBlank (c : Char) : Bool :=
  c == ' ' || c == '\n' || c == '\r' || c == '\t'

/-- The value of a hexadecimal digit. -/
def hexDigit? (c : Char) : Option Nat :=
  if '0' ≤ c ∧ c ≤ '9' then some (c.toNat - 48)
  else if 'a' ≤ c ∧ c ≤ 'f' then some (c.toNat - 87)
  else if 'A' ≤ c ∧ c ≤ 'F' then some (c.toNat - 55)
  else none

/-- The value of four hexadecimal digits. -/
def hex4? (a b c d : Char) : Option Nat := do
  let a ← hexDigit? a
  let b ← hexDigit? b
  let c ← hexDigit? c
  let d ← hexDigit? d
  return ((a * 16 + b) * 16 + c) * 16 + d

/-- One item of a string: a character, or a code unit given by its number. -/
inductive StringUnit where
  | char (c : Char)
  | unit (n : Nat)
  deriving DecidableEq, Repr

/-- The character that a backslash and one letter stand for. -/
def simpleEscape? : Char → Option Char
  | '"' => some '"'
  | '\\' => some '\\'
  | '/' => some '/'
  | 'b' => some '\x08'
  | 'f' => some '\x0c'
  | 'n' => some '\n'
  | 'r' => some '\r'
  | 't' => some '\t'
  | _ => none

/-- The items of a string and what follows its closing quote, read from behind
the opening one.  Control characters have to be escaped. -/
def stringUnits : List Char → Option (List StringUnit × List Char)
  | [] => none
  | '"' :: rest => some ([], rest)
  | '\\' :: 'u' :: a :: b :: c :: d :: rest => do
    let n ← hex4? a b c d
    let (us, rest) ← stringUnits rest
    return (.unit n :: us, rest)
  | '\\' :: e :: rest => do
    let c ← simpleEscape? e
    let (us, rest) ← stringUnits rest
    return (.char c :: us, rest)
  | c :: rest =>
    if c.toNat < 0x20 || c = '\\' then none
    else (stringUnits rest).map fun (us, rest) => (.char c :: us, rest)

/-- Reading a string uses up characters. -/
theorem stringUnits_length_lt {cs rest : List Char} {us : List StringUnit}
    (h : stringUnits cs = some (us, rest)) : rest.length < cs.length := by
  fun_induction stringUnits cs generalizing us rest with
  | case1 => simp at h
  | case2 r =>
    obtain ⟨-, rfl⟩ := Prod.mk.inj (Option.some.inj h)
    simp
  | case3 a b c d r ih =>
    simp only [Option.bind_eq_bind, Option.bind_eq_some_iff, Prod.exists] at h
    obtain ⟨n, -, vs, r', hr, heq⟩ := h
    obtain ⟨-, rfl⟩ := Prod.mk.inj (Option.some.inj heq)
    have := ih hr
    simp only [List.length_cons]
    omega
  | case4 e r _ ih =>
    simp only [Option.bind_eq_bind, Option.bind_eq_some_iff, Prod.exists] at h
    obtain ⟨c, -, vs, r', hr, heq⟩ := h
    obtain ⟨-, rfl⟩ := Prod.mk.inj (Option.some.inj heq)
    have := ih hr
    simp only [List.length_cons]
    omega
  | case5 => simp at h
  | case6 c r _ _ _ _ ih =>
    obtain ⟨⟨vs, r'⟩, hr, heq⟩ := Option.map_eq_some_iff.1 h
    obtain ⟨-, rfl⟩ := Prod.mk.inj heq
    have := ih hr
    simp only [List.length_cons]
    omega

/-- The characters of a string: a leading surrogate needs a trailing one right
behind it, and a trailing one cannot stand alone. -/
def charsOfUnits : List StringUnit → Option (List Char)
  | [] => some []
  | .char c :: us => (charsOfUnits us).map (c :: ·)
  | .unit hi :: .unit lo :: us =>
    if 0xD800 ≤ hi ∧ hi < 0xDC00 then
      if 0xDC00 ≤ lo ∧ lo < 0xE000 then
        (charsOfUnits us).map
          (Char.ofNat (0x10000 + (hi - 0xD800) * 0x400 + (lo - 0xDC00)) :: ·)
      else none
    else if 0xDC00 ≤ hi ∧ hi < 0xE000 then none
    else (charsOfUnits (.unit lo :: us)).map (Char.ofNat hi :: ·)
  | .unit n :: us =>
    if 0xD800 ≤ n ∧ n < 0xE000 then none
    else (charsOfUnits us).map (Char.ofNat n :: ·)

/-- What follows a run of at least one digit. -/
def afterDigits? : List Char → Option (List Char)
  | c :: rest => if c.isDigit then some (rest.dropWhile Char.isDigit) else none
  | [] => none

/-- What follows the digits before the point: a lone zero, or digits that do not
start with one. -/
def afterInteger? : List Char → Option (List Char)
  | '0' :: rest => some rest
  | cs => afterDigits? cs

/-- What follows an optional fraction. -/
def afterFraction? : List Char → Option (List Char)
  | '.' :: rest => afterDigits? rest
  | cs => some cs

/-- What follows an optional exponent. -/
def afterExponent? : List Char → Option (List Char)
  | 'e' :: '+' :: rest | 'e' :: '-' :: rest | 'E' :: '+' :: rest | 'E' :: '-' :: rest =>
    afterDigits? rest
  | 'e' :: rest | 'E' :: rest => afterDigits? rest
  | cs => some cs

/-- What follows a number. -/
def afterNumber? (cs : List Char) : Option (List Char) := do
  let cs ← afterInteger? (match cs with | '-' :: rest => rest | _ => cs)
  let cs ← afterFraction? cs
  afterExponent? cs

/-- What is left behind some characters is no longer than the text. -/
theorem length_dropWhile_le (p : Char → Bool) (cs : List Char) :
    (cs.dropWhile p).length ≤ cs.length :=
  (List.dropWhile_sublist p).length_le

/-- Reading digits uses up characters. -/
theorem afterDigits?_length_lt {cs rest : List Char} (h : afterDigits? cs = some rest) :
    rest.length < cs.length := by
  cases cs with
  | nil => simp [afterDigits?] at h
  | cons c cs =>
    simp only [afterDigits?, Option.ite_none_right_eq_some, Option.some.injEq] at h
    obtain ⟨-, rfl⟩ := h
    have := length_dropWhile_le Char.isDigit cs
    simp only [List.length_cons]
    omega

/-- Reading an integer uses up characters. -/
theorem afterInteger?_length_lt {cs rest : List Char} (h : afterInteger? cs = some rest) :
    rest.length < cs.length := by
  unfold afterInteger? at h
  split at h
  · obtain rfl := Option.some.inj h
    simp
  · exact afterDigits?_length_lt h

/-- Reading a fraction, which may be missing, gives no characters back. -/
theorem afterFraction?_length_le {cs rest : List Char} (h : afterFraction? cs = some rest) :
    rest.length ≤ cs.length := by
  unfold afterFraction? at h
  split at h
  · have := afterDigits?_length_lt h
    simp only [List.length_cons]
    omega
  · obtain rfl := Option.some.inj h
    exact Nat.le_refl _

/-- Reading an exponent, which may be missing, gives no characters back. -/
theorem afterExponent?_length_le {cs rest : List Char} (h : afterExponent? cs = some rest) :
    rest.length ≤ cs.length := by
  unfold afterExponent? at h
  split at h
  case h_7 =>
    obtain rfl := Option.some.inj h
    exact Nat.le_refl _
  all_goals
    have := afterDigits?_length_lt h
    simp only [List.length_cons]
    omega

/-- Reading a number uses up characters. -/
theorem afterNumber?_length_lt {cs rest : List Char} (h : afterNumber? cs = some rest) :
    rest.length < cs.length := by
  simp only [afterNumber?, Option.bind_eq_bind, Option.bind_eq_some_iff] at h
  obtain ⟨r₁, h₁, r₂, h₂, h₃⟩ := h
  have h₁ := afterInteger?_length_lt h₁
  have h₂ := afterFraction?_length_le h₂
  have h₃ := afterExponent?_length_le h₃
  split at h₁
  · simp only [List.length_cons]
    omega
  · omega

/-- The tokens of a text, `none` if some part of it is no token. -/
def tokens (cs : List Char) : Option (List Token) :=
  match cs with
  | [] => some []
  | '{' :: rest => (tokens rest).map (.openBrace :: ·)
  | '}' :: rest => (tokens rest).map (.closeBrace :: ·)
  | '[' :: rest => (tokens rest).map (.openBracket :: ·)
  | ']' :: rest => (tokens rest).map (.closeBracket :: ·)
  | ':' :: rest => (tokens rest).map (.colon :: ·)
  | ',' :: rest => (tokens rest).map (.comma :: ·)
  | 'n' :: 'u' :: 'l' :: 'l' :: rest => (tokens rest).map (.null :: ·)
  | 't' :: 'r' :: 'u' :: 'e' :: rest => (tokens rest).map (.bool true :: ·)
  | 'f' :: 'a' :: 'l' :: 's' :: 'e' :: rest => (tokens rest).map (.bool false :: ·)
  | '"' :: rest =>
    match h : stringUnits rest with
    | some (us, after) =>
      have := stringUnits_length_lt h
      (tokens after).map (.string (charsOfUnits us) :: ·)
    | none => none
  | c :: rest =>
    if isBlank c then tokens rest
    else
      match h : afterNumber? (c :: rest) with
      | some after =>
        have := afterNumber?_length_lt h
        (tokens after).map
          (.number ((c :: rest).take ((c :: rest).length - after.length)) :: ·)
      | none => none
termination_by cs.length
decreasing_by all_goals simp only [List.length_cons] at *; omega

end Json
end StyleLowering
