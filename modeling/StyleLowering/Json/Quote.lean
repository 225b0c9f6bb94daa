/-
# JSON strings as written

Quotes and backslashes are escaped, and so are the characters below U+0020: by
a letter where JSON has one, else by four lower-case hexadecimal digits.  Every
other character is written as it is.
-/

namespace StyleLowering
namespace Json

/-- The hexadecimal digit of value `n`, for `n < 16`. -/
def lowerHex (n : Nat) : Char :=
  if n < 10 then Char.ofNat (48 + n) else Char.ofNat (87 + n)

/-- A character as it is written inside a string. -/
def escape : Char → List Char
  | '"' => ['\\', '"']
  | '\\' => ['\\', '\\']
  | '\x08' => ['\\', 'b']
  | '\x0c' => ['\\', 'f']
  | '\n' => ['\\', 'n']
  | '\r' => ['\\', 'r']
  | '\t' => ['\\', 't']
  | c =>
    if c.toNat < 0x20 then
      ['\\', 'u', '0', '0', lowerHex (c.toNat / 16), lowerHex (c.toNat % 16)]
    else [c]

/-- A text as a JSON string. -/
def quote (cs : List Char) : List Char :=
  '"' :: cs.flatMap escape ++ ['"']

example : quote "a\"\\\n\x1f</é".toList = "\"a\\\"\\\\\\n\\u001f</é\"".toList := by decide

end Json
end StyleLowering
