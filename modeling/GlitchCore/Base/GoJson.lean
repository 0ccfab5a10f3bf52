import GlitchCore.Base.GoText

/-!
# JSON as the standard library writes it

`encoding/json` on texts and on objects of texts: control characters, quotes and backslashes are escaped, and
so are the runes a browser could read as markup.
-/

namespace GoJson

open GoText

def hexDigit (n : Nat) : Char := if n < 10 then Char.ofNat (48 + n) else Char.ofNat (87 + n)

def escapeRune (c : Char) : Text :=
  if c = '"' ∨ c = '\\' then ['\\', c]
  else if c = '\n' then "\\n".toList
  else if c = '\r' then "\\r".toList
  else if c = '\t' then "\\t".toList
  else if c.toNat = 8 then "\\b".toList
  else if c.toNat = 12 then "\\f".toList
  else if c.toNat < 32 ∨ c = '<' ∨ c = '>' ∨ c = '&' then
    "\\u00".toList ++ [hexDigit (c.toNat / 16), hexDigit (c.toNat % 16)]
  else if c.toNat = 0x2028 then "\\u2028".toList
  else if c.toNat = 0x2029 then "\\u2029".toList
  else [c]

def encodeText (s : Text) : Text := "\"".toList ++ s.flatMap escapeRune ++ "\"".toList

/-- An object whose empty members are left out. -/
def encodeObject (members : List (Text × Text)) : Text :=
  let written := (members.filter fun kv => kv.2 ≠ []).map fun kv => encodeText kv.1 ++ ":".toList ++ encodeText kv.2
  "\x7b".toList ++ join ",".toList written ++ "\x7d".toList

example : encodeObject [("ipv4".toList, "192.0.2.7".toList), ("ipv6".toList, []), ("e".toList, "a<\"".toList)]
    = "\x7b\"ipv4\":\"192.0.2.7\",\"e\":\"a\\u003c\\\"\"\x7d".toList := by decide

end GoJson
