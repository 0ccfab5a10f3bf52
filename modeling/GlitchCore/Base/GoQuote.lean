import GlitchCore.Base.GoText

/-!
# Go's quoted strings

`strconv.Quote`, which `%q` prints with. A quoted body never holds a bare quote, and a backslash in it always
stands before a character that is not a line break; that is all a reader of the quotes needs, whatever
`strconv.IsPrint` says.
-/

namespace GoQuote

open GoText

/-- What a `range` over a string meets: a rune, or a byte that is not UTF-8. -/
inductive Symbol where
  | rune (c : Char)
  | byte (b : UInt8)

def hex : (width n : Nat) → Text
  | 0, _ => []
  | width + 1, n => hex width (n / 16) ++ [Nat.digitChar (n % 16)]

/-- `appendEscapedRune` with the double quote. -/
def escapeRune (isPrint : Char → Bool) (c : Char) : Text :=
  if c = '"' ∨ c = '\\' then ['\\', c]
  else if isPrint c then [c]
  else if c.toNat = 0x07 then ['\\', 'a']
  else if c.toNat = 0x08 then ['\\', 'b']
  else if c.toNat = 0x0c then ['\\', 'f']
  else if c = '\n' then ['\\', 'n']
  else if c = '\r' then ['\\', 'r']
  else if c = '\t' then ['\\', 't']
  else if c.toNat = 0x0b then ['\\', 'v']
  else if c.toNat < 0x20 ∨ c.toNat = 0x7f then '\\' :: 'x' :: hex 2 c.toNat
  else if c.toNat < 0x10000 then '\\' :: 'u' :: hex 4 c.toNat
  else '\\' :: 'U' :: hex 8 c.toNat

def escape (isPrint : Char → Bool) : Symbol → Text
  | .rune c => escapeRune isPrint c
  | .byte b => '\\' :: 'x' :: hex 2 b.toNat

/-- `strconv.Quote`; `isPrint` is `strconv.IsPrint`. -/
def quote (isPrint : Char → Bool) (s : List Symbol) : Text := '"' :: s.flatMap (escape isPrint) ++ ['"']

/-- A piece of a quoted body: a plain character, or a backslash with the one after it. -/
inductive Piece : Text → Prop
  | plain {c : Char} : c ≠ '"' → c ≠ '\\' → Piece [c]
  | escaped {c : Char} : c ≠ '\n' → Piece ['\\', c]

inductive Pieces : Text → Prop
  | nil : Pieces []
  | cons {w s : Text} : Piece w → Pieces s → Pieces (w ++ s)

theorem Pieces.append {s t : Text} (hs : Pieces s) (ht : Pieces t) : Pieces (s ++ t) := by
  induction hs with
  | nil => exact ht
  | cons hw _ ih =>
      rw [List.append_assoc]
      exact .cons hw ih

theorem digitChar_plain {n : Nat} (hn : n < 16) : Nat.digitChar n ≠ '"' ∧ Nat.digitChar n ≠ '\\' := by
  have hall : ∀ i : Fin 16, Nat.digitChar i ≠ '"' ∧ Nat.digitChar i ≠ '\\' := by decide
  exact hall ⟨n, hn⟩

theorem pieces_hex (width n : Nat) : Pieces (hex width n) := by
  induction width generalizing n with
  | zero => exact .nil
  | succ width ih =>
      obtain ⟨hquote, hback⟩ := digitChar_plain (Nat.mod_lt n (by decide))
      exact (ih (n / 16)).append (.cons (.plain hquote hback) .nil)

/-- An escape letter and the digits after it. -/
theorem pieces_escaped {c : Char} (hc : c ≠ '\n') {s : Text} (hs : Pieces s) : Pieces ('\\' :: c :: s) :=
  Pieces.cons (.escaped hc) hs

theorem pieces_escapeRune (isPrint : Char → Bool) (c : Char) : Pieces (escapeRune isPrint c) := by
  unfold escapeRune
  by_cases hquoted : c = '"' ∨ c = '\\'
  · rw [if_pos hquoted]
    refine pieces_escaped ?_ .nil
    rintro rfl
    exact absurd hquoted (by decide)
  rw [if_neg hquoted]
  split_ifs
  · exact .cons (.plain (fun h => hquoted (.inl h)) fun h => hquoted (.inr h)) .nil
  all_goals
    first
    | exact pieces_escaped (by decide) .nil
    | exact pieces_escaped (by decide) (pieces_hex ..)

theorem pieces_escape (isPrint : Char → Bool) (s : List Symbol) : Pieces (s.flatMap (escape isPrint)) := by
  induction s with
  | nil => exact .nil
  | cons a s ih =>
      rw [List.flatMap_cons]
      refine Pieces.append ?_ ih
      cases a with
      | rune c => exact pieces_escapeRune isPrint c
      | byte b => exact pieces_escaped (by decide) (pieces_hex ..)

end GoQuote
