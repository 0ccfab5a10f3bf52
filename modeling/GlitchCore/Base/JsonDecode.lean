import GlitchCore.Base.Encoding

/-!
# JSON as the standard library reads it

`encoding/json` on a text: values nested up to 10000 deep, strings with their escapes, numbers kept as they are
written. An object keeps its members in order; of two members with one name the last counts.
-/

namespace JsonDecode

open GoText Encoding

inductive Json where
  | null
  | bool (b : Bool)
  | number (literal : Text)
  | string (s : Text)
  | array (items : List Json)
  | object (members : List (Text × Json))

def isJsonSpace (c : Char) : Bool := c == ' ' || c == '\t' || c == '\n' || c == '\r'

def skipSpace (s : Text) : Text := s.dropWhile isJsonSpace

/-! ### Strings -/

def hex4 (a b c d : Char) : Option Nat := do
  return 4096 * (← unhex a) + 256 * (← unhex b) + 16 * (← unhex c) + (← unhex d)

def isHighSurrogate (n : Nat) : Bool := 0xd800 ≤ n && n < 0xdc00

def isLowSurrogate (n : Nat) : Bool := 0xdc00 ≤ n && n < 0xe000

def replacement : Char := Char.ofNat 0xfffd

def simpleEscape (c : Char) : Option Char :=
  if c = '"' ∨ c = '\\' ∨ c = '/' then some c
  else if c = 'b' then some (Char.ofNat 8)
  else if c = 'f' then some (Char.ofNat 12)
  else if c = 'n' then some '\n'
  else if c = 'r' then some '\r'
  else if c = 't' then some '\t'
  else none

/-- A string behind its opening quote, and what follows its closing one. Half of a surrogate pair reads as
U+FFFD. -/
def stringBody : Text → Option (Text × Text)
  | [] => none
  | c :: rest =>
      if c = '"' then some ([], rest)
      else if c = '\\' then
        match rest with
        | 'u' :: h1 :: h2 :: h3 :: h4 :: rest =>
            (hex4 h1 h2 h3 h4).bind fun n =>
              if isHighSurrogate n then
                match rest with
                | '\\' :: 'u' :: l1 :: l2 :: l3 :: l4 :: rest' =>
                    match (hex4 l1 l2 l3 l4).filter isLowSurrogate with
                    | some m =>
                        (stringBody rest').map fun (s, after) =>
                          (Char.ofNat (0x10000 + 1024 * (n - 0xd800) + (m - 0xdc00)) :: s, after)
                    | none =>
                        (stringBody ('\\' :: 'u' :: l1 :: l2 :: l3 :: l4 :: rest')).map fun (s, after) =>
                          (replacement :: s, after)
                | rest => (stringBody rest).map fun (s, after) => (replacement :: s, after)
              else
                (stringBody rest).map fun (s, after) =>
                  ((if isLowSurrogate n then replacement else Char.ofNat n) :: s, after)
        | e :: rest =>
            (simpleEscape e).bind fun c => (stringBody rest).map fun (s, after) => (c :: s, after)
        | [] => none
      else if c.toNat < 32 then none
      else (stringBody rest).map fun (s, after) => (c :: s, after)

/-! ### Numbers -/

/-- The digits at the front of a text, at least one. -/
def digits1 (s : Text) : Option (Text × Text) :=
  let digits := s.takeWhile Char.isDigit
  if digits = [] then none else some (digits, s.drop digits.length)

def integerPart (s : Text) : Option (Text × Text) :=
  match s with
  | '0' :: rest => some (['0'], rest)
  | _ => digits1 s

def fractionPart (s : Text) : Option (Text × Text) :=
  match s with
  | '.' :: rest => (digits1 rest).map fun (digits, rest) => ('.' :: digits, rest)
  | _ => some ([], s)

def exponentPart (s : Text) : Option (Text × Text) :=
  match s with
  | e :: rest =>
      if e = 'e' ∨ e = 'E' then
        let (sign, rest) := match rest with
          | '+' :: rest => (['+'], rest)
          | '-' :: rest => (['-'], rest)
          | rest => ([], rest)
        (digits1 rest).map fun (digits, rest) => (e :: sign ++ digits, rest)
      else some ([], s)
  | [] => some ([], [])

def numberLiteral (s : Text) : Option (Text × Text) := do
  let (sign, rest) := match s with
    | '-' :: rest => (['-'], rest)
    | rest => ([], rest)
  let (integer, rest) ← integerPart rest
  let (fraction, rest) ← fractionPart rest
  let (exponent, rest) ← exponentPart rest
  return (sign ++ integer ++ fraction ++ exponent, rest)

/-! ### Values -/

def keyword (word : Text) (v : Json) (s : Text) : Option (Json × Text) :=
  if word.isPrefixOf s then some (v, s.drop word.length) else none

mutual

/-- A value and what follows it; `depth` is how far values may still nest. -/
def value : Nat → Nat → Text → Option (Json × Text)
  | 0, _, _ => none
  | fuel + 1, depth, s =>
      match skipSpace s with
      | '"' :: rest => (stringBody rest).map fun (s, after) => (.string s, after)
      | '\x7b' :: rest =>
          if depth = 0 then none
          else match skipSpace rest with
            | '\x7d' :: after => some (.object [], after)
            | rest => (members fuel (depth - 1) rest).map fun (ms, after) => (.object ms, after)
      | '[' :: rest =>
          if depth = 0 then none
          else match skipSpace rest with
            | ']' :: after => some (.array [], after)
            | rest => (items fuel (depth - 1) rest).map fun (vs, after) => (.array vs, after)
      | 't' :: rest => keyword "true".toList (.bool true) ('t' :: rest)
      | 'f' :: rest => keyword "false".toList (.bool false) ('f' :: rest)
      | 'n' :: rest => keyword "null".toList .null ('n' :: rest)
      | rest => (numberLiteral rest).map fun (literal, after) => (.number literal, after)

def members : Nat → Nat → Text → Option (List (Text × Json) × Text)
  | 0, _, _ => none
  | fuel + 1, depth, s =>
      match skipSpace s with
      | '"' :: rest =>
          (stringBody rest).bind fun (key, rest) =>
            match skipSpace rest with
            | ':' :: rest =>
                (value fuel depth rest).bind fun (v, rest) =>
                  match skipSpace rest with
                  | ',' :: rest => (members fuel depth rest).map fun (ms, after) => ((key, v) :: ms, after)
                  | '\x7d' :: after => some ([(key, v)], after)
                  | _ => none
            | _ => none
      | _ => none

def items : Nat → Nat → Text → Option (List Json × Text)
  | 0, _, _ => none
  | fuel + 1, depth, s =>
      (value fuel depth s).bind fun (v, rest) =>
        match skipSpace rest with
        | ',' :: rest => (items fuel depth rest).map fun (vs, after) => (v :: vs, after)
        | ']' :: after => some ([v], after)
        | _ => none

end

/-- `Decoder.Decode` up to the value, and what stays in the buffer behind it; of two calls in a row at least one reads
a rune, so the fuel never runs out first. -/
def decode (s : Text) : Option (Json × Text) := value (2 * s.length + 2) 10000 s

/-- `Decoder.More`: whether another value follows in the array or object being read, so never before the bracket that
closes one. -/
def more (rest : Text) : Bool :=
  match skipSpace rest with
  | [] => false
  | c :: _ => c != ']' && c != '\x7d'

/-- `json.Unmarshal`. -/
def unmarshal (s : Text) : Option Json :=
  (value (2 * s.length + 2) 10000 s).bind fun (v, rest) => if skipSpace rest = [] then some v else none

/-- `json.Unmarshal` into a map: an object, or `null` for none. -/
def unmarshalObject (s : Text) : Option (List (Text × Json)) :=
  match unmarshal s with
  | some (.object ms) => some ms
  | some .null => some []
  | _ => none

/-- The member of an object, the last of that name. -/
def member (ms : List (Text × Json)) (key : Text) : Option Json :=
  ((ms.filter fun kv => kv.1 = key).getLast?).map (·.2)

/-! ### What a value holds -/

/-- The text stands in the value, at whatever depth. -/
inductive Holds (s : Text) : Json → Prop
  | here : Holds s (.string s)
  | item {v : Json} {items : List Json} : v ∈ items → Holds s v → Holds s (.array items)
  | member {e : Text × Json} {ms : List (Text × Json)} : e ∈ ms → Holds s e.2 → Holds s (.object ms)

/-- The text stands under a key of the set, at whatever depth. -/
inductive Under (p : Text → Bool) (s : Text) : Json → Prop
  | key {e : Text × Json} {ms : List (Text × Json)} : e ∈ ms → p e.1 = true → Holds s e.2 → Under p s (.object ms)
  | item {v : Json} {items : List Json} : v ∈ items → Under p s v → Under p s (.array items)
  | member {e : Text × Json} {ms : List (Text × Json)} : e ∈ ms → Under p s e.2 → Under p s (.object ms)

theorem unmarshal_eq_some {s : Text} {v : Json} :
    unmarshal s = some v ↔ ∃ rest, decode s = some (v, rest) ∧ skipSpace rest = [] := by
  constructor
  · intro h
    obtain ⟨⟨v', rest⟩, hdecode, hrest⟩ := Option.bind_eq_some_iff.mp h
    obtain ⟨hspace, rfl⟩ : skipSpace rest = [] ∧ v' = v := by simpa using hrest
    exact ⟨rest, hdecode, hspace⟩
  · rintro ⟨rest, hdecode, hspace⟩
    refine Option.bind_eq_some_iff.mpr ⟨(v, rest), hdecode, ?_⟩
    simp [hspace]

theorem more_eq_false {rest : Text} : more rest = false ↔
    skipSpace rest = [] ∨ (skipSpace rest).head? = some ']' ∨ (skipSpace rest).head? = some '\x7d' := by
  unfold more
  cases skipSpace rest with
  | nil => simp
  | cons c rest =>
      simp only [List.head?_cons, Option.some.injEq, reduceCtorEq, false_or]
      by_cases hbracket : c = ']'
      · simp [hbracket]
      · simp [hbracket]

end JsonDecode
