import GlitchCore.Base.GoJson
import GlitchCore.Base.JsonDecode

/-!
# What the standard library writes, it reads back

`encoding/json` writes a value without white space, the members of an object in the order they are given. A reader
that stands at such a text takes exactly the value off its front, whatever follows it, as long as what follows does
not go on with a number and the value nests no deeper than the reader goes.
-/

namespace GoJson

open GoText JsonDecode Encoding

mutual

def write : Json → Text
  | .null => "null".toList
  | .bool true => "true".toList
  | .bool false => "false".toList
  | .number literal => literal
  | .string s => encodeText s
  | .array vs => '[' :: (join ",".toList (writeItems vs) ++ "]".toList)
  | .object ms => '\x7b' :: (join ",".toList (writeMembers ms) ++ "\x7d".toList)

def writeItems : List Json → List Text
  | [] => []
  | v :: vs => write v :: writeItems vs

def writeMembers : List (Text × Json) → List Text
  | [] => []
  | (key, v) :: ms => (encodeText key ++ ':' :: write v) :: writeMembers ms

end

/-- `strconv.FormatInt` in base ten. -/
def formatInt (n : Int) : Text := if n < 0 then '-' :: itoa n.natAbs else itoa n.natAbs

mutual

/-- Every number is an integer, and arrays and objects nest no deeper than this. -/
def Fits : Json → Nat → Prop
  | .null, _ => True
  | .bool _, _ => True
  | .number literal, _ => ∃ n, literal = formatInt n
  | .string _, _ => True
  | .array vs, d => 0 < d ∧ FitsItems vs (d - 1)
  | .object ms, d => 0 < d ∧ FitsMembers ms (d - 1)

def FitsItems : List Json → Nat → Prop
  | [], _ => True
  | v :: vs, d => Fits v d ∧ FitsItems vs d

def FitsMembers : List (Text × Json) → Nat → Prop
  | [], _ => True
  | (_, v) :: ms, d => Fits v d ∧ FitsMembers ms d

end

theorem fits_array {vs : List Json} {d : Nat} (h : ∀ v ∈ vs, Fits v d) : Fits (.array vs) (d + 1) := by
  refine ⟨Nat.succ_pos d, ?_⟩
  rw [Nat.add_sub_cancel]
  induction vs with
  | nil => trivial
  | cons v vs ih => exact ⟨h v (List.mem_cons_self ..), ih fun w hw => h w (List.mem_cons_of_mem _ hw)⟩

theorem fits_object {ms : List (Text × Json)} {d : Nat} (h : ∀ m ∈ ms, Fits m.2 d) : Fits (.object ms) (d + 1) := by
  refine ⟨Nat.succ_pos d, ?_⟩
  rw [Nat.add_sub_cancel]
  induction ms with
  | nil => trivial
  | cons m ms ih => exact ⟨h m (List.mem_cons_self ..), ih fun w hw => h w (List.mem_cons_of_mem _ hw)⟩

/-! ### Strings -/

theorem unhex_hexDigit {n : Nat} (hn : n < 16) : unhex (hexDigit n) = some n := by
  have hall : ∀ n < 16, unhex (hexDigit n) = some n := by decide
  exact hall n hn

theorem stringBody_quote (rest : Text) : stringBody ('"' :: rest) = some ([], rest) := by
  unfold stringBody
  rfl

theorem stringBody_plain {c : Char} (hquote : c ≠ '"') (hslash : c ≠ '\\') (hcontrol : 32 ≤ c.toNat) (rest : Text) :
    stringBody (c :: rest) = (stringBody rest).map fun p => (c :: p.1, p.2) := by
  rw [stringBody.eq_def]
  simp only
  rw [if_neg hquote, if_neg hslash, if_neg (by omega)]

theorem stringBody_simple {e c : Char} (he : simpleEscape e = some c) (hu : e ≠ 'u') (rest : Text) :
    stringBody ('\\' :: e :: rest) = (stringBody rest).map fun p => (c :: p.1, p.2) := by
  rw [stringBody.eq_def]
  simp [he, hu]

theorem stringBody_unicode {h1 h2 h3 h4 : Char} {n : Nat} (hhex : hex4 h1 h2 h3 h4 = some n) (hn : n < 0xd800) (rest : Text) :
    stringBody ('\\' :: 'u' :: h1 :: h2 :: h3 :: h4 :: rest) =
      (stringBody rest).map fun p => (Char.ofNat n :: p.1, p.2) := by
  have hhigh : isHighSurrogate n = false := by
    rw [isHighSurrogate, decide_eq_false (by omega), Bool.false_and]
  have hlow : isLowSurrogate n = false := by
    rw [isLowSurrogate, decide_eq_false (by omega), Bool.false_and]
  rw [stringBody.eq_def]
  simp [hhex, hhigh, hlow]

theorem toNat_of_markup {c : Char} (h : c.toNat < 32 ∨ c = '<' ∨ c = '>' ∨ c = '&') : c.toNat < 256 := by
  obtain hcontrol | rfl | rfl | rfl := h
  · omega
  all_goals decide

theorem hex4_rune {n : Nat} (hn : n < 256) : hex4 '0' '0' (hexDigit (n / 16)) (hexDigit (n % 16)) = some n := by
  have hzero : unhex '0' = some 0 := by decide
  have hvalue : 16 * (n / 16) + n % 16 = n := by omega
  unfold hex4
  rw [hzero, unhex_hexDigit (by omega), unhex_hexDigit (by omega)]
  simp [hvalue]

theorem stringBody_escapeRune (c : Char) (rest : Text) :
    stringBody (escapeRune c ++ rest) = (stringBody rest).map fun p => (c :: p.1, p.2) := by
  have hof : ∀ n, c.toNat = n → Char.ofNat n = c := fun n h => h ▸ Char.ofNat_toNat c
  unfold escapeRune
  split
  · rename_i hquoted
    obtain rfl | rfl := hquoted <;> exact stringBody_simple (by decide) (by decide) rest
  iterate 3
    split
    · subst c
      exact stringBody_simple (by decide) (by decide) rest
  split
  · rw [← hof 8 ‹_›]
    exact stringBody_simple (by decide) (by decide) rest
  split
  · rw [← hof 12 ‹_›]
    exact stringBody_simple (by decide) (by decide) rest
  split
  · rename_i hmarkup
    have hsmall := toNat_of_markup hmarkup
    have hbody := stringBody_unicode (hex4_rune hsmall) (by omega) rest
    rwa [Char.ofNat_toNat] at hbody
  split
  · rw [← hof 0x2028 ‹_›]
    exact stringBody_unicode (by decide) (by decide) rest
  split
  · rw [← hof 0x2029 ‹_›]
    exact stringBody_unicode (by decide) (by decide) rest
  · rename_i hquoted _ _ _ _ _ hmarkup _ _
    exact stringBody_plain (fun h => hquoted (.inl h)) (fun h => hquoted (.inr h)) (by omega) rest

theorem stringBody_encoded (s rest : Text) : stringBody (s.flatMap escapeRune ++ '"' :: rest) = some (s, rest) := by
  induction s with
  | nil =>
      rw [List.flatMap_nil, List.nil_append, stringBody_quote]
  | cons c s ih =>
      rw [List.flatMap_cons, List.append_assoc, stringBody_escapeRune, ih]
      rfl

/-! ### Numbers -/

/-- A text that does not go on with a number in front of it. -/
def Stops (rest : Text) : Prop := ∀ c ∈ rest.head?, c.isDigit = false ∧ c ≠ '.' ∧ c ≠ 'e' ∧ c ≠ 'E'

/-- Only zero is written with a zero in front. -/
theorem tail_of_itoa {n : Nat} {tail : Text} (h : itoa n = '0' :: tail) : tail = [] := by
  induction n using Nat.strong_induction_on generalizing tail with
  | _ n ih =>
      have hsmall : ∀ n < 10, n.digitChar = '0' → n = 0 := by decide
      by_cases hn : n < 10
      · rw [itoa, Nat.toDigits_of_lt_base hn] at h
        exact (List.cons.inj h).2.symm
      · obtain ⟨c, front, hfront⟩ := List.exists_cons_of_ne_nil (Nat.toDigits_ne_nil (n := n / 10) (b := 10))
        rw [itoa, Nat.toDigits_of_base_le (by decide) (by omega), hfront, List.cons_append] at h
        obtain ⟨rfl, -⟩ := List.cons.inj h
        obtain rfl := ih (n / 10) (by omega) hfront
        have hvalue := Nat.ofDigitChars_ten_toDigits (n := n / 10)
        rw [hfront] at hvalue
        have hzero : n / 10 = 0 := hvalue.symm
        omega

theorem decimal_itoa (n : Nat) : decimal (itoa n) = some n := by
  have hall : (itoa n).all Char.isDigit = true := List.all_eq_true.mpr fun c hc => isDigit_of_mem_itoa hc
  rw [decimal, if_pos ⟨Nat.toDigits_ne_nil, hall⟩]
  exact congrArg some Nat.ofDigitChars_ten_toDigits

theorem sign_of_itoa (n : Nat) : (∀ tail, itoa n = '-' :: tail → False) ∧ ∀ tail, itoa n = '+' :: tail → False := by
  refine ⟨fun tail h => ?_, fun tail h => ?_⟩ <;>
    exact absurd (isDigit_of_mem_itoa (h ▸ List.mem_cons_self ..)) (by decide)

/-- A number in 64 bits is read back as it was written. -/
theorem atoi_formatInt {n : Int} (hlow : -9223372036854775808 ≤ n) (hhigh : n ≤ 9223372036854775807) :
    atoi (formatInt n) = some n := by
  have hrange : (some n).filter (fun n : Int => decide (-9223372036854775808 ≤ n ∧ n ≤ 9223372036854775807)) = some n :=
    Option.filter_eq_some_iff.mpr ⟨rfl, decide_eq_true ⟨hlow, hhigh⟩⟩
  by_cases hneg : n < 0
  · have habs : -((n.natAbs : Nat) : Int) = n := by omega
    rw [formatInt, if_pos hneg, atoi, decimal_itoa]
    change (some (-((n.natAbs : Nat) : Int))).filter _ = some n
    rw [habs]
    exact hrange
  · have habs : ((n.natAbs : Nat) : Int) = n := by omega
    obtain ⟨hminus, hplus⟩ := sign_of_itoa n.natAbs
    rw [formatInt, if_neg hneg, atoi, decimal_itoa]
    · change (some ((n.natAbs : Nat) : Int)).filter _ = some n
      rw [habs]
      exact hrange
    · exact hminus
    · exact hplus

section Stops

variable {rest : Text} (hrest : Stops rest)

include hrest

theorem takeWhile_digits {s : Text} (hs : ∀ c ∈ s, c.isDigit = true) : (s ++ rest).takeWhile Char.isDigit = s := by
  rw [List.takeWhile_append_of_pos hs]
  cases rest with
  | nil => rw [List.takeWhile_nil, List.append_nil]
  | cons c rest =>
      rw [List.takeWhile_cons, (hrest c rfl).1, if_neg (by decide), List.append_nil]

theorem fractionPart_of_stops : fractionPart rest = some ([], rest) := by
  unfold fractionPart
  split
  · exact absurd rfl (hrest '.' rfl).2.1
  · rfl

theorem exponentPart_of_stops : exponentPart rest = some ([], rest) := by
  unfold exponentPart
  split
  · rename_i e tail
    obtain ⟨-, -, hlower, hupper⟩ := hrest e rfl
    rw [if_neg (not_or.mpr ⟨hlower, hupper⟩)]
  · rfl

theorem integerPart_itoa (n : Nat) : integerPart (itoa n ++ rest) = some (itoa n, rest) := by
  have hne : itoa n ≠ [] := Nat.toDigits_ne_nil
  obtain ⟨c, tail, hitoa⟩ := List.exists_cons_of_ne_nil hne
  by_cases hzero : c = '0'
  · subst hzero
    obtain rfl := tail_of_itoa hitoa
    rw [hitoa]
    rfl
  · have hdigits : digits1 (itoa n ++ rest) = some (itoa n, rest) := by
      unfold digits1
      simp only
      rw [takeWhile_digits hrest fun c hc => isDigit_of_mem_itoa hc, if_neg hne, List.drop_left]
    unfold integerPart
    split
    · rename_i hcons
      rw [hitoa] at hcons
      exact absurd (List.cons.inj hcons).1 hzero
    · exact hdigits

theorem numberLiteral_formatInt (n : Int) : numberLiteral (formatInt n ++ rest) = some (formatInt n, rest) := by
  by_cases hneg : n < 0
  · rw [formatInt, if_pos hneg, List.cons_append, numberLiteral]
    simp [integerPart_itoa hrest, fractionPart_of_stops hrest, exponentPart_of_stops hrest]
  · have hsign : ∀ tail, itoa n.natAbs ++ rest = '-' :: tail → False := by
      intro tail h
      obtain ⟨c, front, hfront⟩ := List.exists_cons_of_ne_nil (Nat.toDigits_ne_nil (n := n.natAbs) (b := 10))
      rw [itoa, hfront, List.cons_append] at h
      exact (sign_of_itoa n.natAbs).1 front ((List.cons.inj h).1 ▸ hfront)
    rw [formatInt, if_neg hneg, numberLiteral]
    · simp [integerPart_itoa hrest, fractionPart_of_stops hrest, exponentPart_of_stops hrest]
    · exact hsign

end Stops

/-! ### Values -/

theorem encodeText_append (s rest : Text) : encodeText s ++ rest = '"' :: (s.flatMap escapeRune ++ '"' :: rest) := by
  simp [encodeText]

theorem skipSpace_cons {c : Char} (hc : isJsonSpace c = false) (s : Text) : skipSpace (c :: s) = c :: s := by
  rw [skipSpace, List.dropWhile_cons, hc]
  rfl

theorem join_comma_cons (first second : Text) (others : List Text) :
    join ",".toList (first :: second :: others) = first ++ ',' :: join ",".toList (second :: others) := rfl

theorem stops_of_mark {c : Char} (rest : Text) (hc : c = ',' ∨ c = ']' ∨ c = '\x7d') : Stops (c :: rest) := by
  intro d hd
  obtain rfl := Option.some.inj hd
  obtain rfl | rfl | rfl := hc <;> decide

theorem isJsonSpace_of_digit {c : Char} (hc : c.isDigit = true ∨ c = '-') : isJsonSpace c = false := by
  rw [Bool.eq_false_iff]
  intro hspace
  simp only [isJsonSpace, Bool.or_eq_true, beq_iff_eq] at hspace
  obtain ((rfl | rfl) | rfl) | rfl := hspace <;> exact absurd hc (by decide)

theorem head_formatInt (n : Int) : ∃ c tail, formatInt n = c :: tail ∧ (c.isDigit = true ∨ c = '-') := by
  unfold formatInt
  split
  · exact ⟨'-', itoa n.natAbs, rfl, .inr rfl⟩
  · obtain ⟨c, tail, hitoa⟩ := List.exists_cons_of_ne_nil (Nat.toDigits_ne_nil (n := n.natAbs) (b := 10))
    exact ⟨c, tail, hitoa, .inl (isDigit_of_mem_itoa (hitoa ▸ List.mem_cons_self ..))⟩

section Readers

variable (fuel d : Nat) {c : Char} (tail : Text)

theorem value_quote : value (fuel + 1) d ('"' :: tail) = (stringBody tail).map fun p => (.string p.1, p.2) := rfl

theorem value_digit (hc : c.isDigit = true ∨ c = '-') :
    value (fuel + 1) d (c :: tail) = (numberLiteral (c :: tail)).map fun p => (.number p.1, p.2) := by
  rw [value, skipSpace_cons (isJsonSpace_of_digit hc)]
  split
  iterate 6
    · rename_i hcons
      obtain ⟨rfl, -⟩ := List.cons.inj hcons
      exact absurd hc (by decide)
  · rfl

theorem value_bracket (hspace : isJsonSpace c = false) (hc : c ≠ ']') :
    value (fuel + 1) (d + 1) ('[' :: c :: tail) = (items fuel d (c :: tail)).map fun p => (.array p.1, p.2) := by
  rw [value, skipSpace_cons (by decide)]
  simp only [Nat.add_one_ne_zero, if_false, skipSpace_cons hspace]
  split
  · rename_i hcons
    exact absurd (List.cons.inj hcons).1 hc
  · rfl

theorem value_brace (hspace : isJsonSpace c = false) (hc : c ≠ '\x7d') :
    value (fuel + 1) (d + 1) ('\x7b' :: c :: tail) = (members fuel d (c :: tail)).map fun p => (.object p.1, p.2) := by
  rw [value, skipSpace_cons (by decide)]
  simp only [Nat.add_one_ne_zero, if_false, skipSpace_cons hspace]
  split
  · rename_i hcons
    exact absurd (List.cons.inj hcons).1 hc
  · rfl

variable {fuel d tail} {key rest : Text} {v : Json}

theorem members_last (hvalue : value fuel d tail = some (v, '\x7d' :: rest)) :
    members (fuel + 1) d (encodeText key ++ ':' :: tail) = some ([(key, v)], rest) := by
  rw [encodeText_append, members, skipSpace_cons (by decide)]
  simp only [stringBody_encoded, Option.bind_some, skipSpace_cons (show isJsonSpace ':' = false by decide), hvalue]
  rfl

theorem members_next (hvalue : value fuel d tail = some (v, ',' :: rest)) :
    members (fuel + 1) d (encodeText key ++ ':' :: tail) = (members fuel d rest).map fun p => ((key, v) :: p.1, p.2) := by
  rw [encodeText_append, members, skipSpace_cons (by decide)]
  simp only [stringBody_encoded, Option.bind_some, skipSpace_cons (show isJsonSpace ':' = false by decide), hvalue]
  rfl

end Readers

/-- The first rune of a written value is no white space and closes nothing. -/
theorem head_write {v : Json} {d : Nat} (hfits : Fits v d) :
    ∃ c tail, write v = c :: tail ∧ isJsonSpace c = false ∧ c ≠ ']' := by
  cases v with
  | null => exact ⟨'n', _, rfl, by decide⟩
  | bool b =>
      cases b with
      | true => exact ⟨'t', _, rfl, by decide⟩
      | false => exact ⟨'f', _, rfl, by decide⟩
  | number literal =>
      obtain ⟨n, rfl⟩ := hfits
      obtain ⟨c, tail, hhead, hc⟩ := head_formatInt n
      refine ⟨c, tail, hhead, isJsonSpace_of_digit hc, ?_⟩
      rintro rfl
      exact absurd hc (by decide)
  | string s => exact ⟨'"', _, rfl, by decide⟩
  | array vs => exact ⟨'[', _, rfl, by decide⟩
  | object ms => exact ⟨'\x7b', _, rfl, by decide⟩

/-- What is joined begins with its first part. -/
theorem join_cons_eq (first : Text) (others : List Text) :
    ∃ tail, join ",".toList (first :: others) = first ++ tail := by
  cases others with
  | nil => exact ⟨[], rfl⟩
  | cons second others => exact ⟨_, join_comma_cons first second others⟩

theorem length_join_cons (first second : Text) (others : List Text) :
    (join ",".toList (first :: second :: others)).length =
      first.length + (join ",".toList (second :: others)).length + 1 := by
  rw [join_comma_cons, List.length_append, List.length_cons]
  omega

theorem join_singleton (first : Text) : join ",".toList [first] = first := List.append_nil first

-- The induction is on the value. Of two calls in a row one takes a rune off the text, so twice its length is
-- enough fuel, and one more where the first call takes nothing off.
mutual

theorem value_write {fuel d : Nat} {rest : Text} (v : Json) (hfits : Fits v d)
    (hfuel : 2 * (write v).length < fuel) (hrest : Stops rest) : value fuel d (write v ++ rest) = some (v, rest) := by
  obtain ⟨fuel, rfl⟩ : ∃ n, fuel = n + 1 := ⟨fuel - 1, by omega⟩
  match v with
  | .null => rfl
  | .bool true => rfl
  | .bool false => rfl
  | .number literal =>
      obtain ⟨n, rfl⟩ := hfits
      obtain ⟨c, tail, hhead, hc⟩ := head_formatInt n
      rw [write, hhead, List.cons_append, value_digit _ _ _ hc, ← List.cons_append, ← hhead, numberLiteral_formatInt hrest]
      rfl
  | .string s =>
      rw [write, encodeText_append, value_quote, stringBody_encoded]
      rfl
  | .array [] =>
      obtain ⟨d, rfl⟩ := Nat.exists_eq_add_of_le' hfits.1
      rfl
  | .array (v :: vs) =>
      rw [write, List.length_cons, List.length_append] at hfuel
      obtain ⟨hpos, hfits⟩ := hfits
      obtain ⟨d, rfl⟩ := Nat.exists_eq_add_of_le' hpos
      have hitems : items fuel d (join ",".toList (writeItems (v :: vs)) ++ ']' :: rest) = some (v :: vs, rest) :=
        items_write v vs hfits (by omega)
      obtain ⟨c, tail, hhead, hspace, hclose⟩ := head_write hfits.1
      obtain ⟨more, hjoin⟩ := join_cons_eq (write v) (writeItems vs)
      rw [writeItems, hjoin, hhead, List.cons_append, List.cons_append] at hitems
      rw [write, writeItems, hjoin, hhead]
      simp only [List.cons_append, List.append_assoc] at hitems ⊢
      exact (value_bracket fuel d _ hspace hclose).trans (congrArg (Option.map _) hitems)
  | .object [] =>
      obtain ⟨d, rfl⟩ := Nat.exists_eq_add_of_le' hfits.1
      rfl
  | .object ((key, v) :: ms) =>
      rw [write, List.length_cons, List.length_append] at hfuel
      obtain ⟨hpos, hfits⟩ := hfits
      obtain ⟨d, rfl⟩ := Nat.exists_eq_add_of_le' hpos
      have hmembers : members fuel d (join ",".toList (writeMembers ((key, v) :: ms)) ++ '\x7d' :: rest) =
          some ((key, v) :: ms, rest) := members_write key v ms hfits (by omega)
      obtain ⟨more, hjoin⟩ := join_cons_eq (encodeText key ++ ':' :: write v) (writeMembers ms)
      rw [writeMembers, hjoin, encodeText_append] at hmembers
      rw [write, writeMembers, hjoin, encodeText_append]
      simp only [List.cons_append, List.append_assoc] at hmembers ⊢
      exact (value_brace fuel d _ (by decide) (by decide)).trans (congrArg (Option.map _) hmembers)

theorem items_write {fuel d : Nat} {rest : Text} (v : Json) (vs : List Json) (hfits : FitsItems (v :: vs) d)
    (hfuel : 2 * (join ",".toList (writeItems (v :: vs))).length + 1 < fuel) :
    items fuel d (join ",".toList (writeItems (v :: vs)) ++ ']' :: rest) = some (v :: vs, rest) := by
  obtain ⟨fuel, rfl⟩ : ∃ n, fuel = n + 1 := ⟨fuel - 1, by omega⟩
  match vs with
  | [] =>
      rw [writeItems, writeItems, join_singleton] at hfuel ⊢
      have hvalue : value fuel d (write v ++ ']' :: rest) = some (v, ']' :: rest) :=
        value_write v hfits.1 (by omega) (stops_of_mark rest (.inr (.inl rfl)))
      rw [items, hvalue]
      rfl
  | next :: vs =>
      rw [writeItems, writeItems, length_join_cons] at hfuel
      have hvalue : value fuel d (write v ++ ',' :: (join ",".toList (writeItems (next :: vs)) ++ ']' :: rest)) =
          some (v, ',' :: (join ",".toList (writeItems (next :: vs)) ++ ']' :: rest)) :=
        value_write v hfits.1 (by omega) (stops_of_mark _ (.inl rfl))
      have hitems : items fuel d (join ",".toList (writeItems (next :: vs)) ++ ']' :: rest) = some (next :: vs, rest) :=
        items_write next vs hfits.2 (by rw [writeItems]; omega)
      rw [writeItems, writeItems, join_comma_cons, ← writeItems, List.append_assoc, List.cons_append, items, hvalue]
      exact congrArg (Option.map fun p => (v :: p.1, p.2)) hitems

theorem members_write {fuel d : Nat} {rest : Text} (key : Text) (v : Json) (ms : List (Text × Json))
    (hfits : FitsMembers ((key, v) :: ms) d)
    (hfuel : 2 * (join ",".toList (writeMembers ((key, v) :: ms))).length + 1 < fuel) :
    members fuel d (join ",".toList (writeMembers ((key, v) :: ms)) ++ '\x7d' :: rest) = some ((key, v) :: ms, rest) := by
  obtain ⟨fuel, rfl⟩ : ∃ n, fuel = n + 1 := ⟨fuel - 1, by omega⟩
  match ms with
  | [] =>
      rw [writeMembers, writeMembers, join_singleton] at hfuel ⊢
      rw [List.length_append, List.length_cons] at hfuel
      have hvalue : value fuel d (write v ++ '\x7d' :: rest) = some (v, '\x7d' :: rest) :=
        value_write v hfits.1 (by omega) (stops_of_mark rest (.inr (.inr rfl)))
      rw [List.append_assoc, List.cons_append, members_last hvalue]
  | (next, w) :: ms =>
      rw [writeMembers, writeMembers, length_join_cons, List.length_append, List.length_cons] at hfuel
      have hvalue : value fuel d (write v ++ ',' :: (join ",".toList (writeMembers ((next, w) :: ms)) ++ '\x7d' :: rest)) =
          some (v, ',' :: (join ",".toList (writeMembers ((next, w) :: ms)) ++ '\x7d' :: rest)) :=
        value_write v hfits.1 (by omega) (stops_of_mark _ (.inl rfl))
      have hmembers : members fuel d (join ",".toList (writeMembers ((next, w) :: ms)) ++ '\x7d' :: rest) =
          some ((next, w) :: ms, rest) := members_write next w ms hfits.2 (by rw [writeMembers]; omega)
      rw [writeMembers, writeMembers, join_comma_cons, ← writeMembers]
      simp only [List.append_assoc, List.cons_append]
      rw [members_next hvalue, hmembers]
      rfl

end

theorem decode_write {v : Json} {rest : Text} (hfits : Fits v 10000) (hrest : Stops rest) :
    decode (write v ++ rest) = some (v, rest) :=
  value_write v hfits (by rw [List.length_append]; omega) hrest

theorem unmarshal_write {v : Json} (hfits : Fits v 10000) : unmarshal (write v) = some v := by
  have hstops : Stops [] := fun c hc => absurd hc (Option.not_mem_none c)
  refine unmarshal_eq_some.mpr ⟨[], ?_, rfl⟩
  have hdecode := decode_write hfits hstops
  rwa [List.append_nil] at hdecode

/-! ### One line -/

theorem printable_of_all {word : Text} (h : (word.all fun c => 32 ≤ c.toNat) = true) : ∀ c ∈ word, 32 ≤ c.toNat :=
  fun c hc => of_decide_eq_true (List.all_eq_true.mp h c hc)

theorem printable_hexDigit {n : Nat} (hn : n < 16) : 32 ≤ (hexDigit n).toNat := by
  have hall : ∀ n < 16, 32 ≤ (hexDigit n).toNat := by decide
  exact hall n hn

theorem printable_escapeRune (c : Char) : ∀ d ∈ escapeRune c, 32 ≤ d.toNat := by
  unfold escapeRune
  split
  · rename_i hquoted
    obtain rfl | rfl := hquoted <;> exact printable_of_all (by decide)
  iterate 5
    split
    · exact printable_of_all (by decide)
  split
  · intro d hd
    obtain hd | hd := List.mem_append.mp hd
    · exact printable_of_all (by decide) d hd
    · have hsmall := toNat_of_markup ‹_›
      obtain rfl | rfl := List.mem_pair.mp hd <;> exact printable_hexDigit (by omega)
  iterate 2
    split
    · exact printable_of_all (by decide)
  · intro d hd
    obtain rfl := List.mem_singleton.mp hd
    omega

theorem printable_join {parts : List Text} (h : ∀ part ∈ parts, ∀ c ∈ part, 32 ≤ c.toNat) :
    ∀ c ∈ join ",".toList parts, 32 ≤ c.toNat := by
  induction parts with
  | nil => exact fun c hc => absurd hc (List.not_mem_nil)
  | cons first others ih =>
      have hfirst := h first (List.mem_cons_self ..)
      cases others with
      | nil => rwa [join_singleton]
      | cons second others =>
          intro c hc
          rw [join_comma_cons] at hc
          obtain hc | hc := List.mem_append.mp hc
          · exact hfirst c hc
          · obtain rfl | hc := List.mem_cons.mp hc
            · decide
            · exact ih (fun part hpart => h part (List.mem_cons_of_mem _ hpart)) c hc

theorem printable_encodeText (s : Text) : ∀ c ∈ encodeText s, 32 ≤ c.toNat := by
  intro c hc
  rw [← List.append_nil (encodeText s), encodeText_append] at hc
  obtain rfl | hc := List.mem_cons.mp hc
  · decide
  · obtain hc | hc := List.mem_append.mp hc
    · obtain ⟨d, -, hd⟩ := List.mem_flatMap.mp hc
      exact printable_escapeRune d c hd
    · obtain rfl := List.mem_singleton.mp hc
      decide

theorem printable_formatInt (n : Int) : ∀ c ∈ formatInt n, 32 ≤ c.toNat := by
  have hdigits : ∀ c ∈ itoa n.natAbs, 32 ≤ c.toNat := by
    intro c hc
    have hdigit := toNat_of_isDigit (isDigit_of_mem_itoa hc)
    omega
  intro c hc
  unfold formatInt at hc
  split at hc
  · obtain rfl | hc := List.mem_cons.mp hc
    · decide
    · exact hdigits c hc
  · exact hdigits c hc

mutual

/-- A written value holds no line break and no other control character. -/
theorem printable_write {d : Nat} (v : Json) (hfits : Fits v d) : ∀ c ∈ write v, 32 ≤ c.toNat := by
  match v with
  | .null => exact printable_of_all (by decide)
  | .bool true => exact printable_of_all (by decide)
  | .bool false => exact printable_of_all (by decide)
  | .number literal =>
      obtain ⟨n, rfl⟩ := hfits
      exact printable_formatInt n
  | .string s => exact printable_encodeText s
  | .array vs =>
      intro c hc
      obtain rfl | hc := List.mem_cons.mp hc
      · decide
      · obtain hc | hc := List.mem_append.mp hc
        · exact printable_join (printable_writeItems vs hfits.2) c hc
        · obtain rfl := List.mem_singleton.mp hc
          decide
  | .object ms =>
      intro c hc
      obtain rfl | hc := List.mem_cons.mp hc
      · decide
      · obtain hc | hc := List.mem_append.mp hc
        · exact printable_join (printable_writeMembers ms hfits.2) c hc
        · obtain rfl := List.mem_singleton.mp hc
          decide

theorem printable_writeItems {d : Nat} (vs : List Json) (hfits : FitsItems vs d) :
    ∀ part ∈ writeItems vs, ∀ c ∈ part, 32 ≤ c.toNat := by
  match vs with
  | [] => exact fun part hpart => absurd hpart (List.not_mem_nil)
  | v :: vs =>
      intro part hpart
      obtain rfl | hpart := List.mem_cons.mp hpart
      · exact printable_write v hfits.1
      · exact printable_writeItems vs hfits.2 part hpart

theorem printable_writeMembers {d : Nat} (ms : List (Text × Json)) (hfits : FitsMembers ms d) :
    ∀ part ∈ writeMembers ms, ∀ c ∈ part, 32 ≤ c.toNat := by
  match ms with
  | [] => exact fun part hpart => absurd hpart (List.not_mem_nil)
  | (key, v) :: ms =>
      intro part hpart
      obtain rfl | hpart := List.mem_cons.mp hpart
      · intro c hc
        obtain hc | hc := List.mem_append.mp hc
        · exact printable_encodeText key c hc
        · obtain rfl | hc := List.mem_cons.mp hc
          · decide
          · exact printable_write v hfits.1 c hc
      · exact printable_writeMembers ms hfits.2 part hpart

end

end GoJson
