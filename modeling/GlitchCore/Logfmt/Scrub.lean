import GlitchCore.Base.GoQuote
import GlitchCore.Base.Regex

/-!
# The log scrubber

`Scrub` rewrites a line in eight passes, each on what the one before left. The first two are for links: a quoted
one, which runs to the closing quote, and a bare one, which runs to the next white space. A share link comes out
of them as its scheme alone, whatever stood after it, so that the six passes for field values, UUIDs and key
material see the same text for any two secrets.
-/

namespace GlitchCore.Logfmt

open GoText Regex

def redacted : Text := "[redacted]".toList

def separator : Expr := optional (.rune fun c => c == '_' || c == '-')

def secretKeys : Expr :=
  choice [literalFold "password".toList, literalFold "passwd".toList, literalFold "pwd".toList,
    literalFold "pass".toList, literalFold "psk".toList,
    sequence [literalFold "pre".toList, separator, literalFold "shared".toList, separator, literalFold "key".toList],
    sequence [literalFold "private".toList, separator, literalFold "key".toList],
    sequence [literalFold "public".toList, separator, literalFold "key".toList],
    literalFold "pbk".toList, literalFold "secret".toList, literalFold "token".toList,
    sequence [literalFold "auth".toList, separator, literalFold "str".toList], literalFold "auth".toList,
    sequence [literalFold "obfs".toList, separator, literalFold "password".toList],
    literalFold "encryption".toList, literalFold "decryption".toList, literalFold "uuid".toList,
    sequence [literalFold "short".toList, separator, literalFold "id".toList], literalFold "sid".toList]

def schemeStart (c : Char) : Bool := foldCase Char.isLower c

def schemeRune (c : Char) : Bool :=
  foldCase (fun c => c.isLower || c.isDigit || c == '+' || c == '.' || c == '-') c

def urlRune (c : Char) : Bool := !(isBlank c || c == '"' || c == '<' || c == '>' || c.toNat == 0x60)

def slashes (tail : Expr) : Expr := .cat (.rune (· == ':')) (.cat (.rune (· == '/')) (.cat (.rune (· == '/')) tail))

/-- A scheme, `://` and what the two patterns let follow. -/
def urlExpr (tail : Expr) : Expr := .cat (.rune schemeStart) (.cat (.star (.rune schemeRune)) (slashes tail))

/-- One piece of a quoted text, `[^"\\]|\\.`. -/
def quotedPiece : Expr :=
  .alt (.rune fun c => c != '"' && c != '\\') (.cat (.rune (· == '\\')) (.rune (· != '\n')))

def quotedURLPattern : Expr :=
  .cat (.rune (· == '"')) (.cat .wordBoundary (.cat (.group 1 (urlExpr (.star quotedPiece))) (.rune (· == '"'))))

def urlPattern : Expr := .cat .wordBoundary (urlExpr (plus (.rune urlRune)))

/-- A text between two quotes of one kind. -/
def quotedBy (q : Char) : Expr := sequence [.rune (· == q), .star (.rune (· != q)), .rune (· == q)]

/-- A bare value, `[^\s,;&"'})\]]+`. -/
def bareValue : Expr := plus (.rune fun c => !(isBlank c || ",;&\"'\x7d)]".toList.contains c))

def blanks : Expr := .star (.rune isBlank)

def redactedFold : Expr := literalFold redacted

def secretAssignPattern : Expr :=
  sequence [.wordBoundary, .group 1 secretKeys, .group 2 (sequence [blanks, .rune (· == '='), blanks]),
    .group 3 (choice [redactedFold, quotedBy '"', quotedBy '\'', bareValue])]

def secretQuotedPattern : Expr :=
  sequence [.wordBoundary, .group 1 secretKeys,
    .group 2 (sequence [optional (.rune (· == '"')), blanks, .rune (· == ':'), blanks]),
    .group 3 (choice [redactedFold, quotedBy '"', quotedBy '\''])]

def secretQuotedKeyPattern : Expr :=
  sequence [.rune (· == '"'), .group 1 secretKeys,
    .group 2 (sequence [.rune (· == '"'), blanks, .rune (· == ':'), blanks]),
    .group 3 (choice [redactedFold, bareValue])]

def vlessEncryptionPattern : Expr :=
  .cat (literal "mlkem768x25519plus".toList)
    (plus (.cat (.rune (· == '.')) (.star (.rune fun c => c.isAlphanum || c == '_' || c == '-'))))

def isHex (c : Char) : Bool := c.isDigit || decide ('a' ≤ c) && decide (c ≤ 'f')

def uuidPattern : Expr :=
  let digits (n : Nat) : Expr := times n (.rune (foldCase isHex))
  let dash : Expr := .rune (· == '-')
  sequence [.wordBoundary, digits 8, dash, digits 4, dash, digits 4, dash, digits 4, dash, digits 12, .wordBoundary]

def tokenPattern : Expr :=
  let unit : Expr := .rune fun c => c.isAlphanum || c == '+' || c == '/' || c == '_' || c == '-'
  let pad : Expr := .rune (· == '=')
  sequence [times 32 unit, .star unit, optional (.cat pad (optional pad))]

def shareLinkSchemes : List Text :=
  ["vless".toList, "vmess".toList, "trojan".toList, "ss".toList, "ssr".toList, "hysteria".toList, "hysteria2".toList,
    "hy2".toList, "tuic".toList, "anytls".toList, "awg".toList, "wireguard".toList, "wg".toList, "juicity".toList,
    "mieru".toList, "snell".toList, "naive".toList, "ssh".toList]

/-- The patterns hand over texts that hold `://`; the source slices without asking. -/
def scrubURL (u : Text) : Text :=
  match cutText "://".toList u with
  | none => u
  | some (scheme, rest) =>
      if toLower scheme ∈ shareLinkSchemes then scheme ++ "://".toList ++ redacted
      else
        let ends (c : Char) : Bool := c == '/' || c == '?' || c == '#'
        let authority := rest.takeWhile fun c => !ends c
        let tail := rest.dropWhile fun c => !ends c
        let authority := match cutLast '@' authority with
          | some (_, host) => redacted ++ '@' :: host
          | none => authority
        let tail := if tail ≠ [] ∧ tail ≠ ['/'] then tail.take 1 ++ redacted else tail
        scheme ++ "://".toList ++ authority ++ tail

/-! ### The parts of a URL -/

def isEnd (c : Char) : Bool := c == '/' || c == '?' || c == '#'

def hideUser (authority : Text) : Text :=
  match cutLast '@' authority with
  | some (_, host) => redacted ++ '@' :: host
  | none => authority

def hideTail (tail : Text) : Text := if tail ≠ [] ∧ tail ≠ ['/'] then tail.take 1 ++ redacted else tail

/-- What `scrubURL` leaves of the text behind the slashes. -/
def hideRest (scheme rest : Text) : Text :=
  if toLower scheme ∈ shareLinkSchemes then redacted
  else hideUser (rest.takeWhile fun c => !isEnd c) ++ hideTail (rest.dropWhile fun c => !isEnd c)

theorem cutText_slashes {s : Text} (hs : ':' ∉ s) (t : Text) :
    cutText "://".toList (s ++ "://".toList ++ t) = some (s, t) :=
  cutText_of_not_mem hs "//".toList t

theorem scrubURL_link {scheme : Text} (hs : ':' ∉ scheme) (rest : Text) :
    scrubURL (scheme ++ "://".toList ++ rest) = scheme ++ "://".toList ++ hideRest scheme rest := by
  rw [scrubURL, cutText_slashes hs, hideRest]
  dsimp only
  split
  · rfl
  · rw [List.append_assoc]
    rfl

/-- Which kinds of runes a run holds. -/
structure Kinds where
  upper : Bool := false
  lower : Bool := false
  digit : Bool := false
  nonHex : Bool := false

def Kinds.add (k : Kinds) (r : Char) : Kinds :=
  if r.isUpper then { k with upper := true, nonHex := k.nonHex || decide ('F' < r) }
  else if r.isLower then { k with lower := true, nonHex := k.nonHex || decide ('f' < r) }
  else if r.isDigit then { k with digit := true }
  else { k with nonHex := true }

def looksLikeKeyMaterial (run : Text) : Bool :=
  let k := run.foldl Kinds.add {}
  if !k.nonHex && !(k.upper && k.lower) then true else k.upper && k.lower && k.digit

def scrubQuoted (m : Match) : Text := '"' :: scrubURL (m.text.drop 1).dropLast ++ ['"']

/-- The passes after the two for links. -/
def scrubFields (s : Text) : Text :=
  let s := replaceAll secretAssignPattern (fun m => m.group 1 ++ m.group 2 ++ redacted) s
  let s := replaceAll secretQuotedPattern (fun m => m.group 1 ++ m.group 2 ++ redacted) s
  let s := replaceAll secretQuotedKeyPattern (fun m => '"' :: m.group 1 ++ m.group 2 ++ redacted) s
  let s := replaceAll vlessEncryptionPattern (fun _ => redacted) s
  let s := replaceAll uuidPattern (fun _ => redacted) s
  replaceAll tokenPattern (fun m => if looksLikeKeyMaterial (m.text.rdropWhile (· == '=')) then redacted else m.text) s

def scrub (s : Text) : Text :=
  let s := replaceAll quotedURLPattern scrubQuoted s
  let s := replaceAll urlPattern (fun m => scrubURL m.text) s
  scrubFields s

/-! ### Where a bare URL is found -/

def pastSlashes : Text → Option Text
  | ':' :: '/' :: '/' :: t => some t
  | _ => none

theorem pastSlashes_eq_some {s t : Text} : pastSlashes s = some t ↔ s = "://".toList ++ t := by
  constructor
  · intro h
    unfold pastSlashes at h
    split at h
    · cases h
      rfl
    · cases h
  · rintro rfl
    rfl

theorem outcomes_slashes (tail : Expr) (p : Pos) :
    (slashes tail).outcomes p = match pastSlashes p.rest with
      | some t => tail.outcomes (p.after "://".toList t)
      | none => [] := by
  obtain ⟨prev, rest, groups⟩ := p
  cases hrest : pastSlashes rest with
  | some t =>
      rw [pastSlashes_eq_some.mp hrest]
      simp [slashes, Expr.outcomes, Pos.after]
  | none =>
      have hne : ∀ t, rest ≠ "://".toList ++ t := fun t ht => by simp [pastSlashes_eq_some.mpr ht] at hrest
      cases rest with
      | nil => rfl
      | cons c rest =>
          by_cases hc : c = ':'
          swap
          · simp [slashes, Expr.outcomes, hc]
          subst hc
          cases rest with
          | nil => rfl
          | cons d rest =>
              by_cases hd : d = '/'
              swap
              · simp [slashes, Expr.outcomes, hd]
              subst hd
              cases rest with
              | nil => rfl
              | cons e rest =>
                  have he : e ≠ '/' := fun he => hne rest (by rw [he]; rfl)
                  simp [slashes, Expr.outcomes, he]

theorem outcomes_urlExpr (tail : Expr) {p : Pos} {c : Char} {s : Text} (hrest : p.rest = c :: s)
    (hc : schemeStart c = true) : (urlExpr tail).outcomes p =
      (slashes tail).outcomes (p.after (c :: s.takeWhile schemeRune) (s.dropWhile schemeRune)) := by
  have hloop := loop_rune schemeRune { p with prev := some c, rest := s }
  have hstop : ∀ r : Pos, (∃ c s, r.rest = c :: s ∧ schemeRune c = true) → (slashes tail).outcomes r = [] := by
    rintro r ⟨d, t, hr, hd⟩
    rw [outcomes_slashes, hr]
    split
    next u heq =>
      have hcolon := pastSlashes_eq_some.mp heq
      cases hcolon
      exact absurd hd (by decide)
    · rfl
  rw [urlExpr, outcomes_cat, outcomes_rune_of_pos hrest hc, List.flatMap_singleton, outcomes_cat,
    hloop.flatMap_star hstop, Pos.after_cons]

/-- The text `urlPattern` matches at a place. -/
def urlAt (prev : Option Char) : Text → Option Text
  | [] => none
  | c :: s =>
      if (prev.any isWord != isWord c) && schemeStart c then
        match pastSlashes (s.dropWhile schemeRune) with
        | some t =>
            if (t.takeWhile urlRune).isEmpty then none
            else some (c :: s.takeWhile schemeRune ++ "://".toList ++ t.takeWhile urlRune)
        | none => none
      else none

theorem head?_plus_rune (f : Char → Bool) (p : Pos) : ((plus (.rune f)).outcomes p).head? =
    if (p.rest.takeWhile f).isEmpty then none else some (p.after (p.rest.takeWhile f) (p.rest.dropWhile f)) := by
  cases hrest : p.rest with
  | nil =>
      rw [plus, outcomes_cat, outcomes_rune_of_neg (by simp [hrest])]
      rfl
  | cons c s =>
      by_cases hc : f c = true
      · rw [plus, outcomes_cat, outcomes_rune_of_pos hrest hc, List.flatMap_singleton, (loop_rune f _).head?_star,
          List.takeWhile_cons_of_pos hc, List.dropWhile_cons_of_pos hc, Pos.after_cons]
        rfl
      · rw [plus, outcomes_cat, outcomes_rune_of_neg, List.takeWhile_cons_of_neg hc]
        · rfl
        · rintro d t heq
          rw [hrest] at heq
          cases heq
          exact Bool.eq_false_iff.mpr hc

theorem matchAt_urlPattern (prev : Option Char) (s : Text) :
    urlPattern.matchAt prev s = (urlAt prev s).map fun text => ⟨text, []⟩ := by
  cases s with
  | nil =>
      have hnone : urlPattern.outcomes ⟨prev, [], []⟩ = [] := by
        rw [urlPattern, outcomes_cat]
        refine List.flatMap_eq_nil_iff.mpr fun q hq => ?_
        rw [Expr.outcomes] at hq
        split at hq
        · rw [List.mem_singleton.mp hq]
          rfl
        · cases hq
      rw [Expr.matchAt, hnone]
      rfl
  | cons c s =>
      rw [Expr.matchAt, urlPattern, outcomes_cat, Expr.outcomes, urlAt]
      have hboundary : Pos.atWordBoundary ⟨prev, c :: s, []⟩ = (prev.any isWord != isWord c) := rfl
      by_cases hb : (prev.any isWord != isWord c) = true
      · rw [hboundary, if_pos hb, List.flatMap_singleton, hb, Bool.true_and]
        by_cases hc : schemeStart c = true
        · rw [if_pos hc, outcomes_urlExpr _ rfl hc, outcomes_slashes]
          dsimp only [Pos.after]
          cases hdrop : pastSlashes (s.dropWhile schemeRune) with
          | none => rfl
          | some t =>
              dsimp only
              rw [head?_plus_rune]
              dsimp only
              split
              · rfl
              · rw [Option.map_some, Option.map_some, Pos.until_of_append]
                · rfl
                · dsimp only [Pos.after]
                  have hrun := List.takeWhile_append_dropWhile (p := schemeRune) (l := s)
                  rw [pastSlashes_eq_some.mp hdrop] at hrun
                  rw [List.append_assoc, List.takeWhile_append_dropWhile, List.append_assoc, List.cons_append, hrun]
        · rw [if_neg hc, urlExpr, outcomes_cat, outcomes_rune_of_neg]
          · rfl
          · rintro d t heq
            cases heq
            exact Bool.eq_false_iff.mpr hc
      · rw [hboundary, if_neg hb, if_neg (by simp [hb])]
        rfl

end GlitchCore.Logfmt
