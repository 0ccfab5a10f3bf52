import GlitchCore.Base.Unescape
import GlitchCore.Links.Decoders

/-!
# What the package writes it reads back

The texts of a key and the `awg://` link of a configuration. A key is read from hexadecimal and from base64, which are
told apart by their runes after a prefix has been taken off; a base64 text may itself begin with what is taken for one.
-/

namespace GlitchCore.Awg

open GoText Encoding Links

/-! ### Keys -/

theorem length_of_hexDecode {s : Text} {bytes : List UInt8} (h : hexDecode s = some bytes) :
    s.length = 2 * bytes.length := by
  fun_induction hexDecode s generalizing bytes with
  | case1 =>
      obtain rfl := Option.some.inj h
      rfl
  | case2 => cases h
  | case3 c d rest ih =>
      obtain ⟨high, -, h⟩ := Option.bind_eq_some_iff.mp h
      obtain ⟨low, -, h⟩ := Option.bind_eq_some_iff.mp h
      obtain ⟨bytes', hbytes, h⟩ := Option.bind_eq_some_iff.mp h
      obtain rfl := Option.some.inj h
      rw [List.length_cons, List.length_cons, List.length_cons, ih hbytes]
      omega

/-- A key that reads has 32 bytes. -/
theorem length_of_decodeKey {s : Text} {bytes : List UInt8} (h : decodeKey s = .ok bytes) : bytes.length = 32 := by
  unfold decodeKey at h
  dsimp only at h
  split at h
  · split at h
    · cases h
    · rename_i hlength
      split at h
      · rename_i bytes' hbytes
        obtain rfl := Except.ok.inj h
        have hdouble := length_of_hexDecode hbytes
        omega
      · cases h
  · split at h
    · split at h
      · cases h
      · rename_i hlength
        obtain rfl := Except.ok.inj h
        exact not_not.mp hlength
    · cases h

/-! #### Hexadecimal texts -/

/-- Hexadecimal in upper case. -/
def upperHexEncode (bytes : List UInt8) : Text :=
  bytes.flatMap fun b => [Url.upperHexDigit (b.toNat / 16), Url.upperHexDigit (b.toNat % 16)]

theorem unhex_hexDigit {n : Nat} (hn : n < 16) : unhex (GoJson.hexDigit n) = some n := by
  have hall : ∀ n < 16, unhex (GoJson.hexDigit n) = some n := by decide
  exact hall n hn

/-- Pairs of digits, whichever spelling each byte has, read as the bytes. -/
theorem hexDecode_flatMap {digit : Nat → Char} (hdigit : ∀ n < 16, unhex (digit n) = some n) (bytes : List UInt8) :
    hexDecode (bytes.flatMap fun b => [digit (b.toNat / 16), digit (b.toNat % 16)]) = some bytes := by
  induction bytes with
  | nil => rfl
  | cons b bytes ih =>
      have hb := b.toNat_lt
      rw [List.flatMap_cons, List.cons_append, List.cons_append, List.nil_append, hexDecode,
        hdigit (b.toNat / 16) (by omega), hdigit (b.toNat % 16) (by omega), ih]
      have hbyte : UInt8.ofNat (16 * (b.toNat / 16) + b.toNat % 16) = b := ofNat_eq_of_mod (by omega)
      show some (UInt8.ofNat (16 * (b.toNat / 16) + b.toNat % 16) :: bytes) = some (b :: bytes)
      rw [hbyte]

theorem unhex_of_hexDecode {s : Text} {bytes : List UInt8} (h : hexDecode s = some bytes) :
    ∀ c ∈ s, (unhex c).isSome = true := by
  fun_induction hexDecode s generalizing bytes with
  | case1 => simp
  | case2 => cases h
  | case3 c d rest ih =>
      obtain ⟨high, hhigh, h⟩ := Option.bind_eq_some_iff.mp h
      obtain ⟨low, hlow, h⟩ := Option.bind_eq_some_iff.mp h
      obtain ⟨bytes', hbytes, -⟩ := Option.bind_eq_some_iff.mp h
      intro e he
      simp only [List.mem_cons] at he
      obtain rfl | rfl | he := he
      · rw [hhigh]
        rfl
      · rw [hlow]
        rfl
      · exact ih hbytes e he

theorem trimPrefix_of_not_mem {head s : Text} {c : Char} (hc : c ∈ head) (hs : c ∉ s) : trimPrefix head s = s := by
  refine if_neg fun h => hs ?_
  exact (List.isPrefixOf_iff_prefix.mp h).subset hc

theorem trimPrefix_append (head s : Text) : trimPrefix head (head ++ s) = s := by
  rw [trimPrefix, if_pos (List.isPrefixOf_iff_prefix.mpr (List.prefix_append ..)), List.drop_left]

theorem decodeKey_hex {s : Text} {k : Key} (h : hexDecode s = some k.1) {head : Text}
    (hhead : head ∈ [[], "hex:".toList, "0x".toList]) : decodeKey (head ++ s) = .ok k.1 := by
  have hdigits := unhex_of_hexDecode h
  have hlength : s.length = 64 := by
    rw [length_of_hexDecode h, k.2]
  have hnone : ∀ c : Char, (unhex c).isSome = false → c ∉ s := by
    intro c hc hmem
    rw [hdigits c hmem] at hc
    cases hc
  have hcolon : ':' ∉ s := hnone _ (by decide)
  have hx : 'x' ∉ s := hnone _ (by decide)
  have hedges : Edges isSpace s := edges_of_forall fun c hc => isSpace_of_unhex (hdigits c hc)
  have hheads : Edges isSpace head := by
    simp only [List.mem_cons, List.not_mem_nil, or_false] at hhead
    obtain rfl | rfl | rfl := hhead <;> decide
  have htrim : trimSpace (head ++ s) = head ++ s := trim_eq_self.mpr (hheads.append hedges)
  have hstrip : trimPrefix "0x".toList (trimPrefix "hex:".toList (head ++ s)) = s := by
    simp only [List.mem_cons, List.not_mem_nil, or_false] at hhead
    obtain rfl | rfl | rfl := hhead
    · rw [List.nil_append, trimPrefix_of_not_mem (c := ':') (by decide) hcolon,
        trimPrefix_of_not_mem (c := 'x') (by decide) hx]
    · rw [trimPrefix_append, trimPrefix_of_not_mem (c := 'x') (by decide) hx]
    · have hcolon' : ':' ∉ "0x".toList ++ s := by
        rw [List.mem_append, not_or]
        exact ⟨by decide, hcolon⟩
      rw [trimPrefix_of_not_mem (c := ':') (by decide) hcolon', trimPrefix_append]
  rw [decodeKey, htrim, hstrip, if_pos ⟨List.all_eq_true.mpr hdigits, by omega⟩, if_neg (not_not.mpr hlength), h]

/-! #### Base64 texts -/

/-- The base64 text of the key begins with what is taken for a prefix: its first two bytes are `d3` and `1x`. -/
def BeginsLikePrefix (k : Key) : Prop := ∃ b rest, k.1 = 0xd3 :: b :: rest ∧ b.toNat / 16 = 1

theorem exists_three (k : Key) : ∃ a b c rest, k.1 = a :: b :: c :: rest ∧ rest.length = 29 := by
  obtain ⟨bytes, hlength⟩ := k
  rcases bytes with _ | ⟨a, _ | ⟨b, _ | ⟨c, rest⟩⟩⟩
  · cases hlength
  · cases hlength
  · cases hlength
  · refine ⟨a, b, c, rest, rfl, ?_⟩
    simpa using hlength

theorem sextetRune_inj {a : Alphabet} {n m : Nat} (hn : n < 64) (hm : m < 64) (h : sextetRune a n = sextetRune a m) :
    n = m := by
  have hsame := sextet_sextetRune a hn
  rw [h, sextet_sextetRune a hm] at hsame
  exact (Option.some.inj hsame).symm

/-- The prefix in the first runes of a key. -/
theorem prefix_encodedBody_iff (a : Alphabet) (k : Key) : "0x".toList <+: encodedBody a k.1 ↔ BeginsLikePrefix k := by
  obtain ⟨b₀, b₁, b₂, rest, hk, -⟩ := exists_three k
  have h₀ := b₀.toNat_lt
  have h₁ := b₁.toNat_lt
  have hzero : sextetRune a 52 = '0' ∧ sextetRune a 49 = 'x' := by cases a <;> decide
  have hlist : "0x".toList = [sextetRune a 52, sextetRune a 49] := by
    rw [hzero.1, hzero.2]
    decide
  rw [encodedBody, hk, sextets, List.map_cons, List.map_cons, hlist, List.cons_prefix_cons, List.cons_prefix_cons]
  constructor
  · rintro ⟨hfirst, hsecond, -⟩
    have heq₀ := sextetRune_inj (by decide) (by omega) hfirst
    have heq₁ := sextetRune_inj (by decide) (by omega) hsecond
    have hbyte : b₀ = 0xd3 := by
      apply UInt8.toNat_inj.mp
      show b₀.toNat = 211
      omega
    exact ⟨b₁, b₂ :: rest, by rw [hk, hbyte], by omega⟩
  · rintro ⟨b, rest', heq, hb⟩
    rw [hk, List.cons.injEq, List.cons.injEq] at heq
    obtain ⟨rfl, rfl, -⟩ := heq
    have hfirst : (0xd3 : UInt8).toNat / 4 = 52 := by decide
    have hsecond : 16 * ((0xd3 : UInt8).toNat % 4) + b₁.toNat / 16 = 49 := by
      rw [hb]
      decide
    rw [hfirst, hsecond]
    exact ⟨rfl, rfl, List.nil_prefix⟩

theorem length_encodedBody (a : Alphabet) (k : Key) : (encodedBody a k.1).length = 43 := by
  rw [encodedBody, List.length_map, length_sextets, k.2]

/-- The base64 forms of a key: padded and unpadded standard, and unpadded URL-safe. -/
def base64Forms : List (Alphabet × Bool) := [(.std, true), (.std, false), (.url, false)]

/-- A base64 text is never taken for hexadecimal: a padded one has its padding, an unpadded one is of odd length. -/
theorem not_hex_encoded (a : Alphabet) (padded : Bool) (k : Key) :
    ¬ ((base64Encode a padded k.1).all (fun c => (unhex c).isSome) = true ∧
      (base64Encode a padded k.1).length % 2 = 0) := by
  rintro ⟨hall, heven⟩
  rw [base64Encode_eq, length_encodedBody] at hall heven
  cases padded with
  | true =>
      have hpad := List.all_eq_true.mp hall '=' (List.mem_append_right _ (by decide))
      exact absurd hpad (by decide)
  | false =>
      rw [List.length_append, length_encodedBody] at heven
      exact absurd heven (by decide)

theorem decodeKey_base64 {a : Alphabet} {padded : Bool} (hform : (a, padded) ∈ base64Forms) {k : Key}
    (hk : ¬ BeginsLikePrefix k) : decodeKey (base64Encode a padded k.1) = .ok k.1 := by
  have hcolon : ':' ∉ base64Encode a padded k.1 := by
    intro hmem
    obtain h | h := encoded_rune hmem
    · exact absurd h (by decide)
    · cases a <;> exact absurd h (by decide)
  have hprefix : trimPrefix "0x".toList (base64Encode a padded k.1) = base64Encode a padded k.1 := by
    refine if_neg fun h => hk ((prefix_encodedBody_iff a k).mp ?_)
    have htwo := List.isPrefixOf_iff_prefix.mp h
    rw [base64Encode_eq] at htwo
    refine List.prefix_of_prefix_length_le htwo (List.prefix_append ..) ?_
    rw [length_encodedBody]
    decide
  have hself := base64Decode_base64Encode a padded k.1
  have hsome : (base64Decode .std true (base64Encode a padded k.1) <|>
      base64Decode .std false (base64Encode a padded k.1) <|>
      base64Decode .url false (base64Encode a padded k.1)) = some k.1 := by
    have hagree : ∀ a' padded' bytes, base64Decode a' padded' (base64Encode a padded k.1) = some bytes →
        bytes = k.1 := fun a' padded' bytes h => base64Decode_agree rfl h hself
    obtain ⟨bytes, hbytes⟩ : ∃ bytes, (base64Decode .std true (base64Encode a padded k.1) <|>
        base64Decode .std false (base64Encode a padded k.1) <|>
        base64Decode .url false (base64Encode a padded k.1)) = some bytes := by
      apply Option.isSome_iff_exists.mp
      simp only [base64Forms, List.mem_cons, Prod.mk.injEq, List.not_mem_nil, or_false] at hform
      obtain ⟨rfl, rfl⟩ | ⟨rfl, rfl⟩ | ⟨rfl, rfl⟩ := hform <;> simp [hself]
    have hbytes' := hbytes
    simp only [Option.orElse_eq_orElse, Option.orElse_eq_or, Option.or_eq_some_iff] at hbytes'
    rw [hbytes]
    obtain h | ⟨-, h | ⟨-, h⟩⟩ := hbytes' <;> rw [hagree _ _ _ h]
  rw [decodeKey, trimSpace_encoded, trimPrefix_of_not_mem (c := ':') (by decide) hcolon, hprefix,
    if_neg (not_hex_encoded a padded k), hsome]
  exact if_neg (not_not.mpr k.2)

/-- A text in which the prefix is taken off the key is of no base64 form: one rune is left over. -/
theorem decodeKey_stripped {k : Key} (hk : BeginsLikePrefix k) :
    decodeKey (base64Encode .std true k.1) = .error .notHexNorBase64 := by
  have hcolon : ':' ∉ base64Encode .std true k.1 := by
    intro hmem
    obtain h | h := encoded_rune hmem <;> exact absurd h (by decide)
  obtain ⟨body, hbody⟩ := (prefix_encodedBody_iff .std k).mpr hk
  have hlength : body.length = 41 := by
    have htotal := length_encodedBody .std k
    rw [← hbody, List.length_append] at htotal
    have htwo : "0x".toList.length = 2 := by decide
    omega
  have htext : base64Encode .std true k.1 = "0x".toList ++ (body ++ ['=']) := by
    rw [base64Encode_eq, length_encodedBody, ← hbody, List.append_assoc]
    rfl
  have hplain : ∀ c ∈ body, c ∉ "\n\r=".toList := fun c hc =>
    encodedBody_plain .std k.1 c (by rw [← hbody]; exact List.mem_append_right _ hc)
  have hfilter : (body ++ ['=']).filter (fun c => c != '\n' && c != '\r') = body ++ ['='] := by
    refine List.filter_eq_self.mpr fun c hc => ?_
    obtain hc | hc := List.mem_append.mp hc
    · rw [Bool.and_eq_true, bne_iff_ne, bne_iff_ne]
      refine ⟨?_, ?_⟩
      · rintro rfl
        exact hplain _ hc (by decide)
      · rintro rfl
        exact hplain _ hc (by decide)
    · rw [List.mem_singleton.mp hc]
      decide
  have htake : (body ++ ['=']).takeWhile (· != '=') = body := by
    rw [List.takeWhile_append_of_pos]
    · simp
    · intro c hc
      rw [bne_iff_ne]
      rintro rfl
      exact hplain _ hc (by decide)
  have hnone : ∀ a padded, base64Decode a padded (body ++ ['=']) = none := by
    intro a padded
    rw [base64Decode, hfilter, htake]
    refine if_neg fun h => h.1 ?_
    rw [hlength]
  have hnothex : ¬ ((body ++ ['=']).all (fun c => (unhex c).isSome) = true ∧ (body ++ ['=']).length % 2 = 0) := by
    rintro ⟨hall, -⟩
    exact absurd (List.all_eq_true.mp hall '=' (by simp)) (by decide)
  rw [decodeKey, trimSpace_encoded, trimPrefix_of_not_mem (c := ':') (by decide) hcolon, htext, trimPrefix_append,
    if_neg hnothex, hnone, hnone, hnone]
  rfl

/-- The texts a key is written as: hexadecimal in either case, bare or behind a prefix, and the base64 forms. -/
def keyTexts (k : Key) : List Text :=
  ([[], "hex:".toList, "0x".toList].flatMap fun head => [head ++ hexEncode k.1, head ++ upperHexEncode k.1]) ++
    base64Forms.map fun form => base64Encode form.1 form.2 k.1

/-- Every text of a key gives the key and nothing but 32 bytes is ever given, unless the key's base64 text begins with
`0x`. -/
theorem keyTexts_read_iff (k : Key) :
    ((∀ s ∈ keyTexts k, decodeKey s = .ok k.1) ∧ ∀ s bytes, decodeKey s = .ok bytes → bytes.length = 32) ↔
      ¬ BeginsLikePrefix k := by
  constructor
  · rintro ⟨hall, -⟩ hk
    have hstd : base64Encode .std true k.1 ∈ keyTexts k :=
      List.mem_append_right _ (List.mem_map.mpr ⟨(.std, true), by decide, rfl⟩)
    have hok := hall _ hstd
    rw [decodeKey_stripped hk] at hok
    cases hok
  · intro hk
    refine ⟨fun s hs => ?_, fun s bytes h => length_of_decodeKey h⟩
    obtain hs | hs := List.mem_append.mp hs
    · obtain ⟨head, hhead, hs⟩ := List.mem_flatMap.mp hs
      obtain rfl | hs := List.mem_cons.mp hs
      · exact decodeKey_hex (hexDecode_flatMap (fun n hn => unhex_hexDigit hn) k.1) hhead
      · obtain rfl := List.mem_singleton.mp hs
        exact decodeKey_hex (hexDecode_flatMap (fun n hn => Url.unhex_upperHexDigit hn) k.1) hhead
    · obtain ⟨⟨a, padded⟩, hform, rfl⟩ := List.mem_map.mp hs
      exact decodeKey_base64 hform hk

def prefixedKey : Key := ⟨0xd3 :: 0x1f :: List.replicate 30 0, by decide⟩

theorem prefixedKey_not_read :
    base64Encode .std true prefixedKey.1 = "0x8AAAAAAAAAAAAAAAAAAAAAAAAAAAAAAAAAAAAAAAA=".toList ∧
      decodeKey (base64Encode .std true prefixedKey.1) = .error .notHexNorBase64 := by
  decide +kernel

/-! ### Links -/

/-- `EncodeLink`, of any bytes. -/
def encodeLink (ini name : List UInt8) : Text :=
  linkScheme ++ base64Encode .url false ini ++ if name ≠ [] then '#' :: Url.pathEscape name else []

/-- The bytes of a text. -/
def bytesOf (s : Text) : List UInt8 := s.flatMap String.utf8EncodeChar

/-- `LinkName`, with the bytes it gives. -/
def linkName (link : Text) : List UInt8 :=
  let s := trimSpace link
  if linkScheme.isPrefixOf s then
    match cut '#' s with
    | none => []
    | some (_, escaped) => if escaped = [] then [] else (Url.pathUnescape escaped).getD (bytesOf escaped)
  else []

/-- `NormalizeToINI`, with the bytes it gives. -/
def normalizeToBytes (input : Text) : Option (List UInt8) := normalizeWith Decoder.awg.decode bytesOf input

theorem hash_not_mem_payload (ini : List UInt8) : '#' ∉ base64Encode .url false ini := by
  intro hmem
  obtain h | h := encoded_rune hmem <;> exact absurd h (by decide)

theorem isSpace_of_mem_encodeLink {ini name : List UInt8} {c : Char} (hc : c ∈ encodeLink ini name) :
    isSpace c = false := by
  rw [encodeLink, List.mem_append, List.mem_append] at hc
  obtain (hc | hc) | hc := hc
  · have hall : (linkScheme.all fun c => !isSpace c) = true := by decide
    simpa using List.all_eq_true.mp hall c hc
  · obtain rfl | hsome := encoded_rune hc
    · decide
    · exact isSpace_of_sextet hsome
  · split at hc
    · obtain rfl | hc := List.mem_cons.mp hc
      · decide
      · exact isSpace_of_toNat (Url.toNat_of_mem_pathEscape hc)
    · cases hc

/-- White space around a link is trimmed, and nothing of the link. -/
theorem trimSpace_encodeLink (ini name : List UInt8) {before after : Text} (hbefore : ∀ c ∈ before, isSpace c = true)
    (hafter : ∀ c ∈ after, isSpace c = true) :
    trimSpace (before ++ encodeLink ini name ++ after) = encodeLink ini name := by
  exact trim_surrounded hbefore hafter (edges_of_forall fun c hc => isSpace_of_mem_encodeLink hc)

theorem scheme_encodeLink (ini name : List UInt8) : linkScheme.isPrefixOf (encodeLink ini name) = true := by
  rw [encodeLink, List.append_assoc, List.isPrefixOf_iff_prefix]
  exact List.prefix_append ..

/-- An `awg://` link, also with white space around it, reads back as the configuration and the name it was made of. -/
theorem awgLink_reads_back (ini name : List UInt8) (before after : Text) (hbefore : ∀ c ∈ before, isSpace c = true)
    (hafter : ∀ c ∈ after, isSpace c = true) :
    normalizeToBytes (before ++ encodeLink ini name ++ after) = some ini ∧
      linkName (before ++ encodeLink ini name ++ after) = name := by
  have hhash := hash_not_mem_payload ini
  unfold normalizeToBytes normalizeWith linkName
  dsimp only
  rw [trimSpace_encodeLink ini name hbefore hafter, if_pos (scheme_encodeLink ini name),
    if_pos (scheme_encodeLink ini name), encodeLink, List.append_assoc, List.drop_left]
  by_cases hname : name = []
  · subst hname
    rw [if_neg (by simp), List.append_nil]
    have htake : (base64Encode .url false ini).takeWhile (· != '#') = base64Encode .url false ini := by
      refine List.takeWhile_eq_self_iff.mpr fun c hc => ?_
      rw [bne_iff_ne]
      rintro rfl
      exact hhash hc
    have hcut : cut '#' (linkScheme ++ base64Encode .url false ini) = none := by
      refine cut_eq_none.mpr ?_
      rw [List.mem_append, not_or]
      exact ⟨by decide, hhash⟩
    rw [htake, hcut]
    exact ⟨Decoder.decode_encoded .awg .url false ini, rfl⟩
  · rw [if_pos hname]
    have htake : (base64Encode .url false ini ++ '#' :: Url.pathEscape name).takeWhile (· != '#') =
        base64Encode .url false ini := by
      rw [List.takeWhile_append_of_pos]
      · simp
      · intro c hc
        rw [bne_iff_ne]
        rintro rfl
        exact hhash hc
    have hcut : cut '#' (linkScheme ++ (base64Encode .url false ini ++ '#' :: Url.pathEscape name)) =
        some (linkScheme ++ base64Encode .url false ini, Url.pathEscape name) := by
      refine cut_eq_some.mpr ⟨by simp, ?_⟩
      rw [List.mem_append, not_or]
      exact ⟨by decide, hhash⟩
    rw [htake, hcut]
    refine ⟨Decoder.decode_encoded .awg .url false ini, ?_⟩
    dsimp only
    rw [if_neg (Url.pathEscape_ne_nil hname), Url.pathUnescape_pathEscape]
    rfl

/-- A configuration that is no text, and a name with a separator and white space at its ends. -/
theorem awgLink_reads_back_bytes :
    normalizeToBytes (" ".toList ++ encodeLink [0xff, 0x00, 0x0a] " a#b ".toUTF8.toList ++ "\n".toList) =
        some [0xff, 0x00, 0x0a] ∧
      linkName (" ".toList ++ encodeLink [0xff, 0x00, 0x0a] " a#b ".toUTF8.toList ++ "\n".toList) =
        " a#b ".toUTF8.toList :=
  awgLink_reads_back _ _ _ _ (by simp [isSpace]) (by simp [isSpace])

end GlitchCore.Awg
