import GlitchCore.Base.Base64
import GlitchCore.Base.Fields
import GlitchCore.Mihomo.Proxy
import GlitchCore.Xray.Outbound

/-!
# The lenient base64 decoders

The packages of the links decode base64 by trying one encoding after another, each in an order of its own; one trims
its text first and one pads it. Whichever encoding reads a text, it reads the same runes.
-/

namespace GlitchCore.Links

open GoText Encoding

inductive Decoder where
  /-- `awgconfig.DecodeBase64Flexible`. -/
  | awg
  /-- `mihomoconfig.decodeBase64`. -/
  | mihomo
  /-- `xrayconfig.tryDecodeBase64`. -/
  | xray
deriving DecidableEq, Repr

/-- The bytes a decoder gives. -/
def Decoder.decode : Decoder → Text → Option (List UInt8)
  | .awg, s =>
      base64Decode .url false (trimSpace s) <|> base64Decode .url true (trimSpace s) <|>
        base64Decode .std false (trimSpace s) <|> base64Decode .std true (trimSpace s)
  | .mihomo, s =>
      base64Decode .url false s <|> base64Decode .std true s <|> base64Decode .std false s <|> base64Decode .url true s
  | .xray, s =>
      base64Decode .url false s <|> base64Decode .url true (Xray.padBase64 s) <|>
        base64Decode .std true (Xray.padBase64 s)

theorem decodeBase64Flexible_eq (s : Text) : Awg.decodeBase64Flexible s = (Decoder.awg.decode s).map textOf := rfl

/-! ### One text, the same bytes -/

theorem exists_padBase64 (s : Text) : ∃ n, Xray.padBase64 s = s ++ List.replicate n '=' := by
  unfold Xray.padBase64
  split
  · exact ⟨_, rfl⟩
  · exact ⟨0, (List.append_nil s).symm⟩

theorem isSpace_of_sextet {a : Alphabet} {c : Char} (h : (sextet a c).isSome = true) : isSpace c = false := by
  by_contra hspace
  rw [Bool.not_eq_false] at hspace
  have hall : ∀ n ∈ spaces, (sextet .std (Char.ofNat n)).isSome = false ∧ (sextet .url (Char.ofNat n)).isSome = false := by
    decide
  obtain ⟨hstd, hurl⟩ := hall c.toNat (toNat_mem_spaces hspace)
  rw [Char.ofNat_toNat] at hstd hurl
  cases a with
  | std => rw [hstd] at h; cases h
  | url => rw [hurl] at h; cases h

/-- The only white space of a text that decodes is line breaks, which decoding leaves out. -/
theorem break_of_isSpace {a : Alphabet} {padded : Bool} {s : Text} {bytes : List UInt8}
    (h : base64Decode a padded s = some bytes) {c : Char} (hc : c ∈ s) (hspace : isSpace c = true) :
    (c != '\n' && c != '\r') = false := by
  obtain rfl | rfl | rfl | hsome := rune_of_base64Decode h hc
  · decide
  · decide
  · exact absurd hspace (by decide)
  · rw [isSpace_of_sextet hsome] at hspace
    cases hspace

/-- What a decoder hands to one of the encodings: the trimmed text, or the text with padding behind it. -/
theorem Decoder.decode_eq_some {d : Decoder} {s : Text} {bytes : List UInt8} (h : d.decode s = some bytes) :
    ∃ a padded t, base64Decode a padded t = some bytes ∧
      ((d = .awg ∧ t = trimSpace s) ∨ (d ≠ .awg ∧ ∃ n, t = s ++ List.replicate n '=')) := by
  have hself : s = s ++ List.replicate 0 '=' := (List.append_nil s).symm
  cases d with
  | awg =>
      simp only [Decoder.decode, Option.orElse_eq_orElse, Option.orElse_eq_or, Option.or_eq_some_iff] at h
      obtain h | ⟨-, h | ⟨-, h | ⟨-, h⟩⟩⟩ := h
      all_goals exact ⟨_, _, _, h, .inl ⟨rfl, rfl⟩⟩
  | mihomo =>
      simp only [Decoder.decode, Option.orElse_eq_orElse, Option.orElse_eq_or, Option.or_eq_some_iff] at h
      obtain h | ⟨-, h | ⟨-, h | ⟨-, h⟩⟩⟩ := h
      all_goals exact ⟨_, _, _, h, .inr ⟨by decide, 0, hself⟩⟩
  | xray =>
      obtain ⟨n, hpad⟩ := exists_padBase64 s
      simp only [Decoder.decode, Option.orElse_eq_orElse, Option.orElse_eq_or, Option.or_eq_some_iff, hpad] at h
      obtain h | ⟨-, h | ⟨-, h⟩⟩ := h
      · exact ⟨_, _, _, h, .inr ⟨by decide, 0, hself⟩⟩
      · exact ⟨_, _, _, h, .inr ⟨by decide, n, rfl⟩⟩
      · exact ⟨_, _, _, h, .inr ⟨by decide, n, rfl⟩⟩

/-- Every decoder reads the runes of the trimmed text. -/
theorem Decoder.reads {d : Decoder} {s : Text} {bytes : List UInt8} (h : d.decode s = some bytes) :
    ∃ a padded t, base64Decode a padded t = some bytes ∧ base64Body t = base64Body (trimSpace s) := by
  obtain ⟨a, padded, t, hdecode, ⟨-, rfl⟩ | ⟨-, n, rfl⟩⟩ := decode_eq_some h
  · exact ⟨a, padded, _, hdecode, rfl⟩
  · refine ⟨a, padded, _, hdecode, ?_⟩
    rw [base64Body_append_padding, base64Body, base64Body, trimSpace,
      filter_trim fun c hc hspace => break_of_isSpace hdecode (List.mem_append_left _ hc) hspace]

/-- A decoder that does not trim takes no rune outside the alphabets. -/
theorem Decoder.not_mem {d : Decoder} (hd : d ≠ .awg) {s : Text} {bytes : List UInt8} (h : d.decode s = some bytes)
    {c : Char} (hc : c ∉ "\n\r=".toList) (hnone : sextet .std c = none ∧ sextet .url c = none) : c ∉ s := by
  obtain ⟨a, padded, t, hdecode, ⟨hawg, -⟩ | ⟨-, n, rfl⟩⟩ := decode_eq_some h
  · exact absurd hawg hd
  · exact fun hmem => not_mem_of_base64Decode hdecode hc hnone (List.mem_append_left _ hmem)

theorem Decoder.agree {d d' : Decoder} {s : Text} {bytes bytes' : List UInt8} (h : d.decode s = some bytes)
    (h' : d'.decode s = some bytes') : bytes = bytes' := by
  obtain ⟨a, padded, t, hdecode, hbody⟩ := reads h
  obtain ⟨a', padded', t', hdecode', hbody'⟩ := reads h'
  exact base64Decode_agree (hbody.trans hbody'.symm) hdecode hdecode'

/-! ### The four encodings -/

theorem encoded_rune {a : Alphabet} {padded : Bool} {bytes : List UInt8} {c : Char}
    (hc : c ∈ base64Encode a padded bytes) : c = '=' ∨ (sextet a c).isSome = true := by
  rw [base64Encode_eq, List.mem_append] at hc
  obtain hc | hc := hc
  · obtain ⟨x, hx, rfl⟩ := List.mem_map.mp hc
    rw [sextet_sextetRune a (lt_of_mem_sextets bytes x hx)]
    exact .inr rfl
  · exact .inl (List.mem_replicate.mp hc).2

theorem trimSpace_encoded (a : Alphabet) (padded : Bool) (bytes : List UInt8) :
    trimSpace (base64Encode a padded bytes) = base64Encode a padded bytes := by
  refine trim_eq_self.mpr (edges_of_forall fun c hc => ?_)
  obtain rfl | hsome := encoded_rune hc
  · decide
  · exact isSpace_of_sextet hsome

/-- Padding completes an encoded text whether or not it was padded. -/
theorem padBase64_encoded (a : Alphabet) (padded : Bool) (bytes : List UInt8) :
    Xray.padBase64 (base64Encode a padded bytes) = base64Encode a true bytes := by
  rw [base64Encode_eq, base64Encode_eq, Xray.padBase64]
  generalize encodedBody a bytes = body
  cases padded with
  | true =>
      have hlength : (body ++ List.replicate (paddingLength true body.length) '=').length % 4 = 0 := by
        rw [List.length_append, List.length_replicate, paddingLength, if_pos rfl]
        omega
      rw [if_neg (not_not.mpr hlength)]
  | false =>
      have hnone : List.replicate (paddingLength false body.length) '=' = [] := rfl
      rw [hnone, List.append_nil, paddingLength, if_pos rfl]
      by_cases hlength : body.length % 4 = 0
      · rw [if_neg (not_not.mpr hlength), hlength]
        simp
      · have hmod : (4 - body.length % 4) % 4 = 4 - body.length % 4 := by omega
        rw [if_pos hlength, hmod]

/-- Some encoding a decoder tries reads what any of the four wrote. -/
theorem Decoder.isSome_decode_encoded (d : Decoder) (a : Alphabet) (padded : Bool) (bytes : List UInt8) :
    (d.decode (base64Encode a padded bytes)).isSome = true := by
  have hself := base64Decode_base64Encode a padded bytes
  have hpadded := base64Decode_base64Encode a true bytes
  cases d with
  | awg =>
      simp only [Decoder.decode, trimSpace_encoded]
      cases a <;> cases padded <;> simp [hself]
  | mihomo =>
      simp only [Decoder.decode]
      cases a <;> cases padded <;> simp [hself]
  | xray =>
      simp only [Decoder.decode, padBase64_encoded]
      cases a <;> simp [hpadded]

theorem Decoder.decode_encoded (d : Decoder) (a : Alphabet) (padded : Bool) (bytes : List UInt8) :
    d.decode (base64Encode a padded bytes) = some bytes := by
  obtain ⟨bytes', h⟩ := Option.isSome_iff_exists.mp (d.isSome_decode_encoded a padded bytes)
  obtain ⟨a', padded', t, hdecode, hbody⟩ := reads h
  rw [trimSpace_encoded] at hbody
  rw [h, base64Decode_agree hbody hdecode (base64Decode_base64Encode a padded bytes)]

/-- The three decoders give the same bytes of a text that more than one accepts, and every one of them gives back what
any of the four encodings wrote. -/
theorem decoders_agree_and_read_back :
    (∀ (s : Text) (d d' : Decoder) (bytes bytes' : List UInt8), d.decode s = some bytes → d'.decode s = some bytes' →
        bytes = bytes') ∧
      ∀ (d : Decoder) (a : Alphabet) (padded : Bool) (bytes : List UInt8),
        d.decode (base64Encode a padded bytes) = some bytes :=
  ⟨fun _ _ _ _ _ h h' => Decoder.agree h h', Decoder.decode_encoded⟩

/-- Half of a padding, which one of them completes; a line break, which two of them skip; and bytes whose runes the
alphabets do not share. -/
theorem decoders_agree_and_read_back_samples :
    Decoder.xray.decode "QQ=".toList = some [65] ∧ Decoder.mihomo.decode "QQ=".toList = none ∧
      (∀ bytes, Decoder.awg.decode "QQ==\n".toList = some bytes → bytes = [65]) ∧
      Decoder.xray.decode (base64Encode .std false [0xfb, 0xff]) = some [0xfb, 0xff] := by
  refine ⟨by decide, by decide, fun bytes h => ?_, decoders_agree_and_read_back.2 .xray .std false _⟩
  have hmihomo : Decoder.mihomo.decode "QQ==\n".toList = some [65] := by decide
  exact decoders_agree_and_read_back.1 _ .awg .mihomo bytes [65] h hmihomo

end GlitchCore.Links
