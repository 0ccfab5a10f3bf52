import GlitchCore.Base.Encoding
import GlitchCore.Base.Fallible

/-!
# Base64

The four encodings read back what they write, and those that read one text read the same bytes from it: the alphabets
differ in two runes that neither shares, and padding carries no bits.
-/

namespace Encoding

open GoText

/-! ### One text in several forms -/

/-- The runes a base64 text is read from. -/
def base64Body (s : Text) : Text := (s.filter fun c => c != '\n' && c != '\r').takeWhile (· != '=')

theorem sextet_agree {a a' : Alphabet} {c : Char} {n n' : Nat} (h : sextet a c = some n)
    (h' : sextet a' c = some n') : n = n' := by
  unfold sextet at h h'
  split at h
  · rename_i hc
    rw [if_pos hc] at h'
    exact Option.some.inj (h.symm.trans h')
  rename_i hupper
  rw [if_neg hupper] at h'
  split at h
  · rename_i hc
    rw [if_pos hc] at h'
    exact Option.some.inj (h.symm.trans h')
  rename_i hlower
  rw [if_neg hlower] at h'
  split at h
  · rename_i hc
    rw [if_pos hc] at h'
    exact Option.some.inj (h.symm.trans h')
  rename_i hdigit
  rw [if_neg hdigit] at h'
  -- the last two runes of one alphabet are none of the other's
  cases a <;> cases a' <;> simp only at h h' <;> grind

theorem mapM_sextet_agree {a a' : Alphabet} {s : Text} {xs xs' : List Nat} (h : s.mapM (sextet a) = some xs)
    (h' : s.mapM (sextet a') = some xs') : xs = xs' := by
  induction s generalizing xs xs' with
  | nil => exact Option.some.inj (h.symm.trans h')
  | cons c s ih =>
      rw [List.mapM_cons] at h h'
      obtain ⟨n, hn, h⟩ := Option.bind_eq_some_iff.mp h
      obtain ⟨ns, hns, h⟩ := Option.bind_eq_some_iff.mp h
      obtain ⟨n', hn', h'⟩ := Option.bind_eq_some_iff.mp h'
      obtain ⟨ns', hns', h'⟩ := Option.bind_eq_some_iff.mp h'
      obtain rfl := Option.some.inj h
      obtain rfl := Option.some.inj h'
      rw [sextet_agree hn hn', ih hns hns']

theorem base64Decode_eq_some {a : Alphabet} {padded : Bool} {s : Text} {bytes : List UInt8}
    (h : base64Decode a padded s = some bytes) :
    ∃ xs, (base64Body s).mapM (sextet a) = some xs ∧ octets xs = bytes ∧
      (s.filter fun c => c != '\n' && c != '\r').dropWhile (· != '=') =
        List.replicate (paddingLength padded (base64Body s).length) '=' := by
  unfold base64Decode at h
  simp only at h
  split at h
  · rename_i hshape
    obtain ⟨xs, hxs, hbytes⟩ := Option.map_eq_some_iff.mp h
    exact ⟨xs, hxs, hbytes, hshape.2⟩
  · cases h

/-- Two forms that read the same runes read the same bytes. -/
theorem base64Decode_agree {a a' : Alphabet} {padded padded' : Bool} {s s' : Text} {bytes bytes' : List UInt8}
    (hbody : base64Body s = base64Body s') (h : base64Decode a padded s = some bytes)
    (h' : base64Decode a' padded' s' = some bytes') : bytes = bytes' := by
  obtain ⟨xs, hxs, rfl, -⟩ := base64Decode_eq_some h
  obtain ⟨xs', hxs', rfl, -⟩ := base64Decode_eq_some h'
  rw [hbody] at hxs
  rw [mapM_sextet_agree hxs hxs']

theorem base64Body_append_padding (s : Text) (n : Nat) : base64Body (s ++ List.replicate n '=') = base64Body s := by
  have hpad : (List.replicate n '=').takeWhile (· != '=') = [] := by
    cases n <;> simp [List.replicate_succ]
  have hkeep : (List.replicate n '=').filter (fun c => c != '\n' && c != '\r') = List.replicate n '=' :=
    List.filter_eq_self.mpr fun c hc => by
      rw [(List.mem_replicate.mp hc).2]
      decide
  rw [base64Body, List.filter_append, hkeep, List.takeWhile_append, hpad, List.append_nil]
  split
  · rename_i hlen
    exact ((List.takeWhile_prefix _).eq_of_length hlen).symm
  · rfl

/-- A text that reads has no rune outside the alphabet but line breaks and padding. -/
theorem rune_of_base64Decode {a : Alphabet} {padded : Bool} {s : Text} {bytes : List UInt8}
    (h : base64Decode a padded s = some bytes) {c : Char} (hc : c ∈ s) :
    c = '\n' ∨ c = '\r' ∨ c = '=' ∨ (sextet a c).isSome = true := by
  obtain ⟨xs, hxs, -, hpadding⟩ := base64Decode_eq_some h
  by_cases hn : c = '\n'
  · exact .inl hn
  by_cases hr : c = '\r'
  · exact .inr (.inl hr)
  have hline : c ∈ s.filter fun c => c != '\n' && c != '\r' := List.mem_filter.mpr ⟨hc, by simp [hn, hr]⟩
  rw [← List.takeWhile_append_dropWhile (p := (· != '=')) (l := s.filter _), List.mem_append] at hline
  obtain hbody | hpad := hline
  · obtain ⟨n, hn⟩ := Fallible.exists_of_mapM hxs hbody
    exact .inr (.inr (.inr (Option.isSome_iff_exists.mpr ⟨n, hn⟩)))
  · rw [hpadding] at hpad
    exact .inr (.inr (.inl (List.mem_replicate.mp hpad).2))

theorem not_mem_of_base64Decode {a : Alphabet} {padded : Bool} {s : Text} {bytes : List UInt8}
    (h : base64Decode a padded s = some bytes) {c : Char} (hc : c ∉ "\n\r=".toList)
    (hnone : sextet .std c = none ∧ sextet .url c = none) : c ∉ s := by
  intro hmem
  obtain rfl | rfl | rfl | hsome := rune_of_base64Decode h hmem
  · exact hc (by decide)
  · exact hc (by decide)
  · exact hc (by decide)
  · cases a with
    | std => rw [hnone.1] at hsome; cases hsome
    | url => rw [hnone.2] at hsome; cases hsome

/-! ### What an encoding writes it reads -/

theorem sextet_sextetRune (a : Alphabet) {n : Nat} (hn : n < 64) : sextet a (sextetRune a n) = some n := by
  have hall : ∀ n < 64, sextet .std (sextetRune .std n) = some n ∧ sextet .url (sextetRune .url n) = some n := by decide
  cases a with
  | std => exact (hall n hn).1
  | url => exact (hall n hn).2

theorem mapM_sextet_map {a : Alphabet} {xs : List Nat} (hxs : ∀ x ∈ xs, x < 64) :
    (xs.map (sextetRune a)).mapM (sextet a) = some xs := by
  induction xs with
  | nil => rfl
  | cons x xs ih =>
      rw [List.map_cons, List.mapM_cons, sextet_sextetRune a (hxs x (by simp)), ih fun y hy => hxs y (by simp [hy])]
      rfl

theorem lt_of_mem_sextets (bytes : List UInt8) : ∀ x ∈ sextets bytes, x < 64 := by
  fun_induction sextets bytes with
  | case1 a b c rest ih =>
      have ha := a.toNat_lt
      have hb := b.toNat_lt
      have hc := c.toNat_lt
      simp only [List.mem_cons]
      rintro x (rfl | rfl | rfl | rfl | hx)
      · omega
      · omega
      · omega
      · omega
      · exact ih x hx
  | case2 a b =>
      have ha := a.toNat_lt
      have hb := b.toNat_lt
      simp only [List.mem_cons, List.not_mem_nil, or_false]
      rintro x (rfl | rfl | rfl) <;> omega
  | case3 a =>
      have ha := a.toNat_lt
      simp only [List.mem_cons, List.not_mem_nil, or_false]
      rintro x (rfl | rfl) <;> omega
  | case4 => simp

theorem ofNat_eq_of_mod {n : Nat} {b : UInt8} (h : n % 256 = b.toNat) : UInt8.ofNat n = b := by
  apply UInt8.toNat_inj.mp
  rw [UInt8.toNat_ofNat']
  exact h

theorem octets_sextets (bytes : List UInt8) : octets (sextets bytes) = bytes := by
  fun_induction sextets bytes with
  | case1 a b c rest ih =>
      have ha := a.toNat_lt
      have hb := b.toNat_lt
      have hc := c.toNat_lt
      rw [octets, ih, ofNat_eq_of_mod (b := a) (by omega), ofNat_eq_of_mod (b := b) (by omega),
        ofNat_eq_of_mod (b := c) (by omega)]
  | case2 a b =>
      have ha := a.toNat_lt
      have hb := b.toNat_lt
      rw [octets, ofNat_eq_of_mod (b := a) (by omega), ofNat_eq_of_mod (b := b) (by omega)]
  | case3 a =>
      have ha := a.toNat_lt
      rw [octets, ofNat_eq_of_mod (b := a) (by omega)]
  | case4 => rfl

theorem length_sextets (bytes : List UInt8) : (sextets bytes).length = (4 * bytes.length + 2) / 3 := by
  fun_induction sextets bytes with
  | case1 a b c rest ih =>
      simp only [List.length_cons, ih]
      omega
  | case2 a b => simp
  | case3 a => simp
  | case4 => rfl

/-- No rune of an encoded text is a line break or padding. -/
theorem sextetRune_plain (a : Alphabet) {n : Nat} (hn : n < 64) : sextetRune a n ∉ "\n\r=".toList := by
  have hall : ∀ n < 64, sextetRune .std n ∉ "\n\r=".toList ∧ sextetRune .url n ∉ "\n\r=".toList := by decide
  cases a with
  | std => exact (hall n hn).1
  | url => exact (hall n hn).2

/-- The runes of an encoded text before its padding. -/
def encodedBody (a : Alphabet) (bytes : List UInt8) : Text := (sextets bytes).map (sextetRune a)

theorem base64Encode_eq (a : Alphabet) (padded : Bool) (bytes : List UInt8) :
    base64Encode a padded bytes =
      encodedBody a bytes ++ List.replicate (paddingLength padded (encodedBody a bytes).length) '=' := rfl

theorem encodedBody_plain (a : Alphabet) (bytes : List UInt8) : ∀ c ∈ encodedBody a bytes, c ∉ "\n\r=".toList := by
  intro c hc
  obtain ⟨x, hx, rfl⟩ := List.mem_map.mp hc
  exact sextetRune_plain a (lt_of_mem_sextets bytes x hx)

theorem line_encoded (a : Alphabet) (bytes : List UInt8) (n : Nat) :
    (encodedBody a bytes ++ List.replicate n '=').filter (fun c => c != '\n' && c != '\r') =
      encodedBody a bytes ++ List.replicate n '=' := by
  refine List.filter_eq_self.mpr fun c hc => ?_
  obtain hc | hc := List.mem_append.mp hc
  · have hplain := encodedBody_plain a bytes c hc
    rw [Bool.and_eq_true, bne_iff_ne, bne_iff_ne]
    refine ⟨?_, ?_⟩
    · rintro rfl
      exact hplain (by decide)
    · rintro rfl
      exact hplain (by decide)
  · rw [(List.mem_replicate.mp hc).2]
    decide

theorem takeWhile_encoded (a : Alphabet) (bytes : List UInt8) (n : Nat) :
    (encodedBody a bytes ++ List.replicate n '=').takeWhile (· != '=') = encodedBody a bytes ∧
      (encodedBody a bytes ++ List.replicate n '=').dropWhile (· != '=') = List.replicate n '=' := by
  have hbody : ∀ c ∈ encodedBody a bytes, (c != '=') = true := by
    intro c hc
    rw [bne_iff_ne]
    rintro rfl
    exact encodedBody_plain a bytes _ hc (by decide)
  rw [List.takeWhile_append_of_pos hbody, List.dropWhile_append_of_pos hbody]
  cases n <;> simp [List.replicate_succ]

theorem base64Decode_base64Encode (a : Alphabet) (padded : Bool) (bytes : List UInt8) :
    base64Decode a padded (base64Encode a padded bytes) = some bytes := by
  obtain ⟨htake, hdrop⟩ := takeWhile_encoded a bytes (paddingLength padded (encodedBody a bytes).length)
  have hlength : (encodedBody a bytes).length % 4 ≠ 1 := by
    rw [encodedBody, List.length_map, length_sextets]
    omega
  rw [base64Encode_eq, base64Decode, line_encoded]
  rw [htake, hdrop, if_pos ⟨hlength, rfl⟩, encodedBody, mapM_sextet_map (lt_of_mem_sextets bytes), Option.map_some,
    octets_sextets]

end Encoding
