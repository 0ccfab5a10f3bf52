import GlitchCore.Base.Unescape

/-!
# A text as bytes and back

The bytes of a text are the UTF-8 encodings of its runes, and the runes of those bytes are the text. A rune is one byte
below 128 or several above it, so a byte below 128 stands in the bytes only where its rune stands in the text.
-/

namespace Encoding

open GoText

/-- The bytes of a text. -/
def utf8 (s : Text) : List UInt8 := s.flatMap String.utf8EncodeChar

theorem toNat_byte {n : Nat} (hn : n < 256) : (UInt8.ofNat n).toNat = n := by
  rw [UInt8.toNat_ofNat']
  exact Nat.mod_eq_of_lt hn

theorem le_byte {n m : Nat} (hn : n < 256) (hm : m < 256) : UInt8.ofNat m ≤ UInt8.ofNat n ↔ m ≤ n := by
  rw [UInt8.le_iff_toNat_le, toNat_byte hn, toNat_byte hm]

theorem eq_of_byte {n m : Nat} (hn : n < 256) (hm : m < 256) (h : UInt8.ofNat n = UInt8.ofNat m) : n = m := by
  rw [← toNat_byte hn, h, toNat_byte hm]

theorem continues_byte {n : Nat} (hn : n < 64) : continues (UInt8.ofNat (n + 128)) = true := by
  rw [continues, Bool.and_eq_true, decide_eq_true_iff, decide_eq_true_iff]
  exact ⟨(le_byte (m := 128) (by omega) (by omega)).mpr (by omega), (le_byte (n := 0xbf) (by omega) (by omega)).mpr (by omega)⟩

theorem rune1_eq_none {n : Nat} (hlow : 128 ≤ n) (hn : n < 256) (rest : List UInt8) : rune1 (UInt8.ofNat n :: rest) = none := by
  have hlead : ¬ UInt8.ofNat n < 0x80 := by
    rw [UInt8.not_lt]
    exact (le_byte (m := 128) hn (by omega)).mpr hlow
  rw [rune1, if_neg hlead]

theorem rune2_eq_none {n : Nat} (hlow : 0xe0 ≤ n) (hn : n < 256) (rest : List UInt8) : rune2 (UInt8.ofNat n :: rest) = none := by
  have hlead : ¬ UInt8.ofNat n ≤ 0xdf := fun hle => absurd ((le_byte (n := 0xdf) (by omega) hn).mp hle) (by omega)
  cases rest with
  | nil => rfl
  | cons c rest => rw [rune2, if_neg fun h => hlead h.2.1]

theorem rune3_eq_none {n : Nat} (hlow : 0xf0 ≤ n) (hn : n < 256) (rest : List UInt8) : rune3 (UInt8.ofNat n :: rest) = none := by
  have hlead : ¬ UInt8.ofNat n ≤ 0xef := fun hle => absurd ((le_byte (n := 0xef) (by omega) hn).mp hle) (by omega)
  cases rest with
  | nil => rfl
  | cons c rest =>
      cases rest with
      | nil => rfl
      | cons d rest => rw [rune3, if_neg fun h => hlead h.2.1]

theorem rune2_bytes {n m : Nat} (hlow : 2 ≤ n) (hhigh : n < 32) (hm : m < 64) (rest : List UInt8) :
    rune2 (UInt8.ofNat (n + 192) :: UInt8.ofNat (m + 128) :: rest) = some (Char.ofNat (64 * n + m)) := by
  have hlead : 0xc2 ≤ UInt8.ofNat (n + 192) := (le_byte (m := 0xc2) (by omega) (by omega)).mpr (by omega)
  have hlead' : UInt8.ofNat (n + 192) ≤ 0xdf := (le_byte (n := 0xdf) (by omega) (by omega)).mpr (by omega)
  rw [rune2, if_pos ⟨hlead, hlead', continues_byte hm⟩, toNat_byte (by omega), toNat_byte (by omega)]
  simp only [Nat.add_sub_cancel]

theorem rune3_bytes {n m k : Nat} (hhigh : n < 16) (hm : m < 64) (hk : k < 64) (hlow : n = 0 → 32 ≤ m)
    (hsurrogate : n = 13 → m < 32) (rest : List UInt8) :
    rune3 (UInt8.ofNat (n + 224) :: UInt8.ofNat (m + 128) :: UInt8.ofNat (k + 128) :: rest) =
      some (Char.ofNat (4096 * n + 64 * m + k)) := by
  have hlead : 0xe0 ≤ UInt8.ofNat (n + 224) := (le_byte (m := 0xe0) (by omega) (by omega)).mpr (by omega)
  have hlead' : UInt8.ofNat (n + 224) ≤ 0xef := (le_byte (n := 0xef) (by omega) (by omega)).mpr (by omega)
  have hshort : UInt8.ofNat (n + 224) = 0xe0 → 0xa0 ≤ UInt8.ofNat (m + 128) := by
    intro heq
    have hzero := eq_of_byte (m := 0xe0) (by omega) (by omega) heq
    exact (le_byte (m := 0xa0) (by omega) (by omega)).mpr (by omega)
  have hpair : UInt8.ofNat (n + 224) = 0xed → UInt8.ofNat (m + 128) ≤ 0x9f := by
    intro heq
    have hthirteen := eq_of_byte (m := 0xed) (by omega) (by omega) heq
    exact (le_byte (n := 0x9f) (by omega) (by omega)).mpr (by omega)
  rw [rune3, if_pos ⟨hlead, hlead', continues_byte hm, continues_byte hk, hshort, hpair⟩, toNat_byte (by omega),
    toNat_byte (by omega), toNat_byte (by omega)]
  simp only [Nat.add_sub_cancel]

theorem rune4_bytes {n m k l : Nat} (hhigh : n < 5) (hm : m < 64) (hk : k < 64) (hl : l < 64) (hlow : n = 0 → 16 ≤ m)
    (htop : n = 4 → m < 16) (rest : List UInt8) :
    rune4 (UInt8.ofNat (n + 240) :: UInt8.ofNat (m + 128) :: UInt8.ofNat (k + 128) :: UInt8.ofNat (l + 128) :: rest) =
      some (Char.ofNat (262144 * n + 4096 * m + 64 * k + l)) := by
  have hlead : 0xf0 ≤ UInt8.ofNat (n + 240) := (le_byte (m := 0xf0) (by omega) (by omega)).mpr (by omega)
  have hlead' : UInt8.ofNat (n + 240) ≤ 0xf4 := (le_byte (n := 0xf4) (by omega) (by omega)).mpr (by omega)
  have hshort : UInt8.ofNat (n + 240) = 0xf0 → 0x90 ≤ UInt8.ofNat (m + 128) := by
    intro heq
    have hzero := eq_of_byte (m := 0xf0) (by omega) (by omega) heq
    exact (le_byte (m := 0x90) (by omega) (by omega)).mpr (by omega)
  have hlast : UInt8.ofNat (n + 240) = 0xf4 → UInt8.ofNat (m + 128) ≤ 0x8f := by
    intro heq
    have hfour := eq_of_byte (m := 0xf4) (by omega) (by omega) heq
    exact (le_byte (n := 0x8f) (by omega) (by omega)).mpr (by omega)
  rw [rune4, if_pos ⟨hlead, hlead', continues_byte hm, continues_byte hk, continues_byte hl, hshort, hlast⟩,
    toNat_byte (by omega), toNat_byte (by omega), toNat_byte (by omega), toNat_byte (by omega)]
  simp only [Nat.add_sub_cancel]

theorem valid_toNat (c : Char) : c.toNat < 0xd800 ∨ 0xdfff < c.toNat ∧ c.toNat < 0x110000 := c.valid

theorem decodeRune_encode (c : Char) (rest : List UInt8) :
    decodeRune (String.utf8EncodeChar c ++ rest) = (c, (String.utf8EncodeChar c).length) := by
  have hof : Char.ofNat c.toNat = c := Char.ofNat_toNat c
  have hvalid := valid_toNat c
  have hval : c.val.toNat = c.toNat := rfl
  unfold String.utf8EncodeChar
  simp only [hval]
  generalize c.toNat = v at hof hvalid
  split
  · have hlead : UInt8.ofNat v < 0x80 := by
      rw [UInt8.lt_iff_toNat_lt, toNat_byte (by omega)]
      change v < 128
      omega
    rw [decodeRune, List.cons_append, rune1, if_pos hlead, toNat_byte (by omega), hof]
    rfl
  split
  · have hrune := rune2_bytes (n := v / 64 % 32) (m := v % 64) (by omega) (by omega) (by omega) rest
    have hvalue : 64 * (v / 64 % 32) + v % 64 = v := by omega
    rw [hvalue, hof] at hrune
    rw [decodeRune, List.cons_append, List.cons_append, List.nil_append, rune1_eq_none (by omega) (by omega), hrune]
    rfl
  split
  · have hrune := rune3_bytes (n := v / 4096 % 16) (m := v / 64 % 64) (k := v % 64) (by omega) (by omega) (by omega)
      (by omega) (by omega) rest
    have hvalue : 4096 * (v / 4096 % 16) + 64 * (v / 64 % 64) + v % 64 = v := by omega
    rw [hvalue, hof] at hrune
    simp only [List.cons_append, List.nil_append]
    rw [decodeRune, rune1_eq_none (by omega) (by omega), rune2_eq_none (by omega) (by omega), hrune]
    rfl
  · have hrune := rune4_bytes (n := v / 262144 % 8) (m := v / 4096 % 64) (k := v / 64 % 64) (l := v % 64) (by omega)
      (by omega) (by omega) (by omega) (by omega) (by omega) rest
    have hvalue : 262144 * (v / 262144 % 8) + 4096 * (v / 4096 % 64) + 64 * (v / 64 % 64) + v % 64 = v := by omega
    rw [hvalue, hof] at hrune
    simp only [List.cons_append, List.nil_append]
    rw [decodeRune, rune1_eq_none (by omega) (by omega), rune2_eq_none (by omega) (by omega),
      rune3_eq_none (by omega) (by omega), hrune]
    rfl

theorem leadingBytes_map (bytes : List UInt8) : leadingBytes (bytes.map .inr) = bytes := by
  induction bytes with
  | nil => rfl
  | cons b bytes ih => rw [List.map_cons, leadingBytes, ih]

theorem textOf_utf8 (s : Text) : textOf (utf8 s) = s := by
  induction s with
  | nil => rfl
  | cons c s ih =>
      obtain ⟨b, bytes, hbytes⟩ := List.exists_cons_of_ne_nil (String.utf8EncodeChar_ne_nil (c := c))
      have hdecode : decodeRune (b :: (bytes ++ utf8 s)) = (c, bytes.length + 1) := by
        rw [← List.cons_append, ← hbytes, decodeRune_encode, hbytes, List.length_cons]
      have hwidth : width b (List.map Sum.inr (bytes ++ utf8 s)) = bytes.length + 1 := by
        rw [width, ← List.map_cons, leadingBytes_map, hdecode]
      have hsplit : utf8 (c :: s) = b :: (bytes ++ utf8 s) := by
        rw [utf8, List.flatMap_cons, hbytes, List.cons_append]
        rfl
      rw [hsplit, textOf, List.map_cons, runes_inr, ← List.map_cons, leadingBytes_map, hdecode, hwidth, ← List.map_drop,
        List.drop_succ_cons, List.drop_left]
      exact congrArg (c :: ·) ih

theorem high_byte {n : Nat} (hlow : 128 ≤ n) (hn : n < 256) : 128 ≤ (UInt8.ofNat n).toNat := by
  rwa [toNat_byte hn]

/-- A rune is one byte below 128, or all its bytes are above. -/
theorem utf8EncodeChar_low (c : Char) :
    String.utf8EncodeChar c = [UInt8.ofNat c.toNat] ∧ c.toNat < 128 ∨ ∀ b ∈ String.utf8EncodeChar c, 128 ≤ b.toNat := by
  have hval : c.val.toNat = c.toNat := rfl
  unfold String.utf8EncodeChar
  simp only [hval]
  split
  · exact .inl ⟨rfl, by omega⟩
  · right
    split
    · simp only [List.forall_mem_cons]
      exact ⟨high_byte (by omega) (by omega), high_byte (by omega) (by omega), List.forall_mem_nil _⟩
    split
    · simp only [List.forall_mem_cons]
      exact ⟨high_byte (by omega) (by omega), high_byte (by omega) (by omega), high_byte (by omega) (by omega),
        List.forall_mem_nil _⟩
    · simp only [List.forall_mem_cons]
      exact ⟨high_byte (by omega) (by omega), high_byte (by omega) (by omega), high_byte (by omega) (by omega),
        high_byte (by omega) (by omega), List.forall_mem_nil _⟩

/-- A byte below 128 is a rune of the text. -/
theorem mem_utf8 {s : Text} {b : UInt8} (hb : b ∈ utf8 s) (hlow : b.toNat < 128) : ∃ c ∈ s, c.toNat = b.toNat := by
  obtain ⟨c, hc, hmem⟩ := List.mem_flatMap.mp hb
  obtain ⟨hone, hlt⟩ | hhigh := utf8EncodeChar_low c
  · rw [hone] at hmem
    obtain rfl := List.mem_singleton.mp hmem
    exact ⟨c, hc, (toNat_byte (by omega)).symm⟩
  · exact absurd hlow (Nat.not_lt.mpr (hhigh b hmem))

end Encoding
