import GlitchCore.Base.Base64
import GlitchCore.Base.Url

/-!
# What decoding leaves as it is

Percent-decoding shortens every text it changes, keeps the runes that stand for themselves, and may be done on both
sides of one; escaping keeps a text of plain runes.
-/

namespace Encoding

open GoText

/-! ### Runes of pieces -/

theorem length_of_rune2 {bytes : List UInt8} {c : Char} (h : rune2 bytes = some c) : 2 ≤ bytes.length := by
  rcases bytes with _ | ⟨a, _ | ⟨b, rest⟩⟩
  · cases h
  · cases h
  · simp

theorem length_of_rune3 {bytes : List UInt8} {c : Char} (h : rune3 bytes = some c) : 3 ≤ bytes.length := by
  rcases bytes with _ | ⟨a, _ | ⟨b, _ | ⟨c, rest⟩⟩⟩
  · cases h
  · cases h
  · cases h
  · simp

theorem length_of_rune4 {bytes : List UInt8} {c : Char} (h : rune4 bytes = some c) : 4 ≤ bytes.length := by
  rcases bytes with _ | ⟨a, _ | ⟨b, _ | ⟨c, _ | ⟨d, rest⟩⟩⟩⟩
  · cases h
  · cases h
  · cases h
  · cases h
  · simp

theorem one_le_width (bytes : List UInt8) : 1 ≤ (decodeRune bytes).2 := by
  unfold decodeRune
  split <;> simp

theorem width_le {bytes : List UInt8} (hne : bytes ≠ []) : (decodeRune bytes).2 ≤ bytes.length := by
  have hpos : 1 ≤ bytes.length := List.length_pos_of_ne_nil hne
  unfold decodeRune
  split
  · exact hpos
  · exact length_of_rune2 ‹_›
  · exact length_of_rune3 ‹_›
  · exact length_of_rune4 ‹_›
  · exact hpos

/-- How many pieces the rune takes that begins with a byte. -/
def width (b : UInt8) (rest : List Piece) : Nat := (decodeRune (leadingBytes (.inr b :: rest))).2

theorem length_drop_width (b : UInt8) (rest : List Piece) :
    ((Sum.inr b :: rest : List Piece).drop (width b rest)).length ≤ rest.length := by
  have hwidth : 1 ≤ width b rest := one_le_width _
  rw [List.length_drop, List.length_cons]
  omega

/-- Pieces are read a rune that stands for itself, or the bytes of one, at a time. -/
theorem pieces_induction {motive : List Piece → Prop} (nil : motive [])
    (inl : ∀ c rest, motive rest → motive (.inl c :: rest))
    (inr : ∀ b rest, motive ((Sum.inr b :: rest : List Piece).drop (width b rest)) → motive (.inr b :: rest)) :
    ∀ pieces, motive pieces := by
  have hany : ∀ n (pieces : List Piece), pieces.length ≤ n → motive pieces := by
    intro n
    induction n with
    | zero =>
        intro pieces hn
        obtain rfl := List.eq_nil_of_length_eq_zero (Nat.le_zero.mp hn)
        exact nil
    | succ n ih =>
        intro pieces hn
        cases pieces with
        | nil => exact nil
        | cons piece rest =>
            rw [List.length_cons] at hn
            cases piece with
            | inl c => exact inl c rest (ih rest (by omega))
            | inr b => exact inr b rest (ih _ (Nat.le_trans (length_drop_width b rest) (by omega)))
  intro pieces
  exact hany _ pieces (Nat.le_refl _)

/-- The fuel is never used up before the pieces are. -/
theorem runesLoop_eq_runesLoop (pieces : List Piece) : ∀ fuel fuel', pieces.length ≤ fuel → pieces.length ≤ fuel' →
    runesLoop fuel pieces = runesLoop fuel' pieces := by
  induction pieces using pieces_induction with
  | nil =>
      intro fuel fuel' _ _
      cases fuel <;> cases fuel' <;> rfl
  | inl c rest ih =>
      intro fuel fuel' hfuel hfuel'
      cases fuel with
      | zero => cases hfuel
      | succ fuel =>
          cases fuel' with
          | zero => cases hfuel'
          | succ fuel' =>
              rw [runesLoop, runesLoop, ih fuel fuel' (Nat.le_of_succ_le_succ hfuel) (Nat.le_of_succ_le_succ hfuel')]
  | inr b rest ih =>
      intro fuel fuel' hfuel hfuel'
      have hlen := length_drop_width b rest
      cases fuel with
      | zero => cases hfuel
      | succ fuel =>
          cases fuel' with
          | zero => cases hfuel'
          | succ fuel' =>
              exact congrArg (_ :: ·) (ih fuel fuel' (Nat.le_trans hlen (Nat.le_of_succ_le_succ hfuel))
                (Nat.le_trans hlen (Nat.le_of_succ_le_succ hfuel')))

@[simp] theorem runes_nil : runes [] = [] := rfl

@[simp] theorem runes_inl (c : Char) (rest : List Piece) : runes (.inl c :: rest) = c :: runes rest := rfl

theorem runes_inr (b : UInt8) (rest : List Piece) : runes (.inr b :: rest) =
    (decodeRune (leadingBytes (.inr b :: rest))).1 :: runes ((Sum.inr b :: rest : List Piece).drop (width b rest)) :=
  congrArg (_ :: ·) (runesLoop_eq_runesLoop _ _ _ (length_drop_width b rest) (Nat.le_refl _))

theorem length_leadingBytes_le (pieces : List Piece) : (leadingBytes pieces).length ≤ pieces.length := by
  induction pieces with
  | nil => simp [leadingBytes]
  | cons piece rest ih =>
      cases piece with
      | inl c => simp [leadingBytes]
      | inr b => simpa [leadingBytes] using ih

theorem leadingBytes_append (pieces : List Piece) (c : Char) (rest : List Piece) :
    leadingBytes (pieces ++ .inl c :: rest) = leadingBytes pieces := by
  induction pieces with
  | nil => rfl
  | cons piece pieces ih =>
      cases piece with
      | inl d => rfl
      | inr b => rw [List.cons_append, leadingBytes, leadingBytes, ih]

theorem width_append (b : UInt8) (pieces : List Piece) (c : Char) (rest : List Piece) :
    width b (pieces ++ .inl c :: rest) = width b pieces := by
  rw [width, ← List.cons_append, leadingBytes_append, width]

theorem length_runes_le (pieces : List Piece) : (runes pieces).length ≤ pieces.length := by
  induction pieces using pieces_induction with
  | nil => simp
  | inl c rest ih => simpa using ih
  | inr b rest ih =>
      have hlen := length_drop_width b rest
      rw [runes_inr, List.length_cons, List.length_cons]
      omega

/-- A rune that stands for itself separates what is decoded before it from what is decoded behind it. -/
theorem runes_append_inl (pieces : List Piece) (c : Char) (rest : List Piece) :
    runes (pieces ++ .inl c :: rest) = runes pieces ++ c :: runes rest := by
  induction pieces using pieces_induction with
  | nil => rfl
  | inl d pieces ih => rw [List.cons_append, runes_inl, runes_inl, ih, List.cons_append]
  | inr b pieces ih =>
      have hbytes := length_leadingBytes_le (.inr b :: pieces)
      have hwidth : width b pieces ≤ (leadingBytes (.inr b :: pieces)).length :=
        width_le (List.cons_ne_nil b (leadingBytes pieces))
      rw [List.cons_append, runes_inr, runes_inr, width_append, ← List.cons_append, leadingBytes_append,
        List.drop_append_of_le_length (by omega), ih, List.cons_append]

theorem runes_map_inl (s : Text) : runes (s.map .inl) = s := by
  induction s with
  | nil => rfl
  | cons c s ih => rw [List.map_cons, runes_inl, ih]

end Encoding

namespace Url

open GoText Encoding

/-! ### Percent escapes -/

variable {mode : Mode} {s t : Text}

theorem piecesOf_percent {high low : Char} {n m : Nat} (hn : unhex high = some n) (hm : unhex low = some m)
    (hmay : mayEscape mode (16 * n + m) = true) (rest : Text) : piecesOf mode ('%' :: high :: low :: rest) =
      (piecesOf mode rest).map (.inr (UInt8.ofNat (16 * n + m)) :: ·) := by
  rw [piecesOf]
  simp only [if_true, hn, hm, if_pos hmay]

theorem piecesOf_plain {c : Char} (hc : c ≠ '%') (hstand : mayStand mode c = true) (rest : Text) :
    piecesOf mode (c :: rest) =
      (piecesOf mode rest).map (.inl (if mode = .queryComponent ∧ c = '+' then ' ' else c) :: ·) := by
  rw [piecesOf.eq_def]
  simp only [if_neg hc, if_pos hstand]

/-- What a text that reads begins with: an escape, or a rune that stands for itself. -/
theorem piecesOf_cons {c : Char} {ps : List Piece} (h : piecesOf mode (c :: s) = some ps) :
    (c = '%' ∧ ∃ high low rest n m ps', s = high :: low :: rest ∧ unhex high = some n ∧ unhex low = some m ∧
        mayEscape mode (16 * n + m) = true ∧ piecesOf mode rest = some ps' ∧
        ps = .inr (UInt8.ofNat (16 * n + m)) :: ps') ∨
      (c ≠ '%' ∧ mayStand mode c = true ∧ ∃ ps', piecesOf mode s = some ps' ∧
        ps = .inl (if mode = .queryComponent ∧ c = '+' then ' ' else c) :: ps') := by
  unfold piecesOf at h
  by_cases hc : c = '%'
  · rw [if_pos hc] at h
    left
    refine ⟨hc, ?_⟩
    split at h
    · rename_i high low rest
      split at h
      · rename_i n m hn hm
        split at h
        · rename_i hmay
          obtain ⟨ps', hps', rfl⟩ := Option.map_eq_some_iff.mp h
          exact ⟨high, low, rest, n, m, ps', rfl, hn, hm, hmay, hps', rfl⟩
        · cases h
      · cases h
    · cases h
  · rw [if_neg hc] at h
    right
    split at h
    · rename_i hstand
      obtain ⟨ps', hps', rfl⟩ := Option.map_eq_some_iff.mp h
      exact ⟨hc, hstand, ps', hps', rfl⟩
    · cases h

/-- Texts that read, an escape or a rune at a time. -/
theorem piecesOf_induction (mode : Mode) {motive : Text → List Piece → Prop} (nil : motive [] [])
    (escaped : ∀ high low rest n m ps, unhex high = some n → unhex low = some m →
      mayEscape mode (16 * n + m) = true → piecesOf mode rest = some ps → motive rest ps →
      motive ('%' :: high :: low :: rest) (.inr (UInt8.ofNat (16 * n + m)) :: ps))
    (plain : ∀ c rest ps, c ≠ '%' → mayStand mode c = true → piecesOf mode rest = some ps → motive rest ps →
      motive (c :: rest) (.inl (if mode = .queryComponent ∧ c = '+' then ' ' else c) :: ps)) :
    ∀ s ps, piecesOf mode s = some ps → motive s ps := by
  have hany : ∀ n (s : Text) ps, s.length ≤ n → piecesOf mode s = some ps → motive s ps := by
    intro n
    induction n with
    | zero =>
        intro s ps hn h
        obtain rfl := List.eq_nil_of_length_eq_zero (Nat.le_zero.mp hn)
        obtain rfl := Option.some.inj h
        exact nil
    | succ n ih =>
        intro s ps hn h
        cases s with
        | nil =>
            obtain rfl := Option.some.inj h
            exact nil
        | cons c s =>
            rw [List.length_cons] at hn
            obtain ⟨rfl, high, low, rest, n', m, ps', rfl, hn', hm, hmay, hps', rfl⟩ | ⟨hc, hstand, ps', hps', rfl⟩ :=
              piecesOf_cons h
            · rw [List.length_cons, List.length_cons] at hn
              exact escaped high low rest n' m ps' hn' hm hmay hps' (ih rest ps' (by omega) hps')
            · exact plain c s ps' hc hstand hps' (ih s ps' (by omega) hps')
  intro s ps
  exact hany _ s ps (Nat.le_refl _)

theorem length_piecesOf {ps : List Piece} (h : piecesOf mode s = some ps) :
    ps.length ≤ s.length ∧ ('%' ∈ s → ps.length < s.length) := by
  revert h
  refine piecesOf_induction mode (motive := fun s ps => ps.length ≤ s.length ∧ ('%' ∈ s → ps.length < s.length))
    ?_ ?_ ?_ s ps
  · simp
  · rintro high low rest n m ps - - - - ⟨hle, -⟩
    simp only [List.length_cons]
    exact ⟨by omega, fun _ => by omega⟩
  · rintro c rest ps hc - - ⟨hle, hlt⟩
    simp only [List.length_cons, List.mem_cons]
    exact ⟨by omega, fun hmem => by have := hlt (hmem.resolve_left hc.symm); omega⟩

/-- Decoding never makes a text longer, and makes one with an escape shorter. -/
theorem length_unescape_le (h : unescape mode s = some t) : t.length ≤ s.length := by
  obtain ⟨ps, hps, rfl⟩ := Option.map_eq_some_iff.mp h
  exact Nat.le_trans (length_runes_le ps) (length_piecesOf hps).1

theorem length_unescape_lt (h : unescape mode s = some t) (hs : '%' ∈ s) : t.length < s.length := by
  obtain ⟨ps, hps, rfl⟩ := Option.map_eq_some_iff.mp h
  exact Nat.lt_of_le_of_lt (length_runes_le ps) ((length_piecesOf hps).2 hs)

theorem piecesOf_of_not_mem {ps : List Piece} (hmode : mode ≠ .queryComponent) (h : piecesOf mode s = some ps)
    (hs : '%' ∉ s) : ps = s.map .inl := by
  revert h hs
  refine piecesOf_induction mode (motive := fun s ps => '%' ∉ s → ps = s.map .inl) ?_ ?_ ?_ s ps
  · simp
  · intro high low rest n m ps _ _ _ _ _ hs
    exact absurd (List.mem_cons_self ..) hs
  · intro c rest ps _ _ _ ih hs
    rw [List.map_cons, ih fun hmem => hs (List.mem_cons_of_mem c hmem), if_neg fun hplus => hmode hplus.1]

theorem unescape_of_not_mem (hmode : mode ≠ .queryComponent) (h : unescape mode s = some t) (hs : '%' ∉ s) :
    t = s := by
  obtain ⟨ps, hps, rfl⟩ := Option.map_eq_some_iff.mp h
  rw [piecesOf_of_not_mem hmode hps hs, runes_map_inl]

theorem unescape_eq_self_iff (hmode : mode ≠ .queryComponent) (h : unescape mode s = some t) : s = t ↔ '%' ∉ s := by
  refine ⟨fun heq hs => ?_, fun hs => (unescape_of_not_mem hmode h hs).symm⟩
  have hlt := length_unescape_lt h hs
  rw [heq] at hlt
  exact Nat.lt_irrefl _ hlt

/-- A rune that is no part of an escape cuts a text into two that read on their own. -/
theorem piecesOf_append {c : Char} (hmode : mode ≠ .queryComponent) (hc : c ≠ '%') (hhex : unhex c = none) {t : Text}
    {ps : List Piece} (h : piecesOf mode (s ++ c :: t) = some ps) :
    ∃ front back, piecesOf mode s = some front ∧ piecesOf mode t = some back ∧ ps = front ++ .inl c :: back := by
  have hself : ∀ d : Char, (if mode = .queryComponent ∧ d = '+' then ' ' else d) = d :=
    fun d => if_neg fun hplus => hmode hplus.1
  have hany : ∀ n (s : Text) ps, s.length ≤ n → piecesOf mode (s ++ c :: t) = some ps →
      ∃ front back, piecesOf mode s = some front ∧ piecesOf mode t = some back ∧ ps = front ++ .inl c :: back := by
    intro n
    induction n with
    | zero =>
        intro s ps hn h
        obtain rfl := List.eq_nil_of_length_eq_zero (Nat.le_zero.mp hn)
        obtain ⟨hpercent, -⟩ | ⟨-, -, ps', hps', rfl⟩ := piecesOf_cons h
        · exact absurd hpercent hc
        · exact ⟨[], ps', rfl, hps', by rw [hself]; rfl⟩
    | succ n ih =>
        intro s ps hn h
        cases s with
        | nil => exact ih [] ps (Nat.zero_le n) h
        | cons d s =>
            rw [List.length_cons] at hn
            rw [List.cons_append] at h
            obtain ⟨rfl, high, low, rest, n', m, ps', hs, hn', hm, hmay, hps', rfl⟩ | ⟨hd, hstand, ps', hps', rfl⟩ :=
              piecesOf_cons h
            · -- the two digits of the escape stand before the rune
              rcases s with _ | ⟨x, _ | ⟨y, s⟩⟩
              · simp only [List.nil_append, List.cons.injEq] at hs
                rw [← hs.1, hhex] at hn'
                cases hn'
              · simp only [List.cons_append, List.nil_append, List.cons.injEq] at hs
                rw [← hs.2.1, hhex] at hm
                cases hm
              · simp only [List.cons_append, List.cons.injEq] at hs
                obtain ⟨rfl, rfl, rfl⟩ := hs
                simp only [List.length_cons] at hn
                obtain ⟨front, back, hfront, hback, rfl⟩ := ih s ps' (by omega) hps'
                refine ⟨.inr (UInt8.ofNat (16 * n' + m)) :: front, back, ?_, hback, rfl⟩
                rw [piecesOf_percent hn' hm hmay, hfront]
                rfl
            · obtain ⟨front, back, hfront, hback, rfl⟩ := ih s ps' (by omega) hps'
              refine ⟨.inl d :: front, back, ?_, hback, by rw [hself]; rfl⟩
              rw [piecesOf_plain hd hstand, hfront, hself]
              rfl
  exact hany _ s ps (Nat.le_refl _) h

theorem unescape_append {c : Char} (hmode : mode ≠ .queryComponent) (hc : c ≠ '%') (hhex : unhex c = none)
    {r : Text} (h : unescape mode (s ++ c :: t) = some r) :
    ∃ a b, unescape mode s = some a ∧ unescape mode t = some b ∧ r = a ++ c :: b := by
  obtain ⟨ps, hps, rfl⟩ := Option.map_eq_some_iff.mp h
  obtain ⟨front, back, hfront, hback, rfl⟩ := piecesOf_append hmode hc hhex hps
  exact ⟨runes front, runes back, by rw [unescape, hfront]; rfl, by rw [unescape, hback]; rfl, runes_append_inl ..⟩

theorem escape_of_forall (hmode : mode ≠ .queryComponent) (hs : ∀ c ∈ s, shouldEscape mode c = false) :
    escape mode s = s := by
  induction s with
  | nil => rfl
  | cons c s ih =>
      have hone : escapeRune mode c = [c] := by
        rw [escapeRune, if_neg fun hplus => hmode hplus.1, hs c (by simp), if_neg Bool.false_ne_true]
      rw [escape, List.flatMap_cons, hone, ← escape, ih fun d hd => hs d (by simp [hd])]
      rfl

/-! ### Path segments -/

/-- A byte that stands for itself in a segment of a path. -/
def segmentPlain (b : UInt8) : Bool :=
  isAlphanumeric (Char.ofNat b.toNat) || "-_.~$&+:=@".toList.contains (Char.ofNat b.toNat)

def escapeByte (b : UInt8) : Text :=
  if segmentPlain b then [Char.ofNat b.toNat]
  else ['%', upperHexDigit (b.toNat / 16), upperHexDigit (b.toNat % 16)]

/-- `PathEscape`, of any bytes. -/
def pathEscape (bytes : List UInt8) : Text := bytes.flatMap escapeByte

def pieceBytes : Piece → List UInt8
  | .inl c => String.utf8EncodeChar c
  | .inr b => [b]

/-- `PathUnescape`, with the bytes it gives. -/
def pathUnescape (s : Text) : Option (List UInt8) := (piecesOf .path s).map fun pieces => pieces.flatMap pieceBytes

/-- What a byte is read back as. -/
def pieceOf (b : UInt8) : Piece := if segmentPlain b then .inl (Char.ofNat b.toNat) else .inr b

theorem pieceBytes_pieceOf (b : UInt8) : pieceBytes (pieceOf b) = [b] := by
  have hall : ∀ n < 256, pieceBytes (pieceOf (UInt8.ofNat n)) = [UInt8.ofNat n] := by decide +kernel
  have hb := hall b.toNat b.toNat_lt
  rw [UInt8.ofNat_toNat] at hb
  exact hb

theorem segmentPlain_ne_percent {b : UInt8} (h : segmentPlain b = true) : Char.ofNat b.toNat ≠ '%' := by
  intro heq
  rw [segmentPlain, heq] at h
  exact absurd h (by decide)

theorem unhex_upperHexDigit {n : Nat} (hn : n < 16) : unhex (upperHexDigit n) = some n := by
  have hall : ∀ n < 16, unhex (upperHexDigit n) = some n := by decide
  exact hall n hn

theorem piecesOf_escapeByte (b : UInt8) (rest : Text) :
    piecesOf .path (escapeByte b ++ rest) = (piecesOf .path rest).map (pieceOf b :: ·) := by
  have hb := b.toNat_lt
  unfold escapeByte pieceOf
  split
  · rename_i hplain
    rw [List.cons_append, List.nil_append, piecesOf_plain (segmentPlain_ne_percent hplain) rfl]
    rfl
  · have hbyte : UInt8.ofNat (16 * (b.toNat / 16) + b.toNat % 16) = b := ofNat_eq_of_mod (by omega)
    rw [List.cons_append, List.cons_append, List.cons_append, List.nil_append,
      piecesOf_percent (unhex_upperHexDigit (by omega)) (unhex_upperHexDigit (by omega)) rfl, hbyte]

theorem piecesOf_pathEscape (bytes : List UInt8) : piecesOf .path (pathEscape bytes) = some (bytes.map pieceOf) := by
  induction bytes with
  | nil => rfl
  | cons b bytes ih =>
      rw [pathEscape, List.flatMap_cons, piecesOf_escapeByte, ← pathEscape, ih]
      rfl

theorem pathUnescape_pathEscape (bytes : List UInt8) : pathUnescape (pathEscape bytes) = some bytes := by
  have hbytes : (bytes.map pieceOf).flatMap pieceBytes = bytes := by
    induction bytes with
    | nil => rfl
    | cons b bytes ih =>
        rw [List.map_cons, List.flatMap_cons, pieceBytes_pieceOf, ih]
        rfl
  rw [pathUnescape, piecesOf_pathEscape, Option.map_some, hbytes]

/-- An escaped segment is printable ASCII. -/
theorem toNat_of_mem_pathEscape {bytes : List UInt8} {c : Char} (hc : c ∈ pathEscape bytes) :
    0x21 ≤ c.toNat ∧ c.toNat ≤ 0x7e := by
  obtain ⟨b, -, hc⟩ := List.mem_flatMap.mp hc
  have hall : ∀ n < 256, ((escapeByte (UInt8.ofNat n)).all fun c =>
      decide (0x21 ≤ c.toNat ∧ c.toNat ≤ 0x7e)) = true := by decide +kernel
  have hb := hall b.toNat b.toNat_lt
  rw [UInt8.ofNat_toNat] at hb
  exact of_decide_eq_true (List.all_eq_true.mp hb c hc)

theorem pathEscape_ne_nil {bytes : List UInt8} (h : bytes ≠ []) : pathEscape bytes ≠ [] := by
  obtain ⟨b, rest, rfl⟩ := List.exists_cons_of_ne_nil h
  rw [pathEscape, List.flatMap_cons, escapeByte]
  split <;> simp

/-! ### ASCII runes of a host -/

theorem toNat_of_ofNat {c : Char} {n : Nat} (h : Char.ofNat n = c) (hpos : 0 < c.toNat) : c.toNat = n := by
  subst h
  obtain h | h := toNat_ofNat_or n
  · exact h
  · rw [h] at hpos
    exact absurd hpos (by decide)

theorem le_of_rune2 {bytes : List UInt8} {c : Char} (h : rune2 bytes = some c) (hpos : 0 < c.toNat) : 128 ≤ c.toNat := by
  unfold rune2 at h
  split at h
  · rename_i b d _
    split at h
    · rename_i hrange
      have hb : 0xc2 ≤ b.toNat := UInt8.le_iff_toNat_le.mp hrange.1
      rw [toNat_of_ofNat (Option.some.inj h) hpos]
      omega
    · cases h
  · cases h

theorem le_of_rune3 {bytes : List UInt8} {c : Char} (h : rune3 bytes = some c) (hpos : 0 < c.toNat) : 128 ≤ c.toNat := by
  unfold rune3 at h
  split at h
  · rename_i b d e _
    split at h
    · rename_i hrange
      obtain ⟨hb, -, -, -, hfirst, -⟩ := hrange
      have hb' : 0xe0 ≤ b.toNat := UInt8.le_iff_toNat_le.mp hb
      rw [toNat_of_ofNat (Option.some.inj h) hpos]
      by_cases heq : b = 0xe0
      · have hd : 0xa0 ≤ d.toNat := UInt8.le_iff_toNat_le.mp (hfirst heq)
        omega
      · have hne : b.toNat ≠ 0xe0 := fun h => heq (UInt8.toNat_inj.mp h)
        omega
    · cases h
  · cases h

theorem le_of_rune4 {bytes : List UInt8} {c : Char} (h : rune4 bytes = some c) (hpos : 0 < c.toNat) : 128 ≤ c.toNat := by
  unfold rune4 at h
  split at h
  · rename_i b d e f _
    split at h
    · rename_i hrange
      obtain ⟨hb, -, -, -, -, hfirst, -⟩ := hrange
      have hb' : 0xf0 ≤ b.toNat := UInt8.le_iff_toNat_le.mp hb
      rw [toNat_of_ofNat (Option.some.inj h) hpos]
      by_cases heq : b = 0xf0
      · have hd : 0x90 ≤ d.toNat := UInt8.le_iff_toNat_le.mp (hfirst heq)
        omega
      · have hne : b.toNat ≠ 0xf0 := fun h => heq (UInt8.toNat_inj.mp h)
        omega
    · cases h
  · cases h

/-- An ASCII rune is read from its own byte only. -/
theorem toNat_of_decodeRune {b : UInt8} {bytes : List UInt8} {c : Char} (h : (decodeRune (b :: bytes)).1 = c)
    (hpos : 0 < c.toNat) (hlow : c.toNat < 128) : b.toNat = c.toNat := by
  unfold decodeRune at h
  split at h
  · rename_i d hd
    obtain rfl : d = c := h
    unfold rune1 at hd
    dsimp only at hd
    split at hd
    · exact (toNat_of_ofNat (Option.some.inj hd) hpos).symm
    · cases hd
  · rename_i d hd _
    obtain rfl : d = c := h
    exact absurd (le_of_rune2 hd hpos) (by omega)
  · rename_i d hd _ _
    obtain rfl : d = c := h
    exact absurd (le_of_rune3 hd hpos) (by omega)
  · rename_i d hd _ _ _
    obtain rfl : d = c := h
    exact absurd (le_of_rune4 hd hpos) (by omega)
  · rw [← h] at hlow
    exact absurd hlow (by decide)

theorem mem_runes {pieces : List Piece} {c : Char} (hc : c ∈ runes pieces) (hpos : 0 < c.toNat) (hlow : c.toNat < 128) :
    .inl c ∈ pieces ∨ ∃ b : UInt8, .inr b ∈ pieces ∧ b.toNat = c.toNat := by
  induction pieces using pieces_induction with
  | nil => exact absurd hc List.not_mem_nil
  | inl d rest ih =>
      obtain rfl | hc := List.mem_cons.mp hc
      · exact .inl List.mem_cons_self
      · obtain hmem | ⟨b, hmem, hb⟩ := ih hc
        · exact .inl (List.mem_cons_of_mem _ hmem)
        · exact .inr ⟨b, List.mem_cons_of_mem _ hmem, hb⟩
  | inr b rest ih =>
      rw [runes_inr] at hc
      obtain heq | hc := List.mem_cons.mp hc
      · exact .inr ⟨b, List.mem_cons_self, toNat_of_decodeRune heq.symm hpos hlow⟩
      · obtain hmem | ⟨b', hmem, hb⟩ := ih hc
        · exact .inl (List.mem_of_mem_drop hmem)
        · exact .inr ⟨b', List.mem_of_mem_drop hmem, hb⟩

theorem lt_of_unhex {c : Char} {n : Nat} (h : unhex c = some n) : n < 16 := by
  unfold unhex at h
  split at h
  · rename_i hc
    obtain rfl := Option.some.inj h
    have : c.toNat ≤ 57 := hc.2
    omega
  split at h
  · rename_i hc
    obtain rfl := Option.some.inj h
    have : c.toNat ≤ 102 := hc.2
    omega
  split at h
  · rename_i hc
    obtain rfl := Option.some.inj h
    have : c.toNat ≤ 70 := hc.2
    omega
  · cases h

theorem mem_piecesOf_host {s : Text} {ps : List Piece} (h : piecesOf .host s = some ps) :
    (∀ c : Char, .inl c ∈ ps → c ∈ s) ∧ ∀ b : UInt8, .inr b ∈ ps → 128 ≤ b.toNat ∨ b.toNat = 0x25 := by
  revert h
  refine piecesOf_induction .host (motive := fun s ps =>
    (∀ c : Char, .inl c ∈ ps → c ∈ s) ∧ ∀ b : UInt8, .inr b ∈ ps → 128 ≤ b.toNat ∨ b.toNat = 0x25) ?_ ?_ ?_ s ps
  · exact ⟨fun c hc => absurd hc List.not_mem_nil, fun b hb => absurd hb List.not_mem_nil⟩
  · rintro high low rest n m ps hn hm hmay - ⟨hinl, hinr⟩
    refine ⟨fun c hc => ?_, fun b hb => ?_⟩
    · have hmem : .inl c ∈ ps := (List.mem_cons.mp hc).resolve_left Sum.inl_ne_inr
      simp [hinl c hmem]
    · obtain heq | hmem := List.mem_cons.mp hb
      · obtain rfl := Sum.inr.inj heq
        have hn' := lt_of_unhex hn
        have hm' := lt_of_unhex hm
        have hval : (UInt8.ofNat (16 * n + m)).toNat = 16 * n + m := by
          rw [UInt8.toNat_ofNat']
          omega
        rw [hval]
        rw [mayEscape, Bool.or_eq_true, decide_eq_true_iff, beq_iff_eq] at hmay
        exact hmay
      · exact hinr b hmem
  · rintro c rest ps - - - ⟨hinl, hinr⟩
    refine ⟨fun d hd => ?_, fun b hb => ?_⟩
    · obtain heq | hmem := List.mem_cons.mp hd
      · obtain rfl : d = c := Sum.inl.inj heq
        exact List.mem_cons_self
      · exact List.mem_cons_of_mem _ (hinl d hmem)
    · exact hinr b ((List.mem_cons.mp hb).resolve_left Sum.inr_ne_inl)

/-- No escape of a host stands for an ASCII rune but the percent sign. -/
theorem mem_of_mem_unescape {s t : Text} (h : unescape .host s = some t) {c : Char} (hc : c ∈ t) (hpos : 0 < c.toNat)
    (hlow : c.toNat < 128) (hpercent : c ≠ '%') : c ∈ s := by
  obtain ⟨ps, hps, rfl⟩ := Option.map_eq_some_iff.mp h
  obtain ⟨hinl, hinr⟩ := mem_piecesOf_host hps
  obtain hmem | ⟨b, hmem, hb⟩ := mem_runes hc hpos hlow
  · exact hinl c hmem
  · obtain hhigh | hbyte := hinr b hmem
    · omega
    · have hc' : c.toNat = '%'.toNat := hb.symm.trans hbyte
      exact absurd (Char.toNat_inj.mp hc') hpercent

end Url
