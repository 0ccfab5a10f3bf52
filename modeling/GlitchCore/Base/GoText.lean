import Mathlib.Data.List.DropRight
import Mathlib.Data.List.Infix

/-!
# Text as the standard library reads it

A text is its list of runes. The functions below follow Go's `strings` and `unicode` packages: which
runes are white space, the simple lower-case mapping, trimming, cutting and searching. All of them
are structural, so a concrete text evaluates in the kernel.
-/

namespace GoText

abbrev Text := List Char

-- A constant of its own: a definition that tests membership refers to it and carries no copy of its proof.
instance lawfulBEqText : LawfulBEq Text := inferInstance

def isSpace (c : Char) : Bool :=
  c == '\t' || c == '\n' || c == '\x0b' || c == '\x0c' || c == '\r' || c == ' ' ||
    c.toNat == 0x85 || c.toNat == 0xa0 || c.toNat == 0x1680 ||
    (0x2000 ≤ c.toNat && c.toNat ≤ 0x200a) || c.toNat == 0x2028 || c.toNat == 0x2029 ||
    c.toNat == 0x202f || c.toNat == 0x205f || c.toNat == 0x3000

/-- The runes of a text between the first and the last one outside the set. -/
def trim (cut : Char → Bool) (s : Text) : Text := (s.dropWhile cut).rdropWhile cut

def trimSpace (s : Text) : Text := trim isSpace s

/-- The runes past ASCII with a lower case of their own, as of Unicode 17.0: first and last rune of the range, the stride
inside it and the distance to the lower case. -/
def lowerRanges : List (Nat × Nat × Nat × Int) :=
  [(192, 214, 1, 32), (216, 222, 1, 32), (256, 302, 2, 1), (304, 304, 1, -199), (306, 310, 2, 1),
   (313, 327, 2, 1), (330, 374, 2, 1), (376, 376, 1, -121), (377, 381, 2, 1), (385, 385, 1, 210),
   (386, 388, 2, 1), (390, 390, 1, 206), (391, 391, 1, 1), (393, 394, 1, 205), (395, 395, 1, 1),
   (398, 398, 1, 79), (399, 399, 1, 202), (400, 400, 1, 203), (401, 401, 1, 1), (403, 403, 1, 205),
   (404, 404, 1, 207), (406, 406, 1, 211), (407, 407, 1, 209), (408, 408, 1, 1), (412, 412, 1, 211),
   (413, 413, 1, 213), (415, 415, 1, 214), (416, 420, 2, 1), (422, 422, 1, 218), (423, 423, 1, 1),
   (425, 425, 1, 218), (428, 428, 1, 1), (430, 430, 1, 218), (431, 431, 1, 1), (433, 434, 1, 217),
   (435, 437, 2, 1), (439, 439, 1, 219), (440, 440, 1, 1), (444, 444, 1, 1), (452, 452, 1, 2),
   (453, 453, 1, 1), (455, 455, 1, 2), (456, 456, 1, 1), (458, 458, 1, 2), (459, 475, 2, 1),
   (478, 494, 2, 1), (497, 497, 1, 2), (498, 500, 2, 1), (502, 502, 1, -97), (503, 503, 1, -56),
   (504, 542, 2, 1), (544, 544, 1, -130), (546, 562, 2, 1), (570, 570, 1, 10795), (571, 571, 1, 1),
   (573, 573, 1, -163), (574, 574, 1, 10792), (577, 577, 1, 1), (579, 579, 1, -195),
   (580, 580, 1, 69), (581, 581, 1, 71), (582, 590, 2, 1), (880, 882, 2, 1), (886, 886, 1, 1),
   (895, 895, 1, 116), (902, 902, 1, 38), (904, 906, 1, 37), (908, 908, 1, 64), (910, 911, 1, 63),
   (913, 929, 1, 32), (931, 939, 1, 32), (975, 975, 1, 8), (984, 1006, 2, 1), (1012, 1012, 1, -60),
   (1015, 1015, 1, 1), (1017, 1017, 1, -7), (1018, 1018, 1, 1), (1021, 1023, 1, -130),
   (1024, 1039, 1, 80), (1040, 1071, 1, 32), (1120, 1152, 2, 1), (1162, 1214, 2, 1),
   (1216, 1216, 1, 15), (1217, 1229, 2, 1), (1232, 1326, 2, 1), (1329, 1366, 1, 48),
   (4256, 4293, 1, 7264), (4295, 4295, 1, 7264), (4301, 4301, 1, 7264), (5024, 5103, 1, 38864),
   (5104, 5109, 1, 8), (7305, 7305, 1, 1), (7312, 7354, 1, -3008), (7357, 7359, 1, -3008),
   (7680, 7828, 2, 1), (7838, 7838, 1, -7615), (7840, 7934, 2, 1), (7944, 7951, 1, -8), (7960, 7965, 1, -8),
   (7976, 7983, 1, -8), (7992, 7999, 1, -8), (8008, 8013, 1, -8), (8025, 8031, 2, -8),
   (8040, 8047, 1, -8), (8072, 8079, 1, -8), (8088, 8095, 1, -8), (8104, 8111, 1, -8),
   (8120, 8121, 1, -8), (8122, 8123, 1, -74), (8124, 8124, 1, -9), (8136, 8139, 1, -86),
   (8140, 8140, 1, -9), (8152, 8153, 1, -8), (8154, 8155, 1, -100), (8168, 8169, 1, -8),
   (8170, 8171, 1, -112), (8172, 8172, 1, -7), (8184, 8185, 1, -128), (8186, 8187, 1, -126),
   (8188, 8188, 1, -9), (8486, 8486, 1, -7517), (8490, 8490, 1, -8383), (8491, 8491, 1, -8262),
   (8498, 8498, 1, 28), (8544, 8559, 1, 16), (8579, 8579, 1, 1), (9398, 9423, 1, 26),
   (11264, 11311, 1, 48), (11360, 11360, 1, 1), (11362, 11362, 1, -10743), (11363, 11363, 1, -3814),
   (11364, 11364, 1, -10727), (11367, 11371, 2, 1), (11373, 11373, 1, -10780),
   (11374, 11374, 1, -10749), (11375, 11375, 1, -10783), (11376, 11376, 1, -10782),
   (11378, 11378, 1, 1), (11381, 11381, 1, 1), (11390, 11391, 1, -10815), (11392, 11490, 2, 1),
   (11499, 11501, 2, 1), (11506, 11506, 1, 1), (42560, 42604, 2, 1), (42624, 42650, 2, 1),
   (42786, 42798, 2, 1), (42802, 42862, 2, 1), (42873, 42875, 2, 1), (42877, 42877, 1, -35332),
   (42878, 42886, 2, 1), (42891, 42891, 1, 1), (42893, 42893, 1, -42280), (42896, 42898, 2, 1),
   (42902, 42920, 2, 1), (42922, 42922, 1, -42308), (42923, 42923, 1, -42319),
   (42924, 42924, 1, -42315), (42925, 42925, 1, -42305), (42926, 42926, 1, -42308),
   (42928, 42928, 1, -42258), (42929, 42929, 1, -42282), (42930, 42930, 1, -42261),
   (42931, 42931, 1, 928), (42932, 42946, 2, 1), (42948, 42948, 1, -48), (42949, 42949, 1, -42307),
   (42950, 42950, 1, -35384), (42951, 42953, 2, 1), (42955, 42955, 1, -42343),
   (42956, 42958, 2, 1), (42960, 42970, 2, 1), (42972, 42972, 1, -42561),
   (42997, 42997, 1, 1), (65313, 65338, 1, 32), (66560, 66599, 1, 40), (66736, 66771, 1, 40),
   (66928, 66938, 1, 39), (66940, 66954, 1, 39), (66956, 66962, 1, 39), (66964, 66965, 1, 39),
   (68736, 68786, 1, 64), (68944, 68965, 1, 32), (71840, 71871, 1, 32), (93760, 93791, 1, 32),
   (93856, 93880, 1, 27), (125184, 125217, 1, 34)]

/-- `unicode.ToLower`. -/
def toLowerRune (c : Char) : Char :=
  if c.toNat < 128 then
    if 65 ≤ c.toNat ∧ c.toNat ≤ 90 then Char.ofNat (c.toNat + 32) else c
  else
    match lowerRanges.find? fun (lo, hi, stride, _) =>
        lo ≤ c.toNat && c.toNat ≤ hi && (c.toNat - lo) % stride == 0 with
    | some (_, _, _, delta) => Char.ofNat (c.toNat + delta).toNat
    | none => c

def toLower (s : Text) : Text := s.map toLowerRune

/-- Case folding against ASCII letters: the long s folds to `s` and the dotted capital I to no letter, unlike in
the lower-case mapping. -/
def foldRune (c : Char) : Char := if c.toNat = 0x17f then 's' else if c.toNat = 0x130 then c else toLowerRune c

/-- `strings.EqualFold` with a word of lower-case ASCII. -/
def equalFold (s word : Text) : Bool := s.map foldRune == word

/-- The text before and after the first occurrence of a rune, `strings.Cut`. -/
def cut (sep : Char) (s : Text) : Option (Text × Text) :=
  if sep ∈ s then some (s.takeWhile (· != sep), (s.dropWhile (· != sep)).tail) else none

/-- The text before and after the last occurrence of a rune, as `strings.LastIndex` cuts it. -/
def cutLast (sep : Char) (s : Text) : Option (Text × Text) :=
  (cut sep s.reverse).map fun (after, before) => (before.reverse, after.reverse)

/-- The text before and after the first occurrence of a text. -/
def cutText (sep : Text) : Text → Option (Text × Text)
  | [] => if sep = [] then some ([], []) else none
  | c :: s =>
      if sep.isPrefixOf (c :: s) then some ([], (c :: s).drop sep.length)
      else (cutText sep s).map fun (before, after) => (c :: before, after)

def trimPrefix (head s : Text) : Text := if head.isPrefixOf s then s.drop head.length else s

def split (sep : Char) (s : Text) : List Text := s.splitOn sep

def contains (s part : Text) : Bool := decide (part <:+: s)

/-- The decimal value of a text of ASCII digits; `none` for the empty text or another rune. -/
def decimal (s : Text) : Option Nat :=
  if s ≠ [] ∧ s.all Char.isDigit then some (s.foldl (fun n c => 10 * n + (c.toNat - 48)) 0) else none

/-- `strconv.Atoi`: a sign and decimal digits, within 64 bits. -/
def atoi (s : Text) : Option Int :=
  let value : Option Int := match s with
    | '-' :: digits => (decimal digits).map fun n => -(n : Int)
    | '+' :: digits => (decimal digits).map fun n => (n : Int)
    | digits => (decimal digits).map fun n => (n : Int)
  value.filter fun n => decide (-9223372036854775808 ≤ n ∧ n ≤ 9223372036854775807)

def itoa (n : Nat) : Text := Nat.toDigits 10 n

def join (sep : Text) (parts : List Text) : Text := sep.intercalate parts

theorem isDigit_of_mem_itoa {n : Nat} {c : Char} (hc : c ∈ itoa n) : c.isDigit = true :=
  Nat.isDigit_of_mem_toDigits (b := 10) (by decide) (by decide) hc

theorem itoa_injective : Function.Injective itoa :=
  Function.LeftInverse.injective (g := fun s => Nat.ofDigitChars 10 s 0) fun _ => Nat.ofDigitChars_ten_toDigits

theorem isDigit_of_decimal {s : Text} {n : Nat} (h : decimal s = some n) : ∀ c ∈ s, c.isDigit = true := by
  unfold decimal at h
  split at h
  · rename_i hdigits
    exact List.all_eq_true.mp hdigits.2
  · cases h

/-- A number is written with digits and a sign. -/
theorem rune_of_atoi {s : Text} {n : Int} (h : atoi s = some n) : ∀ c ∈ s, c.isDigit = true ∨ c = '-' ∨ c = '+' := by
  obtain ⟨hvalue, -⟩ := Option.filter_eq_some_iff.mp h
  intro c hc
  split at hvalue
  all_goals
    obtain ⟨m, hm, -⟩ := Option.map_eq_some_iff.mp hvalue
    obtain ⟨k, hm, -⟩ := Option.bind_eq_some_iff.mp hm
  · obtain rfl | hc := List.mem_cons.mp hc
    · exact .inr (.inl rfl)
    · exact .inl (isDigit_of_decimal hm c hc)
  · obtain rfl | hc := List.mem_cons.mp hc
    · exact .inr (.inr rfl)
    · exact .inl (isDigit_of_decimal hm c hc)
  · exact .inl (isDigit_of_decimal hm c hc)

/-- A number without a minus sign is not negative. -/
theorem atoi_nonneg {s : Text} {n : Int} (h : atoi s = some n) (hs : '-' ∉ s) : 0 ≤ n := by
  obtain ⟨hvalue, -⟩ := Option.filter_eq_some_iff.mp h
  split at hvalue
  · exact absurd (List.mem_cons_self ..) hs
  all_goals
    obtain ⟨m, hm, rfl⟩ := Option.map_eq_some_iff.mp hvalue
    obtain ⟨k, -, hk⟩ := Option.bind_eq_some_iff.mp hm
    obtain rfl := Option.some.inj hk
    omega

theorem toNat_of_isDigit {c : Char} (h : c.isDigit = true) : 48 ≤ c.toNat ∧ c.toNat ≤ 57 :=
  Char.isDigit_iff_toNat.mp h

theorem toNat_of_isLower {c : Char} (h : c.isLower = true) : 97 ≤ c.toNat ∧ c.toNat ≤ 122 := by
  obtain ⟨hlow, hhigh⟩ := Bool.and_eq_true_iff.mp h
  exact ⟨of_decide_eq_true hlow, of_decide_eq_true hhigh⟩

theorem toNat_of_isUpper {c : Char} (h : c.isUpper = true) : 65 ≤ c.toNat ∧ c.toNat ≤ 90 := of_decide_eq_true h

/-- The printing runes of ASCII are no white space. -/
theorem isSpace_of_toNat {c : Char} (h : 0x21 ≤ c.toNat ∧ c.toNat ≤ 0x7e) : isSpace c = false := by
  have hne : ∀ d : Char, d.toNat < 0x21 → c ≠ d := by
    rintro d hd rfl
    omega
  simp only [isSpace, Bool.or_eq_false_iff, beq_eq_false_iff_ne, ne_eq, Bool.and_eq_false_iff, decide_eq_false_iff_not]
  refine ⟨⟨⟨⟨⟨⟨⟨⟨⟨⟨⟨⟨⟨⟨?_, ?_⟩, ?_⟩, ?_⟩, ?_⟩, ?_⟩, ?_⟩, ?_⟩, ?_⟩, ?_⟩, ?_⟩, ?_⟩, ?_⟩, ?_⟩, ?_⟩
  all_goals first | exact hne _ (by decide) | omega

theorem cut_eq_some {sep : Char} {s a b : Text} : cut sep s = some (a, b) ↔ s = a ++ sep :: b ∧ sep ∉ a := by
  unfold cut
  constructor
  · intro h
    split at h
    · rename_i hmem
      simp only [Option.some.injEq, Prod.mk.injEq] at h
      obtain ⟨rfl, rfl⟩ := h
      refine ⟨?_, fun hcon => by simpa using List.mem_takeWhile_imp hcon⟩
      have hhead := List.head?_dropWhile_not (· != sep) s
      cases hdrop : s.dropWhile (· != sep) with
      | nil =>
          rw [List.dropWhile_eq_nil_iff] at hdrop
          exact absurd (hdrop sep hmem) (by simp)
      | cons c rest =>
          rw [hdrop] at hhead
          have hc : c = sep := by simpa using hhead
          rw [← hc, List.tail_cons]
          conv_lhs => rw [← List.takeWhile_append_dropWhile (p := (· != sep)) (l := s), hdrop]
          rw [hc]
    · cases h
  · rintro ⟨rfl, ha⟩
    have hkeep : ∀ c ∈ a, (c != sep) = true := fun c hc => by
      simp only [bne_iff_ne, ne_eq]
      rintro rfl
      exact ha hc
    rw [if_pos (by simp), List.takeWhile_append_of_pos hkeep, List.dropWhile_append_of_pos hkeep]
    simp

/-- A text has one first occurrence of a rune. -/
theorem eq_of_first {c : Char} {a b a' b' : Text} (h : a ++ c :: b = a' ++ c :: b') (ha : c ∉ a) (ha' : c ∉ a') :
    a = a' ∧ b = b' := by
  have hcut : cut c (a ++ c :: b) = some (a, b) := cut_eq_some.mpr ⟨rfl, ha⟩
  have hcut' : cut c (a ++ c :: b) = some (a', b') := cut_eq_some.mpr ⟨h, ha'⟩
  exact Prod.mk.inj (Option.some.inj (hcut.symm.trans hcut'))

theorem cutLast_eq_some {sep : Char} {s a b : Text} :
    cutLast sep s = some (a, b) ↔ s = a ++ sep :: b ∧ sep ∉ b := by
  unfold cutLast
  constructor
  · intro h
    obtain ⟨⟨after, before⟩, hcut, heq⟩ := Option.map_eq_some_iff.mp h
    obtain ⟨rfl, rfl⟩ := Prod.mk.inj heq
    obtain ⟨hs, hafter⟩ := cut_eq_some.mp hcut
    refine ⟨?_, by simpa using hafter⟩
    rw [← List.reverse_reverse s, hs]
    simp
  · rintro ⟨rfl, hb⟩
    have hcut : cut sep (a ++ sep :: b).reverse = some (b.reverse, a.reverse) :=
      cut_eq_some.mpr ⟨by simp, by simpa using hb⟩
    rw [hcut]
    simp

/-- A text has one last occurrence of a rune. -/
theorem eq_of_last {c : Char} {a b a' b' : Text} (h : a ++ c :: b = a' ++ c :: b') (hb : c ∉ b) (hb' : c ∉ b') :
    a = a' ∧ b = b' := by
  have hcut : cutLast c (a ++ c :: b) = some (a, b) := cutLast_eq_some.mpr ⟨rfl, hb⟩
  have hcut' : cutLast c (a ++ c :: b) = some (a', b') := cutLast_eq_some.mpr ⟨h, hb'⟩
  exact Prod.mk.inj (Option.some.inj (hcut.symm.trans hcut'))

theorem cut_eq_none {sep : Char} {s : Text} : cut sep s = none ↔ sep ∉ s := by
  unfold cut
  split <;> simp_all

theorem cutLast_eq_none {sep : Char} {s : Text} : cutLast sep s = none ↔ sep ∉ s := by
  rw [cutLast, Option.map_eq_none_iff, cut_eq_none, List.mem_reverse]

theorem exists_last {c : Char} {s : Text} (h : c ∈ s) : ∃ a b, s = a ++ c :: b ∧ c ∉ b := by
  cases hcut : cutLast c s with
  | none => exact absurd h (cutLast_eq_none.mp hcut)
  | some part => exact ⟨part.1, part.2, cutLast_eq_some.mp hcut⟩

theorem eq_of_cutText {sep s a b : Text} (h : cutText sep s = some (a, b)) : s = a ++ sep ++ b := by
  induction s generalizing a with
  | nil =>
      unfold cutText at h
      split at h
      · rename_i hsep
        obtain ⟨rfl, rfl⟩ := Prod.mk.inj (Option.some.inj h)
        simp [hsep]
      · cases h
  | cons c s ih =>
      unfold cutText at h
      split at h
      · rename_i hpre
        obtain ⟨rfl, rfl⟩ := Prod.mk.inj (Option.some.inj h)
        obtain ⟨rest, hrest⟩ := List.isPrefixOf_iff_prefix.mp hpre
        rw [← hrest]
        simp
      · obtain ⟨⟨front, back⟩, hcut, heq⟩ := Option.map_eq_some_iff.mp h
        obtain ⟨rfl, rfl⟩ := Prod.mk.inj heq
        rw [ih hcut]
        simp

theorem cutText_of_not_mem {c : Char} {a : Text} (h : c ∉ a) (sep b : Text) :
    cutText (c :: sep) (a ++ c :: sep ++ b) = some (a, b) := by
  induction a with
  | nil =>
      have hprefix : (c :: sep).isPrefixOf (c :: (sep ++ b)) = true :=
        List.isPrefixOf_iff_prefix.mpr (List.prefix_append (c :: sep) b)
      rw [List.nil_append, List.cons_append, cutText, if_pos hprefix, ← List.cons_append, List.drop_left]
  | cons d a ih =>
      rw [List.mem_cons, not_or] at h
      obtain ⟨hd, ha⟩ := h
      have hprefix : ¬ (c :: sep).isPrefixOf (d :: (a ++ c :: sep ++ b)) = true := by
        rw [List.isPrefixOf_iff_prefix, List.cons_prefix_cons]
        exact fun hboth => hd hboth.1
      rw [List.cons_append, List.cons_append, cutText, if_neg hprefix, ih ha]
      rfl

/-! ### Lower case -/

theorem lt_lowerRanges : ∀ r ∈ lowerRanges, (65 : Int) ≤ r.1 + r.2.2.2 := by
  have hall : (lowerRanges.all fun r => decide ((65 : Int) ≤ r.1 + r.2.2.2)) = true := by decide
  intro r hr
  exact of_decide_eq_true (List.all_eq_true.mp hall r hr)

theorem ofNat_ne_of_lt {n : Nat} {d : Char} (hpos : 0 < d.toNat) (hn : d.toNat < n) : Char.ofNat n ≠ d := by
  rintro rfl
  by_cases hvalid : n.isValidChar
  · rw [Char.ofNat, dif_pos hvalid] at hn
    exact Nat.lt_irrefl n hn
  · rw [Char.ofNat, dif_neg hvalid] at hpos
    exact absurd hpos (by decide)

/-- A rune before the letters is the lower case of no other. -/
theorem toLowerRune_eq_iff {c d : Char} (hpos : 0 < d.toNat) (hlt : d.toNat < 65) : toLowerRune c = d ↔ c = d := by
  constructor
  · intro hc
    unfold toLowerRune at hc
    split at hc
    · split at hc
      · exact absurd hc (ofNat_ne_of_lt hpos (by omega))
      · exact hc
    · split at hc
      next lo hi stride delta hfind =>
        have hrange := lt_lowerRanges _ (List.mem_of_find?_eq_some hfind)
        have hin := List.find?_some hfind
        simp only [Bool.and_eq_true, decide_eq_true_eq] at hrange hin
        exact absurd hc (ofNat_ne_of_lt hpos (by omega))
      · exact hc
  · rintro rfl
    rw [toLowerRune, if_pos (by omega), if_neg (by omega)]

def spaces : List Nat :=
  [9, 10, 11, 12, 13, 32, 0x85, 0xa0, 0x1680, 0x2000, 0x2001, 0x2002, 0x2003, 0x2004, 0x2005, 0x2006, 0x2007, 0x2008,
   0x2009, 0x200a, 0x2028, 0x2029, 0x202f, 0x205f, 0x3000]

theorem toNat_mem_spaces {c : Char} (hc : isSpace c = true) : c.toNat ∈ spaces := by
  simp only [isSpace, Bool.or_eq_true, beq_iff_eq, Bool.and_eq_true, decide_eq_true_eq] at hc
  simp only [spaces, List.mem_cons, List.not_mem_nil, or_false]
  obtain (((((((((((((rfl | rfl) | rfl) | rfl) | rfl) | rfl) | h) | h) | h) | h) | h) | h) | h) | h) | h := hc
  all_goals first | decide | omega

/-- White space has no case. -/
theorem toLowerRune_of_isSpace {c : Char} (hc : isSpace c = true) : toLowerRune c = c := by
  have hall : (spaces.all fun n => toLowerRune (Char.ofNat n) == Char.ofNat n) = true := by decide
  have hone := List.all_eq_true.mp hall _ (toNat_mem_spaces hc)
  rwa [Char.ofNat_toNat, beq_iff_eq] at hone

/-- The lower cases of the first and the last rune of a range. -/
def lowerFirst (r : Nat × Nat × Nat × Int) : Nat := (r.1 + r.2.2.2).toNat

def lowerLast (r : Nat × Nat × Nat × Int) : Nat := (r.2.1 + r.2.2.2).toNat

/-- The lower cases of a range lie past the capital letters and are no white space. Where they fall into a range of
capitals, they are the runes between those. -/
theorem lowerRanges_apart : ∀ r ∈ lowerRanges,
    90 < lowerFirst r ∧ (∀ n ∈ spaces, n < lowerFirst r ∨ lowerLast r < n) ∧
      ∀ q ∈ lowerRanges, lowerLast r < q.1 ∨ q.2.1 < lowerFirst r ∨
        (q.2.2.1 = 2 ∧ (r.2.2.1 = 2 ∨ r.1 = r.2.1) ∧ (lowerFirst r + q.1) % 2 = 1) := by
  -- The comparisons are Boolean functions here, since the kernel evaluates them faster than instances.
  have hpast : (lowerRanges.all fun r => Nat.blt 90 (lowerFirst r) &&
      spaces.all fun n => n.blt (lowerFirst r) || (lowerLast r).blt n) = true := by decide +kernel
  have hapart : (lowerRanges.all fun r => lowerRanges.all fun q =>
      (lowerLast r).blt q.1 || (q.2.1.blt (lowerFirst r) ||
        (q.2.2.1 == 2 && ((r.2.2.1 == 2 || r.1 == r.2.1) && (lowerFirst r + q.1) % 2 == 1)))) = true := by
    decide +kernel
  intro r hr
  have hpast := List.all_eq_true.mp hpast r hr
  have hapart := List.all_eq_true.mp hapart r hr
  simp only [Bool.and_eq_true, List.all_eq_true, Bool.or_eq_true, Nat.blt_eq, beq_iff_eq] at hpast hapart
  exact ⟨hpast.1, hpast.2, hapart⟩

theorem toNat_ofNat_or (n : Nat) : (Char.ofNat n).toNat = n ∨ Char.ofNat n = '\x00' := by
  by_cases hvalid : n.isValidChar
  · left
    rw [Char.ofNat, dif_pos hvalid]
    rfl
  · right
    rw [Char.ofNat, dif_neg hvalid]
    rfl

/-- What the lower case of a rune is: the rune itself, a small letter of ASCII, a rune no table names, or nothing
that a text can hold. -/
theorem toLowerRune_cases (c : Char) :
    toLowerRune c = c ∨ (97 ≤ (toLowerRune c).toNat ∧ (toLowerRune c).toNat ≤ 122) ∨
      toLowerRune c = '\x00' ∨ ∃ r ∈ lowerRanges, r.1 ≤ c.toNat ∧ c.toNat ≤ r.2.1 ∧
        (c.toNat - r.1) % r.2.2.1 = 0 ∧ ((toLowerRune c).toNat : Int) = c.toNat + r.2.2.2 := by
  unfold toLowerRune
  split
  · split
    next hupper =>
      obtain h | h := toNat_ofNat_or (c.toNat + 32)
      · right
        left
        rw [h]
        omega
      · exact .inr (.inr (.inl h))
    · exact .inl rfl
  · split
    next lo hi stride delta hfind =>
      have hmem := List.mem_of_find?_eq_some hfind
      have hpos := (lowerRanges_apart _ hmem).1
      have hin := List.find?_some hfind
      simp only [lowerFirst, Bool.and_eq_true, decide_eq_true_eq, beq_iff_eq] at hin hpos
      obtain h | h := toNat_ofNat_or (c.toNat + delta).toNat
      · refine .inr (.inr (.inr ⟨_, hmem, hin.1.1, hin.1.2, hin.2, ?_⟩))
        rw [h]
        show (((c.toNat : Int) + delta).toNat : Int) = c.toNat + delta
        omega
      · exact .inr (.inr (.inl h))
    · exact .inl rfl

/-- A lower case has no lower case of its own. -/
theorem toLowerRune_toLowerRune (c : Char) : toLowerRune (toLowerRune c) = toLowerRune c := by
  obtain h | h | h | ⟨r, hr, hlo, hhi, hstride, h⟩ := toLowerRune_cases c
  · rw [h, h]
  · rw [toLowerRune, if_pos (by omega), if_neg (by omega)]
  · rw [h]
    decide
  · obtain ⟨hpos, -, hapart⟩ := lowerRanges_apart r hr
    simp only [lowerFirst, lowerLast] at hpos hapart
    generalize toLowerRune c = d at h
    unfold toLowerRune
    split
    · rw [if_neg (by omega)]
    · split
      next lo hi stride delta hfind =>
        have hin := List.find?_some hfind
        have hq := hapart _ (List.mem_of_find?_eq_some hfind)
        simp only [Bool.and_eq_true, decide_eq_true_eq, beq_iff_eq] at hin hq
        exfalso
        obtain hq | hq | ⟨rfl, hq | hq, hodd⟩ := hq
        · omega
        · omega
        · rw [hq] at hstride
          omega
        · omega
      · rfl

theorem toLower_toLower (s : Text) : toLower (toLower s) = toLower s := by
  simp only [toLower, List.map_map, List.map_inj_left, Function.comp_apply]
  exact fun c _ => toLowerRune_toLowerRune c

/-- Only white space has white space for its lower case. -/
theorem isSpace_toLowerRune (c : Char) : isSpace (toLowerRune c) = isSpace c := by
  obtain h | h | h | ⟨r, hr, hlo, hhi, -, h⟩ := toLowerRune_cases c
  · rw [h]
  · cases hc : isSpace c with
    | true => rw [toLowerRune_of_isSpace hc, hc]
    | false => exact isSpace_of_toNat (by omega)
  · cases hc : isSpace c with
    | true => rw [toLowerRune_of_isSpace hc, hc]
    | false =>
        rw [h]
        decide
  · cases hc : isSpace c with
    | true => rw [toLowerRune_of_isSpace hc, hc]
    | false =>
        by_contra hspace
        obtain ⟨hpos, hout, -⟩ := lowerRanges_apart r hr
        have hout := hout _ (toNat_mem_spaces (Bool.not_eq_false _ ▸ hspace))
        simp only [lowerFirst, lowerLast] at hpos hout
        omega

end GoText
