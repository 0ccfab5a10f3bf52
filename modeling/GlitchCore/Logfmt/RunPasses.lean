import GlitchCore.Logfmt.FieldPasses

/-!
# The passes for values without a name

After the fields the scrubber looks for values that give themselves away: the settings of the VLESS key exchange, UUIDs
and runs of token runes that look like key material. For each of the three this module says what the pass finds, that
nothing of it is left after the pass, and that the marks of the passes behind it bring none back.
-/

namespace GlitchCore.Logfmt

open GoText Regex Redaction

/-! ### Fixed texts -/

/-- A text without the runes of the mark at its start is not made by putting marks. -/
theorem reflects_literal {c : Char} {word : Text} (hopen : '[' ∉ c :: word) (hc : c ∉ redacted) :
    Reflects redacted Parts SameWord fun _ s => c :: word <+: s where
  same _ _ := .inl rfl
  after _ _ _ _ hparts := hparts.sameWord
  inside u v prev y hmark hv := by
    rintro ⟨r, hr⟩
    obtain ⟨d, v, rfl⟩ := List.exists_cons_of_ne_nil hv
    obtain ⟨rfl, -⟩ := List.cons.inj hr
    exact hc (hmark ▸ List.mem_append_right u List.mem_cons_self)
  back prevX prevY x y _ hredacts := by
    rintro ⟨r, rfl⟩
    obtain ⟨x', rfl, -⟩ := hredacts.of_append rfl hopen
    exact List.prefix_append _ _

/-- A long run over runes that are no bracket does not start inside the mark. -/
theorem not_prefix_of_run {f : Char → Bool} {u v w r : Text} (hmark : redacted = u ++ v) (hv : v ≠ [])
    (hw : ∀ c ∈ w, f c = true) (hf : f ']' = false) (hlength : 10 ≤ w.length) : ¬ v <+: w ++ r := by
  intro hprefix
  have hshort : v.length ≤ 10 := by
    have hall : u.length + v.length = 10 := by
      rw [← List.length_append, ← hmark]
      rfl
    omega
  have hinside : v <+: w := List.prefix_of_prefix_length_le hprefix (List.prefix_append w r) (hshort.trans hlength)
  have hlast : v.getLast? = some ']' := by
    rw [← getLast?_append_of_ne_nil (u := u) hv, ← hmark]
    rfl
  rw [hw ']' (hinside.subset (List.mem_of_getLast? hlast))] at hf
  cases hf

theorem head?_dropWhile_any (f : Char → Bool) (s : Text) : (s.dropWhile f).head?.any f = false := by
  have hnext := List.head?_dropWhile_not f s
  cases hhead : (s.dropWhile f).head? with
  | none => rfl
  | some c =>
      rw [hhead] at hnext
      exact hnext

/-! ### The key exchange -/

def encryptionWord : Text := "mlkem768x25519plus.".toList

def encryptionRune (c : Char) : Bool := c.isAlphanum || c == '_' || c == '-'

def encryptionTurn : Expr := .cat (.rune (· == '.')) (.star (.rune encryptionRune))

theorem first_encryptionTurn (p q : Pos) (h : (encryptionTurn.outcomes p).head? = some q) :
    q.rest.head?.any encryptionRune = false := by
  obtain ⟨p', -, hq⟩ := exists_of_head?_flatMap h
  rw [(loop_rune encryptionRune p').head?_star] at hq
  obtain rfl := Option.some.inj hq
  exact head?_dropWhile_any encryptionRune p'.rest

theorem encryption_taken {prev : Option Char} {s : Text} {m : Match} (h : vlessEncryptionPattern.matchAt prev s = some m) :
    encryptionWord <+: m.text ∧ ∃ r, s = m.text ++ r ∧ r.head?.any encryptionRune = false := by
  obtain ⟨⟨_, _, heq, hword, _, v, rfl, ⟨_, z, rfl, ⟨c, rfl, hc⟩, -⟩, -⟩, r, hs, hfirst⟩ := matchAt_plain rfl h
  obtain rfl := reads_literal.mp hword
  obtain rfl := beq_iff_eq.mp hc
  refine ⟨?_, r, hs, ?_⟩
  · have hsplit : encryptionWord = "mlkem768x25519plus".toList ++ ['.'] := rfl
    rw [heq, hsplit]
    exact ⟨z ++ v, by rw [List.append_assoc, List.append_assoc]⟩
  · obtain ⟨p₁, -, hfirst⟩ := exists_of_head?_flatMap hfirst
    obtain ⟨p₂, hp₂, hfirst⟩ := exists_of_head?_flatMap_total (fun _ _ => repeated_ne_nil) hfirst
    refine head?_repeated (P := fun q => q.rest.head?.any encryptionRune = false) ?_ first_encryptionTurn
      (first_encryptionTurn _ _ hp₂) hfirst
    intro p q hq
    obtain ⟨w, r, hrest, rfl, hread⟩ := (mem_outcomes (e := encryptionTurn) rfl p q).mp hq
    have hwidth := hread.width_le
    rw [hrest, List.length_append]
    exact Nat.lt_add_of_pos_left hwidth

theorem encryption_matches {prev : Option Char} {s : Text} (h : encryptionWord <+: s) :
    ∃ m, vlessEncryptionPattern.matchAt prev s = some m ∧ m.text ≠ [] := by
  obtain ⟨r, rfl⟩ := h
  have hread : vlessEncryptionPattern.Reads encryptionWord :=
    ⟨"mlkem768x25519plus".toList, ['.'], rfl, reads_literal.mpr rfl, ['.'], [], rfl,
      ⟨['.'], [], rfl, ⟨'.', rfl, rfl⟩, reads_star_rune.mpr nofun⟩, [], rfl, nofun⟩
  have hends : Pos.after ⟨prev, encryptionWord ++ r, []⟩ encryptionWord r ∈
      vlessEncryptionPattern.outcomes ⟨prev, encryptionWord ++ r, []⟩ :=
    (mem_outcomes rfl _ _).mpr ⟨encryptionWord, r, rfl, rfl, hread⟩
  obtain ⟨m, hm⟩ := matchAt_of_mem hends
  refine ⟨m, hm, fun hempty => ?_⟩
  have htaken := (encryption_taken hm).1
  rw [hempty] at htaken
  exact absurd (List.prefix_nil.mp htaken) (by decide)

theorem parts_encryption (prev : Option Char) (w s : Text) (m : Match)
    (hmatch : vlessEncryptionPattern.matchAt prev (w ++ s) = some m) (htext : m.text = w) (_ : w ≠ []) :
    Parts prev w s := by
  obtain ⟨⟨w', hword⟩, r, hrest, hnext⟩ := encryption_taken hmatch
  rw [htext] at hword hrest
  obtain rfl := List.append_cancel_left hrest
  refine ⟨.inr ?_, ?_⟩
  · cases hhead : s.head? with
    | none => rfl
    | some c =>
        rw [hhead, Option.any_some, encryptionRune, Bool.or_eq_false_iff] at hnext
        exact hnext.1
  · rintro u v hmark - hv - ⟨r, hr⟩
    obtain ⟨d, v, rfl⟩ := List.exists_cons_of_ne_nil hv
    rw [← hword] at hr
    obtain ⟨rfl, -⟩ := List.cons.inj hr
    have hmem : 'm' ∈ redacted := by
      rw [hmark]
      exact List.mem_append_right u List.mem_cons_self
    exact absurd hmem (by decide)

def EncryptionAt (_ : Option Char) (s : Text) : Prop := encryptionWord <+: s

theorem reflects_encryption : Reflects redacted Parts SameWord EncryptionAt :=
  reflects_literal (c := 'm') (by decide) (by decide)

theorem clean_encryption (s : Text) :
    Clean EncryptionAt none (replaceAll vlessEncryptionPattern (fun _ => redacted) s) :=
  Pass.clean_marks (by decide) parts_encryption reflects_encryption (fun _ _ h => encryption_matches h) s

theorem replaceAll_encryption (s : Text) (h : Clean EncryptionAt none s) :
    replaceAll vlessEncryptionPattern (fun _ => redacted) s = s := by
  refine (Pass.of_marks parts_encryption).eq_self (fun prev s m _ hmatch _ _ => ?_) h
  obtain ⟨hword, r, hs, -⟩ := encryption_taken hmatch
  rw [hs]
  exact hword.trans (List.prefix_append _ _)

/-! ### UUIDs -/

theorem isWord_of_isHex {c : Char} (h : foldCase isHex c = true) : isWord c = true := by
  have halnum : c.isAlphanum = (c.isUpper || c.isLower || c.isDigit) := rfl
  have hplain : isHex c = true → c.isAlphanum = true := by
    intro hc
    rw [isHex, Bool.or_eq_true, Bool.and_eq_true, decide_eq_true_iff, decide_eq_true_iff] at hc
    rw [halnum]
    obtain hc | ⟨hlow, hhigh⟩ := hc
    · rw [hc, Bool.or_true]
    · have hlower : c.isLower = true :=
        Bool.and_eq_true_iff.mpr ⟨decide_eq_true hlow, decide_eq_true (UInt32.le_trans hhigh (by decide))⟩
      rw [hlower, Bool.or_true, Bool.true_or]
  have hword : c.isAlphanum = true := by
    simp only [foldCase, Bool.or_eq_true, Bool.and_eq_true] at h
    obtain (((h | h) | h) | ⟨-, h⟩) | ⟨-, h⟩ := h
    · exact hplain h
    · unfold Char.toLower at h
      split at h
      next hupper =>
        have : c.isUpper = true := decide_eq_true hupper
        rw [halnum, this]
        rfl
      next => exact hplain h
    · unfold Char.toUpper at h
      split at h
      next hlower =>
        have : c.isLower = true := Bool.and_eq_true_iff.mpr ⟨decide_eq_true hlower.1, decide_eq_true hlower.2⟩
        rw [halnum, this, Bool.or_true, Bool.true_or]
      next => exact hplain h
    · exact absurd h (by decide)
    · exact absurd h (by decide)
  rw [isWord, hword]
  rfl

def uuidRune (c : Char) : Bool := isWord c || c == '-'

def uuidParts : List Expr :=
  let digits (n : Nat) : Expr := times n (.rune (foldCase isHex))
  let dash : Expr := .rune (· == '-')
  [digits 8, dash, digits 4, dash, digits 4, dash, digits 4, dash, digits 12]

theorem uuidPattern_eq : uuidPattern = Regex.sequence ([.wordBoundary] ++ uuidParts ++ [.wordBoundary]) := rfl

theorem over_uuidParts : Over uuidRune (sequence uuidParts) := by
  have hdigits (n : Nat) : Over uuidRune (times n (.rune (foldCase isHex))) :=
    .times (.rune fun c hc => by rw [uuidRune, isWord_of_isHex hc]; rfl)
  have hdash : Over uuidRune (.rune (· == '-')) := .rune fun c hc => by rw [uuidRune, hc, Bool.or_true]
  exact .cat (hdigits 8) (.cat hdash (.cat (hdigits 4) (.cat hdash (.cat (hdigits 4) (.cat hdash (.cat (hdigits 4)
    (.cat hdash (.cat (hdigits 12) .empty))))))))

theorem head_uuidParts {w : Text} (h : (sequence uuidParts).Reads w) (r : Text) : (w ++ r).head?.any isWord = true := by
  obtain ⟨u, v, rfl, hu, -⟩ := h
  obtain ⟨hlength, hall⟩ := reads_times_rune.mp hu
  obtain ⟨c, u, rfl⟩ := List.exists_cons_of_length_pos (by rw [hlength]; decide)
  exact isWord_of_isHex (hall c List.mem_cons_self)

theorem getLast_uuidParts {w : Text} (h : (sequence uuidParts).Reads w) : w.getLast?.any isWord = true := by
  rw [← List.take_append_drop 8 uuidParts, reads_sequence_append] at h
  obtain ⟨u, v, rfl, -, hv⟩ := h
  obtain ⟨hlength, hall⟩ := reads_times_rune.mp (reads_sequence_singleton.mp hv)
  have hne : v ≠ [] := List.ne_nil_of_length_pos (by rw [hlength]; decide)
  rw [getLast?_append_of_ne_nil hne]
  obtain ⟨c, hc⟩ := Option.isSome_iff_exists.mp (List.getLast?_isSome.mpr hne)
  rw [hc]
  exact isWord_of_isHex (hall c (List.mem_of_getLast? hc))

theorem uuid_last_or {w : Text} (h : (sequence uuidParts).Reads w) (prev : Option Char) :
    (w.getLast?.or prev).any isWord = true := by
  have hlast := getLast_uuidParts h
  rw [Option.or_of_isSome (Option.isSome_of_any hlast)]
  exact hlast

theorem mem_boundary {p q : Pos} : q ∈ (sequence [.wordBoundary]).outcomes p ↔ p.atWordBoundary = true ∧ q = p := by
  change q ∈ (Expr.wordBoundary.outcomes p).flatMap (fun q => [q]) ↔ _
  rw [List.flatMap_singleton', Expr.outcomes]
  split
  next hboundary => exact List.mem_singleton.trans (iff_and_self.mpr fun _ => hboundary)
  next hboundary => exact ⟨fun h => absurd h List.not_mem_nil, fun h => absurd h.1 hboundary⟩

/-- Outside a word a UUID stands and no word goes on behind it. -/
def UuidAt (prev : Option Char) (s : Text) : Prop :=
  prev.any isWord = false ∧ ∃ w r, s = w ++ r ∧ (sequence uuidParts).Reads w ∧ r.head?.any isWord = false

theorem mem_uuidPattern {prev : Option Char} {s : Text} {q : Pos} : q ∈ uuidPattern.outcomes ⟨prev, s, []⟩ ↔
    prev.any isWord = false ∧ ∃ w r, s = w ++ r ∧ (sequence uuidParts).Reads w ∧ r.head?.any isWord = false ∧
      q = Pos.after ⟨prev, s, []⟩ w r := by
  have hbegins {w : Text} (hw : (sequence uuidParts).Reads w) (r : Text) :
      Pos.atWordBoundary ⟨prev, w ++ r, []⟩ = true ↔ prev.any isWord = false := by
    rw [Pos.atWordBoundary, head_uuidParts hw, bne_iff_ne, ne_eq, Bool.not_eq_true]
  have hends {w : Text} (hw : (sequence uuidParts).Reads w) (r : Text) :
      (Pos.after ⟨prev, w ++ r, []⟩ w r).atWordBoundary = true ↔ r.head?.any isWord = false := by
    rw [Pos.atWordBoundary, Pos.after, uuid_last_or hw, bne_iff_ne, ne_comm, ne_eq, Bool.not_eq_true]
  rw [uuidPattern_eq, outcomes_sequence_append, outcomes_sequence_append]
  simp only [List.mem_flatMap, mem_boundary]
  constructor
  · rintro ⟨_, ⟨_, ⟨hbegin, rfl⟩, hbody⟩, hend, rfl⟩
    obtain ⟨w, r, rfl, rfl, hread⟩ := (mem_outcomes rfl _ _).mp hbody
    exact ⟨(hbegins hread r).mp hbegin, w, r, rfl, hread, (hends hread r).mp hend, rfl⟩
  · rintro ⟨hbegin, w, r, rfl, hread, hend, rfl⟩
    refine ⟨_, ⟨_, ⟨(hbegins hread r).mpr hbegin, rfl⟩, (mem_outcomes rfl _ _).mpr ⟨w, r, rfl, rfl, hread⟩⟩, ?_, rfl⟩
    exact (hends hread r).mpr hend

theorem uuid_taken {prev : Option Char} {w s : Text} {m : Match} (hmatch : uuidPattern.matchAt prev (w ++ s) = some m)
    (htext : m.text = w) : prev.any isWord = false ∧ (sequence uuidParts).Reads w ∧ s.head?.any isWord = false := by
  obtain ⟨q, hq, rfl⟩ := exists_of_matchAt hmatch
  obtain ⟨hbegin, w', r, hs, hread, hend, rfl⟩ := mem_uuidPattern.mp (List.mem_of_mem_head? hq)
  obtain rfl : w' = w := (Pos.until_of_append hs).symm.trans htext
  obtain rfl := List.append_cancel_left hs
  exact ⟨hbegin, hread, hend⟩

theorem uuid_matches {prev : Option Char} {s : Text} (h : UuidAt prev s) :
    ∃ m, uuidPattern.matchAt prev s = some m ∧ m.text ≠ [] := by
  obtain ⟨hbegin, w, r, hs, hread, hend⟩ := h
  obtain ⟨m, hm⟩ := matchAt_of_mem (mem_uuidPattern.mpr ⟨hbegin, w, r, hs, hread, hend, rfl⟩)
  refine ⟨m, hm, fun hempty => ?_⟩
  rw [matchAt_text hm] at hm
  have hwidth := (uuid_taken hm rfl).2.1.width_le
  rw [hempty] at hwidth
  exact absurd hwidth (by decide)

/-- A piece that moreover does not start inside a word. -/
structure Apart (prev : Option Char) (piece rest : Text) : Prop extends Parts prev piece rest where
  begins : prev.any isWord = false

theorem apart_uuid (prev : Option Char) (w s : Text) (m : Match) (hmatch : uuidPattern.matchAt prev (w ++ s) = some m)
    (htext : m.text = w) (_ : w ≠ []) : Apart prev w s := by
  obtain ⟨hbegin, hread, hend⟩ := uuid_taken hmatch htext
  refine ⟨⟨.inr hend, ?_⟩, hbegin⟩
  rintro u v hmark - hv -
  exact not_prefix_of_run hmark hv (over_uuidParts.of_reads hread) (by decide) (Nat.le_trans (by decide) hread.width_le)

theorem reflects_uuid : Reflects redacted Apart SameWord UuidAt where
  same _ _ := .inl rfl
  after _ _ _ _ hapart := hapart.sameWord
  inside u v prev y hmark hv := by
    rintro ⟨-, w, r, heq, hread, -⟩
    refine not_prefix_of_run hmark hv (over_uuidParts.of_reads hread) (by decide)
      (Nat.le_trans (by decide) hread.width_le) (r := r) ?_
    exact ⟨y, heq⟩
  back prevX prevY x y hsame hredacts := by
    rintro ⟨hbegin, w, r, rfl, hread, hend⟩
    have hkept : '[' ∉ w := fun hmem => absurd (over_uuidParts.of_reads hread _ hmem) (by decide)
    obtain ⟨x', rfl, hrest⟩ := hredacts.of_append rfl hkept
    refine ⟨?_, w, x', rfl, hread, ?_⟩
    · obtain heq | ⟨-, hnext⟩ := hsame
      · rw [← heq]
        exact hbegin
      · rw [head_uuidParts hread] at hnext
        cases hnext
    · rw [← hrest.head?_eq fun _ _ hapart => ?_]
      · exact hend
      · have hlast := hapart.begins
        rw [uuid_last_or hread] at hlast
        cases hlast

theorem clean_uuid (s : Text) : Clean UuidAt none (replaceAll uuidPattern (fun _ => redacted) s) :=
  Pass.clean_marks (by decide) apart_uuid reflects_uuid (fun _ _ h => uuid_matches h) s

theorem replaceAll_uuid (s : Text) (h : Clean UuidAt none s) : replaceAll uuidPattern (fun _ => redacted) s = s := by
  refine (Pass.of_marks apart_uuid).eq_self (fun prev s m _ hmatch _ _ => ?_) h
  have htext := matchAt_text hmatch
  rw [htext] at hmatch
  obtain ⟨hbegin, hread, hend⟩ := uuid_taken hmatch rfl
  exact ⟨hbegin, _, _, htext, hread, hend⟩

/-! ### Runs of token runes -/

def tokenRune (c : Char) : Bool := c.isAlphanum || c == '+' || c == '/' || c == '_' || c == '-'

theorem tokenRune_of_isWord {c : Char} (h : isWord c = true) : tokenRune c = true := by
  rw [isWord, Bool.or_eq_true] at h
  obtain h | h := h
  · simp only [tokenRune, h, Bool.true_or]
  · simp only [tokenRune, h, Bool.true_or, Bool.or_true]

theorem not_isWord_of_not_tokenRune {o : Option Char} (h : o.any tokenRune = false) : o.any isWord = false := by
  cases o with
  | none => rfl
  | some c =>
      by_contra hword
      rw [Option.any_some, tokenRune_of_isWord ((Bool.not_eq_false _).mp hword)] at h
      cases h

/-- The run at the start of a text. -/
def tokenRun (s : Text) : Text := s.takeWhile tokenRune

theorem tokenRun_mem {s : Text} : ∀ c ∈ tokenRun s, tokenRune c = true := fun _ hc => List.mem_takeWhile_imp hc

theorem tokenRun_append_dropWhile (s : Text) : tokenRun s ++ s.dropWhile tokenRune = s :=
  List.takeWhile_append_dropWhile

theorem tokenRun_append {w s : Text} (hw : ∀ c ∈ w, tokenRune c = true) : tokenRun (w ++ s) = w ++ tokenRun s :=
  List.takeWhile_append_of_pos hw

theorem tokenRun_eq_nil {s : Text} (h : s.head?.any tokenRune = false) : tokenRun s = [] := by
  cases s with
  | nil => rfl
  | cons c s => exact List.takeWhile_cons_of_neg (by rw [show tokenRune c = false from h]; exact Bool.false_ne_true)

theorem tokenPattern_plain : tokenPattern.plain = true := by decide

def tokenPads : Expr := optional (.cat (.rune (· == '=')) (optional (.rune (· == '='))))

theorem over_tokenPads : Over (· == '=') tokenPads := .optional (.cat (.rune fun _ h => h) (.optional (.rune fun _ h => h)))

theorem token_taken {prev : Option Char} {w s : Text} {m : Match} (hmatch : tokenPattern.matchAt prev (w ++ s) = some m)
    (htext : m.text = w) : ∃ run pads, w = run ++ pads ∧ 32 ≤ run.length ∧ (∀ c ∈ run, tokenRune c = true) ∧
      (∀ c ∈ pads, (c == '=') = true) ∧ (pads ++ s).head?.any tokenRune = false := by
  obtain ⟨-, r, hs, hfirst⟩ := matchAt_plain tokenPattern_plain hmatch
  rw [htext] at hs hfirst
  obtain rfl := List.append_cancel_left hs
  have htotal (p : Pos) : (sequence [tokenPads]).outcomes p ≠ [] :=
    List.ne_nil_of_mem ((mem_outcomes rfl p p).mpr ⟨[], p.rest, rfl, rfl, reads_sequence_singleton.mpr (.inr rfl)⟩)
  obtain ⟨p₁, hp₁, hfirst⟩ := exists_of_head?_flatMap hfirst
  obtain ⟨p₂, hp₂, hfirst⟩ := exists_of_head?_flatMap_total (fun p _ => htotal p) hfirst
  obtain ⟨w₁, r₁, hrest₁, rfl, hread₁⟩ := (mem_outcomes rfl _ _).mp hp₁
  obtain ⟨hlength, hall⟩ := reads_times_rune.mp hread₁
  have hstar := (loop_rune tokenRune (Pos.after ⟨prev, w ++ s, []⟩ w₁ r₁)).head?_star
  obtain rfl := Option.some.inj (hstar.symm.trans hp₂)
  obtain ⟨pads, r₂, hrest₂, heq, hread₂⟩ := (mem_outcomes rfl _ _).mp (List.mem_of_mem_head? hfirst)
  obtain rfl : s = r₂ := congrArg Pos.rest heq
  have hdrop : r₁.dropWhile tokenRune = pads ++ s := hrest₂
  refine ⟨w₁ ++ tokenRun r₁, pads, ?_, ?_, ?_, over_tokenPads.of_reads (reads_sequence_singleton.mp hread₂), ?_⟩
  · have hwhole : w ++ s = ((w₁ ++ tokenRun r₁) ++ pads) ++ s := by
      rw [List.append_assoc, ← hdrop, List.append_assoc, tokenRun_append_dropWhile]
      exact hrest₁
    exact List.append_cancel_right hwhole
  · rw [List.length_append, hlength]
    exact Nat.le_add_right _ _
  · exact fun c hc => (List.mem_append.mp hc).elim (hall c) (tokenRun_mem c)
  · rw [← hdrop]
    exact head?_dropWhile_any tokenRune r₁

/-- A whole run of token runes that looks like key material. -/
def TokenAt (prev : Option Char) (s : Text) : Prop :=
  prev.any tokenRune = false ∧ 32 ≤ (tokenRun s).length ∧ looksLikeKeyMaterial (tokenRun s) = true

theorem token_matches {prev : Option Char} {s : Text} (h : 32 ≤ (tokenRun s).length) :
    ∃ m, tokenPattern.matchAt prev s = some m ∧ m.text ≠ [] := by
  have hread : tokenPattern.Reads (tokenRun s) := by
    refine ⟨(tokenRun s).take 32, (tokenRun s).drop 32, (List.take_append_drop ..).symm, ?_, (tokenRun s).drop 32, [],
      (List.append_nil _).symm, ?_, reads_sequence_singleton.mpr (.inr rfl)⟩
    · exact reads_times_rune.mpr ⟨List.length_take_of_le h, fun c hc => tokenRun_mem c (List.mem_of_mem_take hc)⟩
    · exact reads_star_rune.mpr fun c hc => tokenRun_mem c (List.mem_of_mem_drop hc)
  have hends : Pos.after ⟨prev, s, []⟩ (tokenRun s) (s.dropWhile tokenRune) ∈ tokenPattern.outcomes ⟨prev, s, []⟩ :=
    (mem_outcomes tokenPattern_plain _ _).mpr
      ⟨tokenRun s, s.dropWhile tokenRune, (tokenRun_append_dropWhile s).symm, rfl, hread⟩
  obtain ⟨m, hm⟩ := matchAt_of_mem hends
  refine ⟨m, hm, fun hempty => ?_⟩
  rw [matchAt_text hm] at hm
  obtain ⟨run, pads, heq, hlength, -⟩ := token_taken hm rfl
  rw [hempty, eq_comm, List.append_eq_nil_iff] at heq
  rw [heq.1] at hlength
  exact absurd hlength (by decide)

def scrubToken (m : Match) : Text :=
  if looksLikeKeyMaterial (m.text.rdropWhile (· == '=')) then redacted else m.text

/-- What the token pass keeps to: it takes whole runs. -/
structure WholeRun (prev : Option Char) (piece rest : Text) : Prop extends Apart prev piece rest where
  fresh : prev.any tokenRune = false
  run : piece.getLast?.any tokenRune = false ∨ rest.head?.any tokenRune = false

/-- Where the pass comes to stand inside a run, the run was too short for it. -/
def ShortInside (prev : Option Char) (s : Text) : Prop := prev.any tokenRune = true → (tokenRun s).length < 32

theorem rdropWhile_pads {run pads : Text} (hrun : ∀ c ∈ run, tokenRune c = true) (hpads : ∀ c ∈ pads, (c == '=') = true) :
    (run ++ pads).rdropWhile (· == '=') = run := by
  induction pads using List.reverseRecOn with
  | nil =>
      rw [List.append_nil, List.rdropWhile_eq_self_iff]
      intro hne hlast
      have hlast' := hrun _ (List.getLast_mem hne)
      rw [beq_iff_eq.mp hlast] at hlast'
      exact absurd hlast' (by decide)
  | append_singleton pads c ih =>
      rw [← List.append_assoc, List.rdropWhile_concat_pos (· == '=') _ c (hpads c (by simp))]
      exact ih fun d hd => hpads d (List.mem_append_left _ hd)

theorem wholeRun_token {prev : Option Char} {w s : Text} {m : Match} (hinv : ShortInside prev (w ++ s))
    (hmatch : tokenPattern.matchAt prev (w ++ s) = some m) (htext : m.text = w) : WholeRun prev w s := by
  obtain ⟨run, pads, rfl, hlength, hrun, hpads, hnext⟩ := token_taken hmatch htext
  have hfresh : prev.any tokenRune = false := by
    by_contra hprev
    have hshort := hinv ((Bool.not_eq_false _).mp hprev)
    rw [List.append_assoc, tokenRun_append hrun, List.length_append] at hshort
    omega
  have hends : (run ++ pads).getLast?.any tokenRune = false ∨ s.head?.any tokenRune = false := by
    by_cases hempty : pads = []
    · rw [hempty] at hnext
      exact .inr hnext
    · left
      obtain ⟨c, hc⟩ := Option.isSome_iff_exists.mp (List.getLast?_isSome.mpr hempty)
      rw [getLast?_append_of_ne_nil hempty, hc, beq_iff_eq.mp (hpads c (List.mem_of_getLast? hc))]
      rfl
  refine ⟨⟨⟨?_, ?_⟩, not_isWord_of_not_tokenRune hfresh⟩, hfresh, hends⟩
  · exact hends.imp not_isWord_of_not_tokenRune not_isWord_of_not_tokenRune
  · rintro u v hmark - hv -
    rw [List.append_assoc]
    exact not_prefix_of_run hmark hv hrun (by decide) (Nat.le_trans (by decide) hlength)

theorem pass_token : Pass redacted tokenPattern scrubToken ShortInside WholeRun where
  start _ := nofun
  copy prev c s hinv hnone := by
    intro hc
    by_contra hlong
    have hrun : tokenRun (c :: s) = c :: tokenRun s := tokenRun_append (w := [c]) (by simpa using hc)
    have hmatch : ∃ m, tokenPattern.matchAt prev (c :: s) = some m ∧ m.text ≠ [] :=
      token_matches (by rw [hrun, List.length_cons]; omega)
    obtain ⟨m, hm, hne⟩ := hmatch
    exact hne (hnone m hm)
  swap prev w s m hinv hmatch htext hne := by
    have hwhole := wholeRun_token hinv hmatch htext
    refine ⟨fun hlast => ?_, ?_⟩
    · rw [tokenRun_eq_nil (hwhole.run.resolve_left (by rw [hlast]; nofun))]
      decide
    · rw [scrubToken]
      split
      · exact .inr ⟨[], w, rfl, hne, rfl, hwhole⟩
      · exact .inl htext

/-- Before a place stands a token rune on both sides, or none that matters. -/
def SameToken (prevX prevY : Option Char) (x : Text) : Prop :=
  prevY.any tokenRune = false → prevX.any tokenRune = false ∨ x.head?.any tokenRune = false

theorem reflects_token : Reflects redacted WholeRun SameToken TokenAt where
  same _ _ h := .inl h
  after _ _ _ _ hwhole _ := hwhole.run
  inside u v prev y hmark hv := by
    rintro ⟨-, hlength, -⟩
    refine not_prefix_of_run hmark hv tokenRun_mem (by decide) (Nat.le_trans (by decide) hlength)
      (r := (v ++ y).dropWhile tokenRune) ?_
    rw [tokenRun_append_dropWhile]
    exact List.prefix_append v y
  back prevX prevY x y hsame hredacts := by
    rintro ⟨hfresh, hlength, hkey⟩
    have hkept : '[' ∉ tokenRun y := fun hmem => absurd (tokenRun_mem _ hmem) (by decide)
    have hne : tokenRun y ≠ [] := List.ne_nil_of_length_pos (by omega)
    rw [← tokenRun_append_dropWhile y] at hredacts
    obtain ⟨x', rfl, hrest⟩ := hredacts.of_append rfl hkept
    have hstop : x'.head?.any tokenRune = false := by
      rw [← hrest.head?_eq fun _ _ hwhole => ?_]
      · exact head?_dropWhile_any tokenRune y
      · have hprev := hwhole.fresh
        obtain ⟨c, hc⟩ := Option.isSome_iff_exists.mp (List.getLast?_isSome.mpr hne)
        rw [hc, Option.some_or, Option.any_some, tokenRun_mem c (List.mem_of_getLast? hc)] at hprev
        cases hprev
    have hrun : tokenRun (tokenRun y ++ x') = tokenRun y := by
      rw [tokenRun_append tokenRun_mem, tokenRun_eq_nil hstop, List.append_nil]
    refine ⟨(hsame hfresh).resolve_right ?_, by rw [hrun]; exact hlength, by rw [hrun]; exact hkey⟩
    intro hhead
    obtain ⟨c, z, hz⟩ := List.exists_cons_of_ne_nil hne
    have hc : c ∈ tokenRun y := hz ▸ List.mem_cons_self
    rw [hz, List.cons_append, List.head?_cons, Option.any_some, tokenRun_mem c hc] at hhead
    cases hhead

theorem not_tokenAt_kept {prev : Option Char} {a b run pads s : Text} (hsplit : a ++ b = run ++ pads) (hb : b ≠ [])
    (hrun : ∀ c ∈ run, tokenRune c = true) (hpads : ∀ c ∈ pads, (c == '=') = true)
    (hnext : (pads ++ s).head?.any tokenRune = false) (hplain : looksLikeKeyMaterial run = false) :
    ¬ TokenAt (a.getLast?.or prev) (b ++ s) := by
  rintro ⟨hfresh, hlength, hkey⟩
  obtain ⟨c, rfl, rfl⟩ | ⟨c, rfl, rfl⟩ := List.append_eq_append_iff.mp hsplit
  · by_cases ha : a = []
    · subst ha
      rw [List.nil_append] at hrun hplain
      rw [List.append_assoc, tokenRun_append hrun, tokenRun_eq_nil hnext, List.append_nil, hplain] at hkey
      cases hkey
    · obtain ⟨d, hd⟩ := Option.isSome_iff_exists.mp (List.getLast?_isSome.mpr ha)
      rw [hd, Option.some_or, Option.any_some, hrun d (List.mem_append_left c (List.mem_of_getLast? hd))] at hfresh
      cases hfresh
  · obtain ⟨d, b, rfl⟩ := List.exists_cons_of_ne_nil hb
    obtain rfl := beq_iff_eq.mp (hpads d (List.mem_append_right c List.mem_cons_self))
    exact absurd hlength (by rw [tokenRun_eq_nil (s := '=' :: b ++ s) rfl]; decide)

theorem clean_token (s : Text) : Clean TokenAt none (replaceAll tokenPattern scrubToken s) := by
  refine pass_token.clean_self reflects_token (fun _ _ _ h => token_matches h.2.1) ?_ s
  intro prev prevY w s m out hinv hmatch htext hne _ hredacts hclean
  have hwhole := wholeRun_token hinv hmatch htext
  obtain ⟨run, pads, rfl, -, hrun, hpads, hnext⟩ := token_taken hmatch htext
  rw [scrubToken, htext, rdropWhile_pads hrun hpads]
  split
  next => exact reflects_token.clean_mark (by decide) (hclean _ fun _ => hwhole.run) prevY
  next hplain =>
    have hnextOut : (pads ++ out).head?.any tokenRune = false := by
      cases pads with
      | nil => exact hredacts.head?_any (by decide) (by decide) hnext
      | cons c pads => exact hnext
    refine Clean.append (fun a b hsplit hb =>
      not_tokenAt_kept hsplit.symm hb hrun hpads hnextOut (Bool.eq_false_iff.mpr hplain)) ?_
    rw [Option.or_of_isSome (List.getLast?_isSome.mpr hne)]
    exact hclean _ (reflects_token.same _ _)

theorem replaceAll_token (s : Text) (h : Clean TokenAt none s) : replaceAll tokenPattern scrubToken s = s := by
  refine pass_token.eq_self (fun prev s m hinv hmatch _ hchanged => ?_) h
  obtain ⟨r, rfl⟩ : ∃ r, s = m.text ++ r := ⟨_, matchAt_text hmatch⟩
  have hwhole := wholeRun_token hinv hmatch rfl
  obtain ⟨run, pads, heq, hlength, hrun, hpads, hnext⟩ := token_taken hmatch rfl
  have hall : tokenRun (m.text ++ r) = run := by
    rw [heq, List.append_assoc, tokenRun_append hrun, tokenRun_eq_nil hnext, List.append_nil]
  refine ⟨hwhole.fresh, by rw [hall]; exact hlength, ?_⟩
  by_contra hplain
  rw [hall] at hplain
  rw [scrubToken, heq, rdropWhile_pads hrun hpads, if_neg hplain] at hchanged
  exact hchanged rfl

end GlitchCore.Logfmt
