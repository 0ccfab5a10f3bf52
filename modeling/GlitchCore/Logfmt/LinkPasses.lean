import GlitchCore.Logfmt.Secrets
import GlitchCore.Base.Reading
import Mathlib.Data.List.Chain

/-!
# The passes for links, twice

What the two passes for links leave has nothing for them to do, if no backslash stands before a quote or a line break.
Then a quoted URL is what stands between two quotes, and the passes work from quote to quote: the text in front of the
next quote is for the bare pass alone, and the text behind it for both where it is a URL. Neither of the two changes
whether a text is a URL, so the second round stops at the same quotes.
-/

namespace GlitchCore.Logfmt

open GoText GoQuote Regex

/-! ### Marks -/

/-- The second text is the first with marks in the place of some pieces, of which a piece may be empty. -/
inductive Hidden : Text → Text → Prop
  | nil : Hidden [] []
  | keep (c : Char) {x y : Text} : Hidden x y → Hidden (c :: x) (c :: y)
  | hide (piece : Text) {x y : Text} : Hidden x y → Hidden (piece ++ x) (redacted ++ y)

section Hidden

variable {x y x' y' : Text}

theorem Hidden.refl (x : Text) : Hidden x x := by
  induction x with
  | nil => exact .nil
  | cons c x ih => exact .keep c ih

theorem Hidden.append (h : Hidden x y) (h' : Hidden x' y') : Hidden (x ++ x') (y ++ y') := by
  induction h with
  | nil => exact h'
  | keep c _ ih => exact .keep c ih
  | hide piece _ ih =>
      rw [List.append_assoc, List.append_assoc]
      exact .hide piece ih

theorem Hidden.mem {c : Char} (h : Hidden x y) (hc : c ∈ y) : c ∈ x ∨ c ∈ redacted := by
  induction h with
  | nil => exact .inl hc
  | keep d _ ih =>
      obtain rfl | hc := List.mem_cons.mp hc
      · exact .inl List.mem_cons_self
      · exact (ih hc).imp_left (List.mem_cons_of_mem d)
  | hide piece _ ih =>
      obtain hc | hc := List.mem_append.mp hc
      · exact .inr hc
      · exact (ih hc).imp_left (List.mem_append_right piece)

/-- Two runes of which the first does not escape the second. -/
def Unescaped (c d : Char) : Prop := c ≠ '\\' ∨ d ≠ '"' ∧ d ≠ '\n'

/-- No backslash stands before a quote or a line break. -/
def Plain (s : Text) : Prop := s.IsChain Unescaped

instance (c d : Char) : Decidable (Unescaped c d) := inferInstanceAs (Decidable (_ ∨ _))

instance (s : Text) : Decidable (Plain s) := inferInstanceAs (Decidable (s.IsChain Unescaped))

theorem Plain.part {s t : Text} (h : Plain s) (ht : t <:+: s) : Plain t := List.IsChain.infix h ht

theorem Hidden.plain (h : Hidden x y) (hx : Plain x) : Plain y := by
  have hboth : Plain y ∧ ∀ c, (∀ d ∈ x.head?, Unescaped c d) → ∀ d ∈ y.head?, Unescaped c d := by
    induction h with
    | nil => exact ⟨hx, fun _ hc => hc⟩
    | keep c _ ih =>
        obtain ⟨hhead, hrest⟩ := List.isChain_cons.mp hx
        obtain ⟨hplain, hnext⟩ := ih hrest
        exact ⟨List.isChain_cons.mpr ⟨hnext c hhead, hplain⟩, fun _ hc => hc⟩
    | hide piece _ ih =>
        obtain ⟨hplain, -⟩ := ih (List.isChain_append.mp hx).2.1
        refine ⟨List.isChain_append.mpr ⟨by decide, hplain, fun c hc d _ => ?_⟩, fun c _ d hd => ?_⟩
        · obtain rfl := Option.some.inj hc
          exact .inl (by decide)
        · obtain rfl := Option.some.inj hd
          exact .inr (by decide)
  exact hboth.1

end Hidden

theorem urlRune_redacted : ∀ c ∈ redacted, urlRune c = true := List.forall_iff_forall_mem.mp (by decide)

theorem head?_dropWhile {p : Char → Bool} {s : Text} {c : Char} (h : c ∈ (s.dropWhile p).head?) : p c = false := by
  have hhead := List.head?_dropWhile_not p s
  rw [Option.mem_def.mp h] at hhead
  exact hhead

/-! ### What is left of one URL -/

section Rest

variable {scheme a t : Text}

theorem hidden_hideUser (a : Text) : Hidden a (hideUser a) := by
  unfold hideUser
  cases hcut : cutLast '@' a with
  | none => exact .refl a
  | some part =>
      rw [(cutLast_eq_some.mp hcut).1]
      exact .hide part.1 (.refl _)

theorem hidden_hideTail (t : Text) : Hidden t (hideTail t) := by
  unfold hideTail
  split
  · cases t with
    | nil => exact .hide [] .nil
    | cons c t =>
        have hrest := Hidden.hide t .nil
        rw [List.append_nil, List.append_nil] at hrest
        exact .keep c hrest
  · exact .refl t

theorem hidden_hideRest (scheme rest : Text) : Hidden rest (hideRest scheme rest) := by
  unfold hideRest
  split
  · have hall := Hidden.hide rest .nil
    rwa [List.append_nil, List.append_nil] at hall
  · conv_lhs => rw [← List.takeWhile_append_dropWhile (p := fun c => !isEnd c) (l := rest)]
    exact (hidden_hideUser _).append (hidden_hideTail _)

/-- An authority whose user, if it has one, is the mark. -/
def UserHidden (a : Text) : Prop := '@' ∉ a ∨ ∃ host, '@' ∉ host ∧ a = redacted ++ '@' :: host

theorem hideUser_eq_self (h : UserHidden a) : hideUser a = a := by
  obtain hat | ⟨host, hat, rfl⟩ := h
  · rw [hideUser, cutLast_eq_none.mpr hat]
  · rw [hideUser, cutLast_eq_some.mpr ⟨rfl, hat⟩]

theorem userHidden_hideUser (a : Text) : UserHidden (hideUser a) := by
  unfold hideUser
  cases hcut : cutLast '@' a with
  | none => exact .inl (cutLast_eq_none.mp hcut)
  | some part => exact .inr ⟨part.2, (cutLast_eq_some.mp hcut).2, rfl⟩

theorem UserHidden.takeWhile (h : UserHidden a) : UserHidden (a.takeWhile urlRune) := by
  obtain hat | ⟨host, hat, rfl⟩ := h
  · exact .inl fun hmem => hat ((List.takeWhile_sublist _).subset hmem)
  · refine .inr ⟨host.takeWhile urlRune, fun hmem => hat ((List.takeWhile_sublist _).subset hmem), ?_⟩
    rw [List.takeWhile_append_of_pos urlRune_redacted, List.takeWhile_cons_of_pos (by decide)]

theorem hideRest_append (hscheme : toLower scheme ∉ shareLinkSchemes) (ha : ∀ c ∈ a, isEnd c = false)
    (ht : ∀ c ∈ t.head?, isEnd c = true) : hideRest scheme (a ++ t) = hideUser a ++ hideTail t := by
  have hkeep : ∀ c ∈ a, (!isEnd c) = true := fun c hc => by rw [ha c hc]; rfl
  rw [hideRest, if_neg hscheme, List.takeWhile_append_of_pos hkeep, List.dropWhile_append_of_pos hkeep]
  cases t with
  | nil => rw [List.takeWhile_nil, List.dropWhile_nil, List.append_nil]
  | cons c t =>
      rw [List.takeWhile_cons_of_neg (by simp [ht c rfl]), List.dropWhile_cons_of_neg (by simp [ht c rfl]), List.append_nil]

/-- What is left of a rest: the mark, or an authority and a tail that stay as they are. -/
theorem hideRest_cases (scheme rest : Text) :
    (toLower scheme ∈ shareLinkSchemes ∧ hideRest scheme rest = redacted) ∨
      ∃ a t, toLower scheme ∉ shareLinkSchemes ∧ hideRest scheme rest = a ++ t ∧ UserHidden a ∧
        (∀ c ∈ a, isEnd c = false) ∧ (t = [] ∨ t = ['/'] ∨ ∃ c, isEnd c = true ∧ t = c :: redacted) := by
  by_cases hscheme : toLower scheme ∈ shareLinkSchemes
  · exact .inl ⟨hscheme, if_pos hscheme⟩
  refine .inr ⟨_, _, hscheme, if_neg hscheme, userHidden_hideUser _, fun c hc => ?_, ?_⟩
  · obtain hc | hc := (hidden_hideUser _).mem hc
    · simpa using List.mem_takeWhile_imp hc
    · exact (List.forall_iff_forall_mem (p := fun c => isEnd c = false)).mp (by decide) c hc
  · unfold hideTail
    cases hdrop : rest.dropWhile fun c => !isEnd c with
    | nil => exact .inl (if_neg fun hboth => hboth.1 rfl)
    | cons c t =>
        split
        · have hend : (!isEnd c) = false := head?_dropWhile (p := fun c => !isEnd c) (s := rest) (by rw [hdrop]; rfl)
          exact .inr (.inr ⟨c, by simpa using hend, rfl⟩)
        · rename_i hnot
          exact .inr (.inl (not_not.mp fun hne => hnot ⟨List.cons_ne_nil c t, hne⟩))

theorem hideTail_eq_self (h : t = [] ∨ t = ['/'] ∨ ∃ c, isEnd c = true ∧ t = c :: redacted) :
    hideTail t = t ∧ (∀ c ∈ t.head?, isEnd c = true) ∧ ∀ c ∈ t, urlRune c = true := by
  have hends : ∀ c, isEnd c = true → urlRune c = true := by
    intro c hc
    simp only [isEnd, Bool.or_eq_true, beq_iff_eq] at hc
    obtain (rfl | rfl) | rfl := hc <;> decide
  obtain rfl | rfl | ⟨c, hc, rfl⟩ := h
  · exact ⟨rfl, nofun, nofun⟩
  · exact ⟨rfl, fun c hc => Option.some.inj hc ▸ rfl, List.forall_mem_singleton.mpr (by decide)⟩
  · refine ⟨if_pos ⟨List.cons_ne_nil _ _, fun heq => ?_⟩, fun d hd => Option.some.inj hd ▸ hc,
      List.forall_mem_cons.mpr ⟨hends c hc, urlRune_redacted⟩⟩
    exact absurd (List.cons.inj heq).2 (by decide)

/-- What is left of a rest stays as it is, and so does the part of it that the bare pass would take. -/
theorem hideRest_hideRest (scheme rest : Text) :
    hideRest scheme (hideRest scheme rest) = hideRest scheme rest ∧
      hideRest scheme ((hideRest scheme rest).takeWhile urlRune) = (hideRest scheme rest).takeWhile urlRune := by
  obtain ⟨hscheme, hrest⟩ | ⟨a, t, hscheme, hrest, huser, ha, ht⟩ := hideRest_cases scheme rest
  · have hmark : redacted.takeWhile urlRune = redacted := by decide
    rw [hrest, hmark, hideRest, if_pos hscheme]
    exact ⟨rfl, rfl⟩
  · obtain ⟨htail, hhead, hrunes⟩ := hideTail_eq_self ht
    have hself : hideRest scheme (a ++ t) = a ++ t := by
      rw [hideRest_append hscheme ha hhead, hideUser_eq_self huser, htail]
    rw [hrest]
    refine ⟨hself, ?_⟩
    by_cases hall : ∀ c ∈ a, urlRune c = true
    · rw [List.takeWhile_append_of_pos hall, List.takeWhile_eq_self_iff.mpr hrunes, hself]
    · have hstop : ∃ c ∈ a, urlRune c = false := by simpa using hall
      have hplain : ∀ c ∈ a.takeWhile urlRune, isEnd c = false := fun c hc => ha c ((List.takeWhile_sublist _).subset hc)
      have happend := hideRest_append hscheme hplain (t := []) fun c hc => by cases hc
      rw [List.append_nil, hideUser_eq_self huser.takeWhile] at happend
      rw [(spans_append hstop t).1, happend]
      exact List.append_nil _

/-- What is left of a rest holds no URL of its own. -/
theorem not_slashes_hideRest (scheme rest : Text) : ¬ "://".toList <:+: hideRest scheme rest := by
  intro hin
  have htwo : "://".toList.count '/' = 2 := by decide
  have hcount := hin.sublist.count_le '/'
  obtain ⟨-, hrest⟩ | ⟨a, t, -, hrest, -, ha, ht⟩ := hideRest_cases scheme rest
  · have hnone : redacted.count '/' = 0 := by decide
    rw [hrest] at hcount
    omega
  · have hzero : a.count '/' = 0 := List.count_eq_zero.mpr fun hmem => absurd (ha '/' hmem) (by decide)
    have hone : t.count '/' ≤ 1 := by
      have hmark : redacted.count '/' = 0 := by decide
      obtain rfl | rfl | ⟨c, -, rfl⟩ := ht
      · decide
      · decide
      · rw [List.count_cons, hmark]
        split <;> omega
    rw [hrest, List.count_append] at hcount
    omega

end Rest

/-! ### The bare pass -/

section Bare

variable {prev : Option Char} {c : Char} {s t run x : Text}

def bareFrom (prev : Option Char) (s : Text) : Text := replaceFrom urlPattern scrubBare 0 prev s

/-- Whether a scheme and its slashes can end at the front of a text, and whether something of a URL follows them. -/
def frontOf (s : Text) : Option Bool := (pastSlashes (s.dropWhile schemeRune)).map fun t => t.head?.any urlRune

theorem schemeRune_of_schemeStart (h : schemeStart c = true) : schemeRune c = true :=
  foldCase_mono (fun d hd => by simp [hd]) h

theorem frontOf_cons (hc : schemeRune c = true) : frontOf (c :: s) = frontOf s := by
  rw [frontOf, List.dropWhile_cons_of_pos hc, frontOf]

theorem frontOf_run (hrun : ∀ d ∈ run, schemeRune d = true) (t : Text) :
    frontOf (run ++ "://".toList ++ t) = some (t.head?.any urlRune) := by
  rw [List.append_assoc, frontOf, List.dropWhile_append_of_pos hrun]
  rfl

theorem urlAt_isSome (prev : Option Char) (c : Char) (s : Text) : (urlAt prev (c :: s)).isSome =
    ((prev.any isWord != isWord c) && schemeStart c && (frontOf s == some true)) := by
  rw [urlAt, frontOf]
  cases hgo : (prev.any isWord != isWord c) && schemeStart c with
  | false => rfl
  | true =>
      rw [if_pos rfl, Bool.true_and]
      cases pastSlashes (s.dropWhile schemeRune) with
      | none => rfl
      | some t =>
          cases t with
          | nil => rfl
          | cons d t => cases hd : urlRune d <;> simp [hd]

theorem urlAt_eq_none_of_frontOf {s' : Text} (hfront : frontOf s' = frontOf s) (h : urlAt prev (c :: s) = none) :
    urlAt prev (c :: s') = none := by
  rw [← Option.isNone_iff_eq_none, ← Option.not_isSome, urlAt_isSome, hfront, ← urlAt_isSome, h]
  rfl

/-- The parts of a match, and what ends it. -/
theorem exists_of_urlAt {w : Text} (h : urlAt prev s = some w) : ∃ c run body rest,
    (prev.any isWord != isWord c) = true ∧ schemeStart c = true ∧ (∀ d ∈ run, schemeRune d = true) ∧ body ≠ [] ∧
      (∀ d ∈ body, urlRune d = true) ∧ (∀ d ∈ rest.head?, urlRune d = false) ∧
      w = c :: run ++ "://".toList ++ body ∧ s = w ++ rest := by
  cases s with
  | nil => cases h
  | cons c s =>
      rw [urlAt] at h
      split at h
      · rename_i hgo
        obtain ⟨hboundary, hstart⟩ := Bool.and_eq_true_iff.mp hgo
        split at h
        · rename_i t hpast
          split at h
          · cases h
          · rename_i hne
            refine ⟨c, s.takeWhile schemeRune, t.takeWhile urlRune, t.dropWhile urlRune, hboundary, hstart,
              fun d => List.mem_takeWhile_imp, by simpa using hne, fun d => List.mem_takeWhile_imp,
              fun d => head?_dropWhile, (Option.some.inj h).symm, ?_⟩
            rw [← Option.some.inj h, List.append_assoc, List.takeWhile_append_dropWhile, List.append_assoc,
              ← pastSlashes_eq_some.mp hpast, List.cons_append, List.takeWhile_append_dropWhile]
        · cases h
      · cases h

theorem bareFrom_of_none (h : urlAt prev (c :: s) = none) : bareFrom prev (c :: s) = c :: bareFrom (some c) s := by
  refine replaceFrom_none ?_
  rw [matchAt_urlPattern, h]
  rfl

theorem bareFrom_cons (hc : schemeStart c = false) : bareFrom prev (c :: s) = c :: bareFrom (some c) s := by
  refine bareFrom_of_none (Option.isNone_iff_eq_none.mp ?_)
  rw [← Option.not_isSome, urlAt_isSome, hc, Bool.and_false]
  rfl

/-- The pass on a match, and the text behind it. -/
theorem bareFrom_match (hgo : (prev.any isWord != isWord c) = true) (hc : schemeStart c = true)
    (hrun : ∀ d ∈ run, schemeRune d = true) {body rest : Text} (hne : body ≠ []) (hbody : ∀ d ∈ body, urlRune d = true)
    (hrest : ∀ d ∈ rest.head?, urlRune d = false) :
    bareFrom prev (c :: run ++ "://".toList ++ body ++ rest) =
      c :: run ++ "://".toList ++ hideRest (c :: run) body ++ bareFrom none rest := by
  have hstop : rest.takeWhile urlRune = [] ∧ rest.dropWhile urlRune = rest := by
    cases rest with
    | nil => exact ⟨rfl, rfl⟩
    | cons d rest =>
        have hd : ¬ urlRune d = true := by rw [hrest d rfl]; exact Bool.false_ne_true
        exact ⟨List.takeWhile_cons_of_neg hd, List.dropWhile_cons_of_neg hd⟩
  have hurl := urlAt_eq_some (t := rest) hgo hc hrun hbody hne
  rw [← List.append_assoc] at hurl
  rw [bareFrom, replaceFrom_url hurl (by simp), hstop.1, hstop.2, List.append_nil,
    scrubURL_link (not_mem_colon hc hrun), bareFrom]

/-- A part of the pass's walk, one rune or one match at a time. -/
theorem bareFrom_induction {motive : Option Char → Text → Text → Prop} (nil : ∀ prev, motive prev [] [])
    (copy : ∀ prev c s, urlAt prev (c :: s) = none → motive (some c) s (bareFrom (some c) s) →
      motive prev (c :: s) (c :: bareFrom (some c) s))
    (swap : ∀ prev c run body rest, (prev.any isWord != isWord c) = true → schemeStart c = true →
      (∀ d ∈ run, schemeRune d = true) → body ≠ [] → (∀ d ∈ body, urlRune d = true) →
      (∀ d ∈ rest.head?, urlRune d = false) → motive none rest (bareFrom none rest) →
      motive prev (c :: run ++ "://".toList ++ body ++ rest)
        (c :: run ++ "://".toList ++ hideRest (c :: run) body ++ bareFrom none rest))
    (prev : Option Char) (s : Text) : motive prev s (bareFrom prev s) := by
  induction hlength : s.length using Nat.strong_induction_on generalizing prev s with
  | _ n ih =>
      cases s with
      | nil => exact nil prev
      | cons c s =>
          cases hurl : urlAt prev (c :: s) with
          | none =>
              rw [bareFrom_of_none hurl]
              exact copy prev c s hurl (ih s.length (by rw [← hlength]; exact Nat.lt_succ_self _) (some c) s rfl)
          | some w =>
              obtain ⟨c', run, body, rest, hgo, hc, hrun, hne, hbody, hrest, rfl, hs⟩ := exists_of_urlAt hurl
              rw [hs] at hlength ⊢
              rw [bareFrom_match hgo hc hrun hne hbody hrest]
              refine swap prev c' run body rest hgo hc hrun hne hbody hrest (ih rest.length ?_ none rest rfl)
              rw [← hlength]
              simp only [List.length_append, List.length_cons]
              omega

theorem hidden_bareFrom (prev : Option Char) (s : Text) : Hidden s (bareFrom prev s) := by
  refine bareFrom_induction (motive := fun _ s out => Hidden s out) (fun _ => .nil) (fun _ c _ _ ih => .keep c ih) ?_ prev s
  intro prev c run body rest _ _ _ _ _ _ ih
  exact ((Hidden.refl _).append (hidden_hideRest _ _)).append ih

theorem head?_bareFrom (prev : Option Char) (s : Text) : (bareFrom prev s).head? = s.head? :=
  bareFrom_induction (motive := fun _ s out => out.head? = s.head?) (fun _ => rfl) (fun _ _ _ _ _ => rfl)
    (fun _ _ _ _ _ _ _ _ _ _ _ _ => rfl) prev s

theorem hideRest_ne_nil (scheme : Text) {body : Text} (hne : body ≠ []) : hideRest scheme body ≠ [] := by
  intro hnil
  have hhidden := hidden_hideRest scheme body
  rw [hnil] at hhidden
  generalize hout : ([] : Text) = out at hhidden
  cases hhidden with
  | nil => exact hne rfl
  | keep c _ => cases hout
  | hide piece _ => cases hout

/-- Where a match ends up, something of a URL still follows the slashes. -/
theorem begins_hideRest {scheme body : Text} (hne : body ≠ []) (hbody : ∀ d ∈ body, urlRune d = true) :
    (∀ d ∈ hideRest scheme body, urlRune d = true) ∧ ∀ rest, (hideRest scheme body ++ rest).head?.any urlRune = true := by
  have hrunes : ∀ d ∈ hideRest scheme body, urlRune d = true := fun d hd =>
    ((hidden_hideRest scheme body).mem hd).elim (hbody d) (urlRune_redacted d)
  refine ⟨hrunes, fun rest => ?_⟩
  obtain ⟨d, tail, hout⟩ := List.exists_cons_of_ne_nil (hideRest_ne_nil scheme hne)
  rw [hout] at hrunes ⊢
  exact hrunes d List.mem_cons_self

/-- The pass does not change where a scheme can end. -/
theorem frontOf_bareFrom (prev : Option Char) (s : Text) : frontOf (bareFrom prev s) = frontOf s := by
  refine bareFrom_induction (motive := fun _ s out => frontOf out = frontOf s) (fun _ => rfl) ?_ ?_ prev s
  · intro prev c s _ ih
    by_cases hc : schemeRune c = true
    · rw [frontOf_cons hc, frontOf_cons hc, ih]
    · rw [frontOf, frontOf, List.dropWhile_cons_of_neg hc, List.dropWhile_cons_of_neg hc]
      by_cases hcolon : c = ':'
      swap
      · simp [pastSlashes, hcolon]
      subst hcolon
      cases s with
      | nil => rfl
      | cons d s =>
          by_cases hd : d = '/'
          swap
          · have hhead := head?_bareFrom (some ':') (d :: s)
            obtain ⟨tail, htail⟩ := List.head?_eq_some_iff.mp hhead
            simp [htail, pastSlashes, hd]
          subst hd
          rw [bareFrom_cons (by decide)]
          cases s with
          | nil => rfl
          | cons e s =>
              by_cases he : e = '/'
              swap
              · have hhead := head?_bareFrom (some '/') (e :: s)
                obtain ⟨tail, htail⟩ := List.head?_eq_some_iff.mp hhead
                simp [htail, pastSlashes, he]
              subst he
              rw [bareFrom_cons (by decide)]
              simp only [pastSlashes, Option.map_some, head?_bareFrom]
  · intro prev c run body rest _ hc hrun hne hbody _ _
    have hall : ∀ d ∈ c :: run, schemeRune d = true :=
      List.forall_mem_cons.mpr ⟨schemeRune_of_schemeStart hc, hrun⟩
    obtain ⟨d, tail, rfl⟩ := List.exists_cons_of_ne_nil hne
    have hbegins : (d :: tail ++ rest).head?.any urlRune = true := hbody d List.mem_cons_self
    rw [List.append_assoc, List.append_assoc _ (d :: tail), frontOf_run hall, frontOf_run hall,
      (begins_hideRest hne hbody).2, hbegins]

theorem bareFrom_bareFrom (prev : Option Char) (s : Text) : bareFrom prev (bareFrom prev s) = bareFrom prev s := by
  refine bareFrom_induction (motive := fun prev s out => bareFrom prev out = out) (fun _ => rfl) ?_ ?_ prev s
  · intro prev c s hnone ih
    rw [bareFrom_of_none (urlAt_eq_none_of_frontOf (frontOf_bareFrom _ _) hnone), ih]
  · intro prev c run body rest hgo hc hrun hne hbody hrest ih
    have hstop : ∀ d ∈ (bareFrom none rest).head?, urlRune d = false := by
      rw [head?_bareFrom]
      exact hrest
    rw [bareFrom_match hgo hc hrun (hideRest_ne_nil _ hne) (begins_hideRest hne hbody).1 hstop, (hideRest_hideRest _ _).1, ih]

/-- A quote ends a URL, so the pass goes on behind it as at the start of a text. -/
theorem frontOf_quote (s z : Text) : frontOf (s ++ '"' :: z) = frontOf s := by
  induction s with
  | nil => rfl
  | cons c s ih =>
      rw [List.cons_append]
      by_cases hc : schemeRune c = true
      · rw [frontOf_cons hc, frontOf_cons hc, ih]
      · rw [frontOf, frontOf, List.dropWhile_cons_of_neg hc, List.dropWhile_cons_of_neg hc]
        match s with
        | [] => simp [pastSlashes]
        | [d] => simp [pastSlashes]
        | d :: e :: t =>
            by_cases h : c = ':' ∧ d = '/' ∧ e = '/'
            · obtain ⟨rfl, rfl, rfl⟩ := h
              cases t with
              | nil => rfl
              | cons f t => rfl
            · rw [List.cons_append, List.cons_append, pastSlashes_eq_none h, pastSlashes_eq_none h]

theorem bareFrom_quote (prev : Option Char) (x z : Text) :
    bareFrom prev (x ++ '"' :: z) = bareFrom prev x ++ '"' :: bareFrom none z := by
  refine bareFrom_induction (motive := fun prev x out => bareFrom prev (x ++ '"' :: z) = out ++ '"' :: bareFrom none z)
    ?_ ?_ ?_ prev x
  · intro prev
    have hword : ∀ s : Text, bareFrom (some '"') s = bareFrom none s := by
      intro s
      cases s with
      | nil => rfl
      | cons c s => rw [bareFrom, bareFrom, replaceFrom, replaceFrom, matchAt_urlPattern, matchAt_urlPattern, urlAt, urlAt]; rfl
    rw [List.nil_append, bareFrom_cons (by decide), hword]
    rfl
  · intro prev c s hnone ih
    rw [List.cons_append, bareFrom_of_none (urlAt_eq_none_of_frontOf (frontOf_quote _ _) hnone), ih, List.cons_append]
  · intro prev c run body rest hgo hc hrun hne hbody hrest ih
    have hstop : ∀ d ∈ (rest ++ '"' :: z).head?, urlRune d = false := by
      cases rest with
      | nil => exact fun d hd => Option.some.inj hd ▸ rfl
      | cons d rest => exact hrest
    rw [List.append_assoc, bareFrom_match hgo hc hrun hne hbody hstop, ih, ← List.append_assoc]

theorem bareFrom_of_not_slashes (h : ¬ "://".toList <:+: s) (prev : Option Char) : bareFrom prev s = s := by
  refine replaceFrom_eq_self fun prev s' hs' => ?_
  cases hurl : urlAt prev s' with
  | none => rw [matchAt_urlPattern, hurl]; rfl
  | some w =>
      obtain ⟨c, run, body, rest, -, -, -, -, -, -, rfl, rfl⟩ := exists_of_urlAt hurl
      refine absurd (List.IsInfix.trans ?_ hs'.isInfix) h
      exact ⟨c :: run, body ++ rest, by simp only [List.append_assoc]⟩

/-- Slashes with nothing of a URL behind them are copied. -/
theorem bareFrom_run (hrun : ∀ d ∈ run, schemeRune d = true) (ht : t.head?.any urlRune = false) (prev : Option Char) :
    bareFrom prev (run ++ "://".toList ++ t) = run ++ "://".toList ++ bareFrom (some '/') t := by
  induction run generalizing prev with
  | nil =>
      change bareFrom prev (':' :: '/' :: '/' :: t) = _
      rw [bareFrom_cons (by decide), bareFrom_cons (by decide), bareFrom_cons (by decide)]
      rfl
  | cons c run ih =>
      obtain ⟨-, hrun⟩ := List.forall_mem_cons.mp hrun
      have hnone : urlAt prev (c :: (run ++ "://".toList ++ t)) = none := by
        rw [← Option.isNone_iff_eq_none, ← Option.not_isSome, urlAt_isSome, frontOf_run hrun, ht, Bool.and_comm]
        rfl
      exact (bareFrom_of_none hnone).trans (congrArg (c :: ·) (ih hrun (some c)))

/-- A text the patterns take for a URL where it stands behind a quote. -/
def IsURL (u : Text) : Prop := ∃ scheme rest, Opens scheme ∧ u = scheme ++ "://".toList ++ rest

theorem Opens.runes {scheme : Text} (h : Opens scheme) : ':' ∉ scheme ∧ ∀ d ∈ scheme, schemeRune d = true := by
  obtain ⟨c, run, rfl⟩ := List.exists_cons_of_ne_nil h.nonempty
  obtain ⟨-, hc, hrun⟩ := h.starts c run rfl
  exact ⟨not_mem_colon hc hrun, List.forall_mem_cons.mpr ⟨schemeRune_of_schemeStart hc, hrun⟩⟩

theorem isURL_iff (x : Text) :
    IsURL x ↔ (∃ c ∈ x.head?, isWord c = true ∧ schemeStart c = true) ∧ (frontOf x).isSome = true := by
  constructor
  · rintro ⟨scheme, rest, hopens, rfl⟩
    rw [frontOf_run hopens.runes.2]
    obtain ⟨c, run, rfl⟩ := List.exists_cons_of_ne_nil hopens.nonempty
    obtain ⟨hword, hc, -⟩ := hopens.starts c run rfl
    exact ⟨⟨c, rfl, hword, hc⟩, rfl⟩
  · rintro ⟨⟨c, hc, hword, hstart⟩, hfront⟩
    obtain ⟨s, rfl⟩ := List.head?_eq_some_iff.mp hc
    rw [frontOf_cons (schemeRune_of_schemeStart hstart), frontOf, Option.isSome_map] at hfront
    obtain ⟨t, ht⟩ := Option.isSome_iff_exists.mp hfront
    refine ⟨c :: s.takeWhile schemeRune, t, ⟨?_, List.cons_ne_nil _ _⟩, ?_⟩
    · rintro d run heq
      obtain ⟨rfl, rfl⟩ := List.cons.inj heq
      exact ⟨hword, hstart, fun d => List.mem_takeWhile_imp⟩
    · rw [List.append_assoc, ← pastSlashes_eq_some.mp ht, List.cons_append, List.takeWhile_append_dropWhile]

theorem isURL_bareFrom (x : Text) : IsURL (bareFrom none x) ↔ IsURL x := by
  rw [isURL_iff, isURL_iff, head?_bareFrom, frontOf_bareFrom]

/-- What is left of a URL is one, has nothing for the bare pass and stays as it is. -/
theorem scrubURL_settled {u : Text} (h : IsURL u) :
    Hidden u (scrubURL u) ∧ IsURL (scrubURL u) ∧ scrubURL (scrubURL u) = scrubURL u ∧
      bareFrom none (scrubURL u) = scrubURL u := by
  obtain ⟨scheme, rest, hopens, rfl⟩ := h
  obtain ⟨hcolon, hrunes⟩ := hopens.runes
  rw [scrubURL_link hcolon, scrubURL_link hcolon]
  obtain ⟨hself, hpart⟩ := hideRest_hideRest scheme rest
  have hnone := not_slashes_hideRest scheme rest
  refine ⟨(Hidden.refl _).append (hidden_hideRest _ _), ⟨scheme, _, hopens, rfl⟩, by rw [hself], ?_⟩
  generalize hideRest scheme rest = left at *
  by_cases hbegins : left.head?.any urlRune = true
  · obtain ⟨c, run, rfl⟩ := List.exists_cons_of_ne_nil hopens.nonempty
    obtain ⟨hword, hc, hrun⟩ := hopens.starts c run rfl
    have hne : left.takeWhile urlRune ≠ [] := by
      cases left with
      | nil => cases hbegins
      | cons d left =>
          have hd : urlRune d = true := hbegins
          rw [List.takeWhile_cons_of_pos hd]
          exact List.cons_ne_nil _ _
    have hgo : ((none : Option Char).any isWord != isWord c) = true := by rw [hword]; rfl
    have hmatch := bareFrom_match hgo hc hrun hne (fun d => List.mem_takeWhile_imp) fun d => head?_dropWhile (s := left)
    have hrest : ¬ "://".toList <:+: left.dropWhile urlRune := fun hin =>
      hnone (hin.trans (List.dropWhile_suffix _).isInfix)
    rw [hpart, bareFrom_of_not_slashes hrest, List.append_assoc, List.takeWhile_append_dropWhile] at hmatch
    exact hmatch
  · rw [bareFrom_run hrunes (Bool.eq_false_iff.mpr hbegins), bareFrom_of_not_slashes hnone]

end Bare

/-! ### The quoted pass -/

section Quoted

variable {x u y : Text}

theorem eq_of_mem_wordBoundary {p q : Pos} (h : q ∈ Expr.wordBoundary.outcomes p) :
    q = p ∧ p.atWordBoundary = true := by
  rw [Expr.outcomes] at h
  split at h
  · rename_i hboundary
    exact ⟨List.mem_singleton.mp h, hboundary⟩
  · cases h

theorem reads_urlExpr {tail : Expr} {w : Text} (h : (urlExpr tail).Reads w) : ∃ c run body,
    w = c :: run ++ "://".toList ++ body ∧ schemeStart c = true ∧ (∀ d ∈ run, schemeRune d = true) ∧ tail.Reads body := by
  obtain ⟨_, _, rfl, ⟨c, rfl, hc⟩, run, _, rfl, hrun, _, _, rfl, ⟨_, rfl, h₁⟩, _, _, rfl, ⟨_, rfl, h₂⟩, _, body, rfl,
    ⟨_, rfl, h₃⟩, hbody⟩ := h
  obtain rfl := beq_iff_eq.mp h₁
  obtain rfl := beq_iff_eq.mp h₂
  obtain rfl := beq_iff_eq.mp h₃
  refine ⟨c, run, body, ?_, hc, reads_star_rune.mp hrun, hbody⟩
  rw [List.append_assoc]
  rfl

/-- A quoted match is a URL in quotes, read piece by piece. -/
theorem exists_of_quoted {prev : Option Char} {s : Text} {m : Match} (h : quotedURLPattern.matchAt prev s = some m) :
    ∃ scheme body rest, Opens scheme ∧ (Expr.star quotedPiece).Reads body ∧
      m.text = '"' :: (scheme ++ "://".toList ++ body) ++ ['"'] ∧ s = m.text ++ rest := by
  obtain ⟨q, hq, rfl⟩ := Option.map_eq_some_iff.mp h
  obtain ⟨p₁, hp₁, hq⟩ := List.mem_flatMap.mp (List.mem_of_mem_head? hq)
  obtain ⟨p₂, hp₂, hq⟩ := List.mem_flatMap.mp hq
  obtain ⟨p₃, hp₃, hq⟩ := List.mem_flatMap.mp hq
  obtain ⟨p₄, hp₄, rfl⟩ := List.mem_map.mp hp₃
  obtain ⟨_, r₁, hrest₁, rfl, a, rfl, ha⟩ := (mem_outcomes rfl _ p₁).mp hp₁
  obtain ⟨rfl, hboundary⟩ := eq_of_mem_wordBoundary hp₂
  obtain ⟨w, r₂, hrest₂, rfl, hread⟩ := (mem_outcomes (by rfl) _ p₄).mp hp₄
  obtain ⟨_, r₃, hrest₃, hend, b, rfl, hb⟩ := (mem_outcomes rfl _ q).mp hq
  obtain ⟨c, run, body, rfl, hc, hrun, hbody⟩ := reads_urlExpr hread
  obtain rfl := beq_iff_eq.mp ha
  obtain rfl := beq_iff_eq.mp hb
  have hs : s = '"' :: (c :: run ++ "://".toList ++ body) ++ ['"'] ++ r₃ := by
    rw [show s = _ from hrest₁, show r₁ = _ from hrest₂, show r₂ = _ from hrest₃]
    simp only [List.cons_append, List.nil_append, List.append_assoc]
  have htext : Pos.until ⟨prev, s, []⟩ q = '"' :: (c :: run ++ "://".toList ++ body) ++ ['"'] := by
    refine Pos.until_of_append ?_
    rw [hend]
    exact hs
  refine ⟨c :: run, body, r₃, ⟨?_, List.cons_ne_nil _ _⟩, hbody, htext, ?_⟩
  · rintro d run' heq
    obtain ⟨rfl, rfl⟩ := List.cons.inj heq
    refine ⟨?_, hc, hrun⟩
    have hword : (false != isWord c) = true := by
      rw [show r₁ = _ from hrest₂] at hboundary
      exact hboundary
    simpa using hword
  · rw [htext]
    exact hs

theorem not_mem_of_reads {body : Text} (h : (Expr.star quotedPiece).Reads body) (hplain : Plain body) : '"' ∉ body := by
  obtain ⟨turns, rfl, hturns⟩ := h
  intro hmem
  obtain ⟨turn, hturn, hmem⟩ := List.mem_flatten.mp hmem
  obtain ⟨-, ⟨c, rfl, hc⟩ | ⟨_, _, rfl, ⟨c, rfl, hc⟩, d, rfl, -⟩⟩ := hturns turn hturn
  · obtain rfl := List.mem_singleton.mp hmem
    exact absurd hc (by decide)
  · obtain rfl := beq_iff_eq.mp hc
    obtain hmem | hmem := List.mem_cons.mp hmem
    · exact absurd hmem (by decide)
    · obtain rfl := List.mem_singleton.mp hmem
      exact absurd (hplain.part (List.infix_of_mem_flatten hturn)) (by decide)

theorem pieces_of_plain : ∀ {body : Text}, '"' ∉ body → Plain (body ++ ['"']) → Pieces body
  | [], _, _ => .nil
  | [c], hquote, hplain => by
      have hback : c ≠ '\\' := by
        rintro rfl
        exact absurd hplain (by decide)
      exact .cons (.plain (List.ne_of_not_mem_cons hquote).symm hback) .nil
  | c :: d :: body, hquote, hplain => by
      have hrest : '"' ∉ d :: body := List.not_mem_of_not_mem_cons hquote
      by_cases hback : c = '\\'
      · subst hback
        obtain ⟨hpair, hplain⟩ := List.isChain_cons.mp hplain
        have hd : d ≠ '\n' := ((hpair d rfl).resolve_left (not_not.mpr rfl)).2
        exact .cons (.escaped hd) (pieces_of_plain (List.not_mem_of_not_mem_cons hrest) (List.isChain_cons.mp hplain).2)
      · exact .cons (.plain (List.ne_of_not_mem_cons hquote).symm hback)
          (pieces_of_plain hrest (List.isChain_cons.mp hplain).2)

def quoteFrom (prev : Option Char) (s : Text) : Text := replaceFrom quotedURLPattern scrubQuoted 0 prev s

theorem quoteFrom_append (hx : '"' ∉ x) (prev : Option Char) (s : Text) :
    quoteFrom prev (x ++ s) = x ++ quoteFrom (x.getLast?.or prev) s := by
  have hcopied : ∀ c ∈ x, (c == '"') = false := fun c hc => beq_eq_false_iff_ne.mpr fun heq => hx (heq ▸ hc)
  exact replaceFrom_append_of_noStart (fun prev c s hc => matchAt_quotedURLPattern_none prev hc s) hcopied prev s

/-- A URL and a quote stand at the front. -/
def OpensURL (y : Text) : Prop := ∃ u z, '"' ∉ u ∧ IsURL u ∧ y = u ++ '"' :: z

theorem quoteFrom_skip (hplain : Plain ('"' :: y)) (hnot : ¬ OpensURL y) (prev : Option Char) :
    quoteFrom prev ('"' :: y) = '"' :: quoteFrom (some '"') y := by
  refine replaceFrom_none (Option.eq_none_iff_forall_ne_some.mpr fun m hm => hnot ?_)
  obtain ⟨scheme, body, rest, hopens, hread, htext, hs⟩ := exists_of_quoted hm
  rw [htext] at hs
  obtain rfl : y = scheme ++ "://".toList ++ body ++ '"' :: rest := by
    rw [(List.cons.inj hs).2]
    exact List.append_cons .. |>.symm
  have hbody : '"' ∉ body := not_mem_of_reads hread (hplain.part ⟨'"' :: scheme ++ "://".toList, '"' :: rest, by simp⟩)
  refine ⟨_, rest, ?_, ⟨scheme, body, hopens, rfl⟩, rfl⟩
  rw [List.mem_append, List.mem_append, not_or, not_or]
  exact ⟨⟨fun hmem => absurd (hopens.runes.2 _ hmem) (by decide), by decide⟩, hbody⟩

theorem scrubQuoted_eq {m : Match} (h : m.text = '"' :: u ++ ['"']) : scrubQuoted m = '"' :: scrubURL u ++ ['"'] := by
  rw [scrubQuoted, h]
  exact congrArg (fun u => '"' :: scrubURL u ++ ['"']) List.dropLast_concat

theorem quoteFrom_url (hquote : '"' ∉ u) (hu : IsURL u) (hplain : Plain (u ++ '"' :: y)) (prev : Option Char) :
    quoteFrom prev ('"' :: (u ++ '"' :: y)) = '"' :: (scrubURL u ++ '"' :: quoteFrom (some '"') y) := by
  obtain ⟨scheme, body, hopens, rfl⟩ := hu
  have hbody : Pieces body := by
    refine pieces_of_plain (fun hmem => hquote (List.mem_append_right _ hmem)) ?_
    exact hplain.part ⟨scheme ++ "://".toList, y, by simp⟩
  obtain ⟨groups, hmatch⟩ := matchAt_quotedURLPattern hopens hbody prev y
  have hs : '"' :: (scheme ++ "://".toList ++ body ++ '"' :: y) =
      '"' :: (scheme ++ "://".toList ++ body) ++ ['"'] ++ y := by
    simp only [List.cons_append, List.append_assoc, List.nil_append]
  rw [quoteFrom, hs, replaceFrom_match hmatch rfl (by simp), scrubQuoted_eq rfl, List.getLast?_concat, List.append_assoc]
  rfl

theorem hidden_quoteFrom (prev : Option Char) (s : Text) : Hidden s (quoteFrom prev s) := by
  refine replaceFrom_induction (motive := fun _ s out => Hidden s out) (fun _ => .nil) (fun _ c _ _ _ ih => .keep c ih) ?_
    prev s
  intro prev w s m out hmatch htext _ ih
  obtain ⟨scheme, body, rest, hopens, -, hm, -⟩ := exists_of_quoted hmatch
  rw [scrubQuoted_eq hm, ← htext, hm]
  exact (Hidden.keep '"' ((scrubURL_settled ⟨scheme, body, hopens, rfl⟩).1.append (.refl ['"']))).append ih

end Quoted

/-! ### Both passes -/

section Links

variable {x u y : Text}

def linksFrom (prev : Option Char) (s : Text) : Text := bareFrom none (quoteFrom prev s)

theorem hidden_linksFrom {s : Text} (prev : Option Char) (h : Plain s) : Plain (linksFrom prev s) :=
  (hidden_bareFrom none _).plain ((hidden_quoteFrom prev s).plain h)

theorem not_mem_bareFrom (hx : '"' ∉ x) : '"' ∉ bareFrom none x := fun hmem =>
  ((hidden_bareFrom none x).mem hmem).elim hx (by decide)

theorem linksFrom_of_not_mem (hx : '"' ∉ x) (prev : Option Char) : linksFrom prev x = bareFrom none x := by
  have hcopy := quoteFrom_append hx prev []
  rw [List.append_nil] at hcopy
  rw [linksFrom, hcopy]
  exact congrArg (bareFrom none) (List.append_nil x)

theorem linksFrom_skip (hx : '"' ∉ x) (hplain : Plain (x ++ '"' :: y)) (hnot : ¬ OpensURL y) (prev : Option Char) :
    linksFrom prev (x ++ '"' :: y) = bareFrom none x ++ '"' :: linksFrom (some '"') y := by
  rw [linksFrom, quoteFrom_append hx, quoteFrom_skip (hplain.part ⟨x, [], by simp⟩) hnot, bareFrom_quote, linksFrom]

theorem linksFrom_url (hx : '"' ∉ x) (hquote : '"' ∉ u) (hu : IsURL u) (hplain : Plain (x ++ '"' :: (u ++ '"' :: y)))
    (prev : Option Char) : linksFrom prev (x ++ '"' :: (u ++ '"' :: y)) =
      bareFrom none x ++ '"' :: (scrubURL u ++ '"' :: linksFrom (some '"') y) := by
  rw [linksFrom, quoteFrom_append hx, quoteFrom_url hquote hu (hplain.part ⟨x ++ ['"'], [], by simp⟩), bareFrom_quote,
    bareFrom_quote, (scrubURL_settled hu).2.2.2, linksFrom]

theorem opensURL_append (hx : '"' ∉ x) (z : Text) : OpensURL (x ++ '"' :: z) ↔ IsURL x := by
  refine ⟨fun ⟨u, z', hquote, hu, heq⟩ => ?_, fun h => ⟨x, z, hx, h, rfl⟩⟩
  obtain ⟨rfl, -⟩ := eq_of_first heq hx hquote
  exact hu

theorem OpensURL.mem (h : OpensURL y) : '"' ∈ y := by
  obtain ⟨u, z, -, -, rfl⟩ := h
  simp

/-- The passes keep whether a URL and a quote stand at the front. -/
theorem opensURL_linksFrom {prev : Option Char} (hplain : Plain y) (h : OpensURL (linksFrom prev y)) : OpensURL y := by
  by_cases hquote : '"' ∈ y
  · obtain ⟨x, z, rfl, hx⟩ := List.eq_append_cons_of_mem hquote
    obtain ⟨z', hout⟩ : ∃ z', linksFrom prev (x ++ '"' :: z) = bareFrom none x ++ '"' :: z' := by
      by_cases hopens : OpensURL z
      · obtain ⟨u, z, hu, hurl, rfl⟩ := hopens
        exact ⟨_, linksFrom_url hx hu hurl hplain prev⟩
      · exact ⟨_, linksFrom_skip hx hplain hopens prev⟩
    rw [hout, opensURL_append (not_mem_bareFrom hx), isURL_bareFrom] at h
    exact (opensURL_append hx z).mpr h
  · rw [linksFrom_of_not_mem hquote] at h
    exact absurd h.mem (not_mem_bareFrom hquote)

theorem linksFrom_of_not_slashes {s : Text} (h : ¬ "://".toList <:+: s) (prev : Option Char) : linksFrom prev s = s := by
  have hquoted : quoteFrom prev s = s := by
    refine replaceFrom_eq_self fun prev s' hs' => Option.eq_none_iff_forall_ne_some.mpr fun m hm => h ?_
    obtain ⟨scheme, body, rest, -, -, htext, rfl⟩ := exists_of_quoted hm
    rw [htext] at hs'
    exact List.IsInfix.trans ⟨'"' :: scheme, body ++ ['"'] ++ rest, by simp⟩ hs'.isInfix
  rw [linksFrom, hquoted, bareFrom_of_not_slashes h]

/-- The passes for links have nothing to do on what they left. -/
theorem linksFrom_linksFrom {s : Text} (hplain : Plain s) (prev prev' : Option Char) :
    linksFrom prev' (linksFrom prev s) = linksFrom prev s := by
  induction hlength : s.length using Nat.strong_induction_on generalizing s prev prev' with
  | _ n ih =>
      have hagain := hidden_linksFrom prev hplain
      by_cases hquote : '"' ∈ s
      swap
      · rw [linksFrom_of_not_mem hquote, linksFrom_of_not_mem (not_mem_bareFrom hquote), bareFrom_bareFrom]
      obtain ⟨x, y, rfl, hx⟩ := List.eq_append_cons_of_mem hquote
      have hx' := not_mem_bareFrom hx
      have hy : Plain y := hplain.part ⟨x ++ ['"'], [], by simp⟩
      by_cases hopens : OpensURL y
      · obtain ⟨u, z, hu, hurl, rfl⟩ := hopens
        obtain ⟨hhidden, hurl', hself, -⟩ := scrubURL_settled hurl
        have hu' : '"' ∉ scrubURL u := fun hmem => (hhidden.mem hmem).elim hu (by decide)
        have hz : Plain z := hy.part ⟨u ++ ['"'], [], by simp⟩
        rw [linksFrom_url hx hu hurl hplain] at hagain ⊢
        rw [linksFrom_url hx' hu' hurl' hagain, bareFrom_bareFrom, hself, ih z.length _ hz _ _ rfl]
        rw [← hlength]
        simp only [List.length_append, List.length_cons]
        omega
      · rw [linksFrom_skip hx hplain hopens] at hagain ⊢
        have hnot : ¬ OpensURL (linksFrom (some '"') y) := fun h => hopens (opensURL_linksFrom hy h)
        rw [linksFrom_skip hx' hagain hnot, bareFrom_bareFrom, ih y.length _ hy _ _ rfl]
        rw [← hlength]
        simp only [List.length_append, List.length_cons]
        omega

end Links

end GlitchCore.Logfmt
