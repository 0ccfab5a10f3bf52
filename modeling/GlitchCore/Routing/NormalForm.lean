import GlitchCore.Base.Fields
import GlitchCore.Routing.Matcher

/-!
# Normal forms of matchers

The value `classify` gives an entry is taken literally by one engine and trimmed by the other, so it has to be a
normal form: trimmed, and classified as itself when it is spelled with the head of its kind. White space goes
first and dots second, so a domain whose dots stand beside white space is the one entry with another value.
-/

namespace GlitchCore

open GoText NetAddr

/-- The word a kind is written with before the colon, none for an address. -/
def canonicalHead : MatchKind → Option Text
  | .geoIP => some "geoip".toList
  | .geoSite => some "geosite".toList
  | .domainSuffix => some "domain".toList
  | .domainFull => some "full".toList
  | .domainKeyword => some "keyword".toList
  | .domainRegex => some "regexp".toList
  | .process => some "process".toList
  | .ipCIDR => none

def canonical (kind : MatchKind) (val : Text) : Text :=
  match canonicalHead kind with
  | some head => head ++ ':' :: val
  | none => val

/-- A value without white space at its ends, which its canonical spelling gives back. -/
structure NormalForm (kind : MatchKind) (val : Text) : Prop where
  ne_nil : val ≠ []
  trimmed : trimSpace val = val
  again : classify (canonical kind val) = some (kind, val)

/-- No white space stands behind the leading dots or before the trailing ones. -/
def DotsTight (t : Text) : Prop :=
  (∀ c ∈ (t.dropWhile (· == '.')).head?, isSpace c = false) ∧
    ∀ c ∈ (t.rdropWhile (· == '.')).getLast?, isSpace c = false

instance (t : Text) : Decidable (DotsTight t) :=
  decidable_of_iff ((t.dropWhile (· == '.')).head?.all (fun c => !isSpace c) = true ∧
    (t.rdropWhile (· == '.')).getLast?.all (fun c => !isSpace c) = true) (by simp [DotsTight, Option.all_eq_true])

/-! ### Trimmed dots -/

theorem exists_of_trim (p : Char → Bool) (s : Text) :
    ∃ before after, s = before ++ trim p s ++ after ∧ (∀ c ∈ before, p c = true) ∧ ∀ c ∈ after, p c = true := by
  refine ⟨s.takeWhile p, (s.dropWhile p).rtakeWhile p, ?_, fun c hc => List.mem_takeWhile_imp hc,
    fun c hc => List.mem_rtakeWhile_imp hc⟩
  rw [trim, List.append_assoc, List.rdropWhile_append_rtakeWhile, List.takeWhile_append_dropWhile]

/-- What trimming dots uncovers is white space exactly if white space stands beside them. -/
theorem edges_trim_dots {t : Text} (hne : trim (· == '.') t ≠ []) :
    Edges isSpace (trim (· == '.') t) ↔ DotsTight t := by
  obtain ⟨before, after, ht, hbefore, hafter⟩ := exists_of_trim (· == '.') t
  have hdots := edges_trim (· == '.') t
  generalize trim (· == '.') t = v at ht hdots hne
  subst ht
  have hdrop : (before ++ v ++ after).dropWhile (· == '.') = v ++ after := by
    rw [List.append_assoc, List.dropWhile_append_of_pos hbefore]
    exact dropWhile_append_of_head hne hdots.1
  have hrdrop : (before ++ v ++ after).rdropWhile (· == '.') = before ++ v := by
    rw [rdropWhile_append_of_last, List.rdropWhile_eq_nil_iff.mpr hafter, List.append_nil]
    rw [List.getLast?_append_of_ne_nil _ hne]
    exact hdots.2
  rw [DotsTight, hdrop, hrdrop, Edges, List.head?_append_of_ne_nil _ hne, List.getLast?_append_of_ne_nil _ hne]

theorem domainEntry_of_edges {v : Text} (kind : MatchKind) (hdots : Edges (· == '.') v) (hne : v ≠ []) :
    domainEntry kind v = some (kind, v) := by
  simp only [domainEntry, trim_eq_self.mpr hdots, hne, if_false]

/-! ### Reading a canonical spelling -/

/-- The words of the heads: a rune no address has, no colon and no white space in front. -/
theorem canonicalHead_spec {kind : MatchKind} {head : Text} (hhead : canonicalHead kind = some head) :
    head.any (fun c => !isAddressRune c) = true ∧ ':' ∉ head ∧ Edges isSpace head ∧ toLower head = head := by
  cases kind <;> simp only [canonicalHead, Option.some.injEq, reduceCtorEq] at hhead <;> subst hhead <;> decide

/-- A headed spelling is trimmed, no address, and cut at the colon of its head. -/
theorem canonical_parts {kind : MatchKind} {head v : Text} (hhead : canonicalHead kind = some head) (hne : v ≠ [])
    (hedges : Edges isSpace v) :
    trimSpace (canonical kind v) = canonical kind v ∧ isIPOrCIDR (canonical kind v) = false ∧
      cut ':' (canonical kind v) = some (head, v) ∧ canonical kind v ≠ [] := by
  obtain ⟨hany, hcolon, hspace, -⟩ := canonicalHead_spec hhead
  obtain ⟨c, hc, hrune⟩ := List.any_eq_true.mp hany
  have hcanonical : canonical kind v = head ++ ':' :: v := by rw [canonical, hhead]
  have hlast : Edges isSpace (':' :: v) := by
    refine ⟨fun d hd => ?_, fun d hd => hedges.2 d ?_⟩
    · obtain rfl := Option.some.inj hd
      decide
    · rwa [List.getLast?_cons_of_ne_nil hne] at hd
  rw [hcanonical]
  refine ⟨trim_eq_self.mpr (hspace.append hlast), ?_, cut_eq_some.mpr ⟨rfl, hcolon⟩, by simp⟩
  refine Bool.eq_false_iff.mpr fun hip => ?_
  have hall := isAddressRune_of_isIPOrCIDR hip c (List.mem_append_left _ hc)
  rw [hall] at hrune
  cases hrune

/-- What makes a value the normal form of its kind. -/
theorem normalForm_of {kind : MatchKind} {v : Text} (hne : v ≠ []) (hedges : Edges isSpace v)
    (hip : kind = .ipCIDR → isIPOrCIDR v = true) (hlower : kind = .geoIP ∨ kind = .geoSite → toLower v = v)
    (hdots : kind = .domainSuffix ∨ kind = .domainFull → Edges (· == '.') v) : NormalForm kind v := by
  have htrim : trimSpace v = v := trim_eq_self.mpr hedges
  refine ⟨hne, htrim, ?_⟩
  cases hhead : canonicalHead kind with
  | none =>
      have hkind : kind = .ipCIDR := by cases kind <;> first | rfl | cases hhead
      have hcanonical : canonical kind v = v := by rw [canonical, hhead]
      rw [hcanonical, classify]
      simp only [htrim, hne, hip hkind, if_false, if_true, hkind]
  | some head =>
      obtain ⟨htrimmed, haddress, hcut, hcanonical⟩ := canonical_parts hhead hne hedges
      have hcons : ∃ c tail, head = c :: tail := by
        obtain ⟨c, hc, -⟩ := List.any_eq_true.mp (canonicalHead_spec hhead).1
        exact List.exists_cons_of_ne_nil (List.ne_nil_of_mem hc)
      have hword := (canonicalHead_spec hhead).2.2.2
      obtain ⟨c, tail, rfl⟩ := hcons
      simp only [classify, htrimmed, haddress, hcut, hcanonical, htrim, hne, if_false, Bool.false_eq_true, hword]
      cases kind with
      | ipCIDR => cases hhead
      | geoIP => rw [← Option.some.inj hhead, if_pos rfl, hlower (.inl rfl)]
      | geoSite => rw [← Option.some.inj hhead, if_neg (by decide), if_pos rfl, hlower (.inr rfl)]
      | domainSuffix =>
          rw [← Option.some.inj hhead, if_neg (by decide), if_neg (by decide), if_pos rfl]
          exact domainEntry_of_edges .domainSuffix (hdots (.inl rfl)) hne
      | domainFull =>
          rw [← Option.some.inj hhead, if_neg (by decide), if_neg (by decide), if_neg (by decide), if_pos rfl]
          exact domainEntry_of_edges .domainFull (hdots (.inr rfl)) hne
      | domainKeyword =>
          rw [← Option.some.inj hhead, if_neg (by decide), if_neg (by decide), if_neg (by decide), if_neg (by decide),
            if_pos rfl]
      | domainRegex =>
          rw [← Option.some.inj hhead, if_neg (by decide), if_neg (by decide), if_neg (by decide), if_neg (by decide),
            if_neg (by decide), if_pos (.inl rfl)]
      | process =>
          rw [← Option.some.inj hhead, if_neg (by decide), if_neg (by decide), if_neg (by decide), if_neg (by decide),
            if_neg (by decide), if_neg (by decide), if_pos rfl]

theorem edges_toLower {s : Text} (hs : Edges isSpace s) : Edges isSpace (toLower s) := by
  simp only [Edges, toLower, List.head?_map, List.getLast?_map, Option.mem_def, Option.map_eq_some_iff]
  constructor
  · rintro _ ⟨c, hc, rfl⟩
    rw [isSpace_toLowerRune]
    exact hs.1 c hc
  · rintro _ ⟨c, hc, rfl⟩
    rw [isSpace_toLowerRune]
    exact hs.2 c hc

/-- A classified value is a normal form exactly if the entry has no white space beside the dots around its domain. -/
theorem normalForm_iff_dotsTight {entry v : Text} {kind : MatchKind} (hclass : classify entry = some (kind, v)) :
    NormalForm kind v ↔ ∀ t ∈ domainText entry, DotsTight t := by
  cases classified_of_classify hclass with
  | address hne hip htext =>
      rw [htext]
      refine iff_of_true ?_ nofun
      exact normalForm_of hne (edges_trim isSpace entry) (fun _ => hip) nofun nofun
  | geo hkind hne htext =>
      rw [htext]
      refine iff_of_true ?_ nofun
      refine normalForm_of (fun hnil => hne (toLower_eq_nil.mp hnil)) (edges_toLower (edges_trim isSpace _)) ?_
        (fun _ => toLower_toLower _) ?_
      · rintro rfl
        exact absurd hkind (by decide)
      · rintro (rfl | rfl)
        · exact absurd hkind (by decide)
        · exact absurd hkind (by decide)
  | text hkind hne htext =>
      rw [htext]
      refine iff_of_true ?_ nofun
      refine normalForm_of hne (edges_trim isSpace _) ?_ ?_ ?_
      · rintro rfl
        exact absurd hkind (by decide)
      · rintro (rfl | rfl)
        · exact absurd hkind (by decide)
        · exact absurd hkind (by decide)
      · rintro (rfl | rfl)
        · exact absurd hkind (by decide)
        · exact absurd hkind (by decide)
  | domain hkind htext hne =>
      rename_i t
      have hdots := edges_trim (· == '.') t
      simp only [htext, Option.mem_def, Option.some.injEq, forall_eq']
      rw [← edges_trim_dots hne]
      constructor
      · intro h
        exact trim_eq_self.mp h.trimmed
      · intro hedges
        refine normalForm_of hne hedges ?_ ?_ (fun _ => hdots)
        · rintro rfl
          exact absurd hkind (by decide)
        · rintro (rfl | rfl)
          · exact absurd hkind (by decide)
          · exact absurd hkind (by decide)

theorem normalForm_iff_dotsTight_wrapped :
    classify " .ru. ".toList = some (.domainSuffix, "ru".toList) ∧ NormalForm .domainSuffix "ru".toList := by
  have hclass : classify " .ru. ".toList = some (.domainSuffix, "ru".toList) := by decide
  have htext : domainText " .ru. ".toList = some ".ru.".toList := by decide
  have htight : DotsTight ".ru.".toList := by decide
  refine ⟨hclass, (normalForm_iff_dotsTight hclass).mpr fun t ht => ?_⟩
  exact Option.some.inj (htext.symm.trans ht) ▸ htight

/-- White space behind a leading dot stays in the value, and the canonical spelling then loses it. -/
theorem classify_dot_space :
    classify ". example.com".toList = some (.domainSuffix, " example.com".toList) ∧
      trimSpace " example.com".toList = "example.com".toList ∧
      classify (canonical .domainSuffix " example.com".toList) = some (.domainSuffix, "example.com".toList) := by
  decide

end GlitchCore
