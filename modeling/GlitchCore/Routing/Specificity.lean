import GlitchCore.Base.Fields
import GlitchCore.Routing.Tier

/-!
# The order of a tier's entries

`Tier.entries` sorts by four numbers computed from the text of an entry. Here is what those numbers stand for: a
subdomain has more dots than the domain it is in, and a network strictly inside another leaves fewer bits free, so
the more specific of two entries that overlap is met first. The prefix an address is compared by is the address
itself, except for an IPv4 address written inside IPv6: its prefix length is counted for the short form and read
against the long one.
-/

namespace GlitchCore

open GoText NetAddr

/-! ### Addresses and the prefixes they are compared by -/

/-- The literal before the slash is an IPv4 address written inside IPv6. -/
def writtenMapped (s : Text) : Bool :=
  match parseIP (s.takeWhile (· != '/')) with
  | some (.v6 bits) => decide (IsMapped bits)
  | _ => false

/-- The addresses an IP or CIDR names. -/
def namesAddress (s : Text) (x : IP) : Bool :=
  if '/' ∈ s then (parseCIDR s).any (·.contains x) else parseIP s == some x

theorem trimSpace_of_isIPOrCIDR {s : Text} (h : isIPOrCIDR s = true) : trimSpace s = s :=
  trim_eq_self.mpr (edges_of_forall fun c hc => isSpace_of_isAddressRune (isAddressRune_of_isIPOrCIDR h c hc))

theorem parseCIDR_append {s mask : Text} {ip : IP} {n : Nat} (hbare : '/' ∉ s) (hip : parseIP s = some ip)
    (hmask : decimal mask = some n) (hn : n ≤ ip.bitLen) : parseCIDR (s ++ '/' :: mask) = some ⟨ip, n⟩ := by
  have hcut : cut '/' (s ++ '/' :: mask) = some (s, mask) := cut_eq_some.mpr ⟨rfl, hbare⟩
  simp only [parseCIDR, hcut, hip, hmask, hn, if_true]

/-- The prefix of a bare address: all its bits fixed, or the 32 of the short form. -/
theorem parseCIDR_normalizeCIDR_bare {s : Text} {ip : IP} (hbare : '/' ∉ s) (hip : parseIP s = some ip) :
    parseCIDR (normalizeCIDR s) = some ⟨ip, if ip.to4 then 32 else 128⟩ := by
  have hvalid : isIPOrCIDR s = true := by simp [isIPOrCIDR, hbare, hip]
  rw [normalizeCIDR, trimSpace_of_isIPOrCIDR hvalid, if_neg hbare, hip]
  dsimp only
  split
  · exact parseCIDR_append hbare hip (by decide) (by cases ip <;> simp [IP.bitLen])
  next hlong =>
    have hwide : (128 : Nat) ≤ ip.bitLen := by
      cases ip with
      | v4 bits => simp [IP.to4] at hlong
      | v6 bits => simp [IP.bitLen]
    exact parseCIDR_append hbare hip (by decide) hwide

theorem writtenMapped_bare {s : Text} {ip : IP} (hbare : '/' ∉ s) (hip : parseIP s = some ip) :
    writtenMapped s = true ↔ ∃ bits, ip = .v6 bits ∧ IsMapped bits := by
  have hwhole : s.takeWhile (· != '/') = s :=
    List.takeWhile_eq_self_iff.mpr fun c hc => bne_iff_ne.mpr fun hslash => hbare (hslash ▸ hc)
  rw [writtenMapped, hwhole, hip]
  cases ip with
  | v4 bits => simp
  | v6 bits => simp

/-- Outside the mapped form every bit of a bare address is fixed. -/
theorem parseCIDR_normalizeCIDR_unmapped {s : Text} {ip : IP} (hbare : '/' ∉ s) (hip : parseIP s = some ip)
    (hplain : writtenMapped s = false) : parseCIDR (normalizeCIDR s) = some ⟨ip, ip.bitLen⟩ := by
  rw [parseCIDR_normalizeCIDR_bare hbare hip]
  cases ip with
  | v4 bits => rfl
  | v6 bits =>
      have hlong : ¬IsMapped bits := fun hmapped =>
        absurd ((writtenMapped_bare hbare hip).mpr ⟨bits, rfl, hmapped⟩) (by simp [hplain])
      simp [IP.to4, IP.bitLen, hlong]

theorem hostBits_of_parseCIDR {s : Text} {net : Prefix} (hnet : parseCIDR (normalizeCIDR s) = some net) :
    hostBits s = net.addr.bitLen - net.bits := by
  rw [hostBits, hnet]

theorem exists_parseIP_of_bare {s : Text} (hvalid : isIPOrCIDR s = true) (hbare : '/' ∉ s) :
    ∃ ip, parseIP s = some ip := by
  rw [isIPOrCIDR, if_neg hbare] at hvalid
  exact Option.isSome_iff_exists.mp hvalid

/-- A bare address of a rule list has a prefix that is that address alone, unless it is an IPv4 address written
inside IPv6: the prefix length of the short form then leaves 96 bits of the long one free. -/
theorem normalizeCIDR_exact_iff (m s : Text) (hclass : classify m = some (.ipCIDR, s)) (hbare : '/' ∉ s) :
    (∃ ip net, parseIP s = some ip ∧ parseCIDR (normalizeCIDR s) = some net ∧
        (∀ x, net.contains x = true ↔ x = ip) ∧ hostBits s = 0) ↔
      writtenMapped s = false := by
  obtain ⟨ip, hip⟩ := exists_parseIP_of_bare (isIPOrCIDR_of_classify hclass) hbare
  constructor
  · rintro ⟨-, -, -, -, -, hzero⟩
    by_contra hwritten
    obtain ⟨bits, rfl, hmapped⟩ := (writtenMapped_bare hbare hip).mp (Bool.not_eq_false _ ▸ hwritten)
    have hnet := parseCIDR_normalizeCIDR_bare hbare hip
    rw [hostBits_of_parseCIDR hnet] at hzero
    simp [IP.to4, IP.bitLen, hmapped] at hzero
  · intro hplain
    have hnet := parseCIDR_normalizeCIDR_unmapped hbare hip hplain
    refine ⟨ip, _, hip, hnet, Prefix.contains_bitLen ip, ?_⟩
    rw [hostBits_of_parseCIDR hnet, Nat.sub_self]

theorem normalizeCIDR_exact_iff_address :
    (∃ ip net, parseIP "2001:db8::1".toList = some ip ∧ parseCIDR (normalizeCIDR "2001:db8::1".toList) = some net ∧
        (∀ x, net.contains x = true ↔ x = ip) ∧ hostBits "2001:db8::1".toList = 0) ∧
      writtenMapped "2001:db8::1".toList = false := by
  have hplain : writtenMapped "2001:db8::1".toList = false := by decide
  exact ⟨(normalizeCIDR_exact_iff " 2001:db8::1 ".toList "2001:db8::1".toList (by decide) (by decide)).mpr hplain,
    hplain⟩

/-- `::ffff:10.1.2.3` stands for the whole of `::/32`, and ranks behind `10.0.0.0/8`. -/
theorem normalizeCIDR_mapped :
    classify "::ffff:10.1.2.3".toList = some (.ipCIDR, "::ffff:10.1.2.3".toList) ∧
      parseCIDR (normalizeCIDR "::ffff:10.1.2.3".toList) = some ⟨.v6 0xffff0a010203, 32⟩ ∧
      (Prefix.mk (.v6 0xffff0a010203) 32).contains (.v6 1) = true ∧
      hostBits "::ffff:10.1.2.3".toList = 96 ∧ hostBits "10.0.0.0/8".toList = 24 := by decide

theorem parseCIDR_bits_le {s : Text} {net : Prefix} (hnet : parseCIDR s = some net) : net.bits ≤ net.addr.bitLen := by
  unfold parseCIDR at hnet
  split at hnet
  · cases hnet
  · split at hnet
    · split at hnet
      next hn =>
        obtain rfl := Option.some.inj hnet
        exact hn
      · cases hnet
    · cases hnet

/-- The prefix an IP or CIDR outside the mapped form is compared by holds the addresses it names. -/
theorem exists_prefix_of_isIPOrCIDR {s : Text} (hvalid : isIPOrCIDR s = true) (hplain : writtenMapped s = false) :
    ∃ net, parseCIDR (normalizeCIDR s) = some net ∧ net.bits ≤ net.addr.bitLen ∧
      ∀ x, namesAddress s x = true ↔ net.contains x = true := by
  by_cases hslash : '/' ∈ s
  · have hnorm : normalizeCIDR s = s := by
      rw [normalizeCIDR, trimSpace_of_isIPOrCIDR hvalid, if_pos hslash]
    rw [isIPOrCIDR, if_pos hslash] at hvalid
    obtain ⟨net, hnet⟩ := Option.isSome_iff_exists.mp hvalid
    refine ⟨net, by rw [hnorm, hnet], parseCIDR_bits_le hnet, fun x => ?_⟩
    rw [namesAddress, if_pos hslash, hnet, Option.any_some]
  · obtain ⟨ip, hip⟩ := exists_parseIP_of_bare hvalid hslash
    refine ⟨_, parseCIDR_normalizeCIDR_unmapped hslash hip hplain, Nat.le_refl _, fun x => ?_⟩
    rw [namesAddress, if_neg hslash, hip, Prefix.contains_bitLen, beq_iff_eq, Option.some.injEq, eq_comm]

/-- The narrower of two nested networks leaves fewer bits free. -/
theorem hostBits_lt_of_ssubset {s t : Text} (hs : isIPOrCIDR s = true) (ht : isIPOrCIDR t = true)
    (hplain : writtenMapped s = false) (hplain' : writtenMapped t = false)
    (hsub : ∀ x, namesAddress s x = true → namesAddress t x = true) {y : IP} (hy : namesAddress t y = true)
    (hout : namesAddress s y ≠ true) : hostBits s < hostBits t := by
  obtain ⟨net, hnet, hle, hnames⟩ := exists_prefix_of_isIPOrCIDR hs hplain
  obtain ⟨net', hnet', -, hnames'⟩ := exists_prefix_of_isIPOrCIDR ht hplain'
  obtain ⟨hfamily, hbits⟩ := Prefix.bits_lt_of_ssubset (fun x hx => (hnames' x).mp (hsub x ((hnames x).mpr hx)))
    ((hnames' y).mp hy) (fun hcon => hout ((hnames y).mpr hcon))
  rw [hostBits_of_parseCIDR hnet, hostBits_of_parseCIDR hnet']
  omega

/-! ### Subdomains -/

/-- `s` is a label or more in front of `t`, whatever the case of either. -/
def IsSubdomain (s t : Text) : Prop := ∃ labels, toLower s = labels ++ '.' :: toLower t

theorem count_toLower_dot (s : Text) : (toLower s).count '.' = s.count '.' := by
  rw [toLower, List.count_eq_countP, List.countP_map, List.count_eq_countP]
  refine List.countP_congr fun c _ => ?_
  simp [toLowerRune_eq_iff (c := c) (d := '.') (by decide) (by decide)]

theorem count_dot_of_isSubdomain {s t : Text} (h : IsSubdomain s t) : t.count '.' < s.count '.' := by
  obtain ⟨labels, hlabels⟩ := h
  rw [← count_toLower_dot s, ← count_toLower_dot t, hlabels, List.count_append, List.count_cons_self]
  omega

/-! ### The order -/

/-- The matchers that classify, block before direct before proxy and each list in its own order. -/
def Tier.listed (t : Tier) : List Entry :=
  listEntries t.block .block ++ listEntries t.direct .direct ++ listEntries t.proxy .proxy

/-- App blocks, exact domains, domains, addresses, keywords and patterns, categories, other app entries. -/
def Entry.rank (e : Entry) : Nat :=
  match e.kind with
  | .process => if e.target = .block then 0 else 6
  | .domainFull => 1
  | .domainSuffix => 2
  | .ipCIDR => 3
  | .domainKeyword | .domainRegex => 4
  | .geoSite | .geoIP => 5

/-- More labels are narrower, and so are more bits fixed; inside another rank all entries are equal. -/
def Entry.breadth (e : Entry) : Int :=
  match e.kind with
  | .domainSuffix => -(e.value.count '.' : Int)
  | .ipCIDR => hostBits e.value
  | _ => 0

/-- `a` is to be met before `b`. -/
inductive Entry.Before (a b : Entry) : Prop where
  | rank (h : a.rank < b.rank)
  | subdomain (ha : a.kind = .domainSuffix) (hb : b.kind = .domainSuffix) (h : IsSubdomain a.value b.value)
  | inside (ha : a.kind = .ipCIDR) (hb : b.kind = .ipCIDR) (hplain : writtenMapped a.value = false)
      (hplain' : writtenMapped b.value = false)
      (hsub : ∀ x, namesAddress a.value x = true → namesAddress b.value x = true) (y : IP)
      (hy : namesAddress b.value y = true) (hout : namesAddress a.value y ≠ true)
  | outcome (hrank : a.rank = b.rank) (hbreadth : a.breadth = b.breadth)
      (h : a.target.outcomeRank < b.target.outcomeRank)

/-- Equal in all that the order looks at. -/
def Entry.ties (a b : Entry) : Bool := a.rank = b.rank ∧ a.breadth = b.breadth ∧ a.target = b.target

/-- The section of the key a rank is in, and its place there. -/
def rankPlace : Nat → Int × Int
  | 0 => (0, 0)
  | 1 => (1, 0)
  | 2 => (1, 1)
  | 3 => (1, 2)
  | 4 => (1, 3)
  | 5 => (1, 4)
  | _ => (2, 0)

theorem rankPlace_lt : ∀ n < 7, ∀ m < 7,
    ((rankPlace n).1 < (rankPlace m).1 ∨ (rankPlace n).1 = (rankPlace m).1 ∧ (rankPlace n).2 < (rankPlace m).2) ↔
      n < m := by decide

theorem rankPlace_eq : ∀ n < 7, ∀ m < 7,
    ((rankPlace n).1 = (rankPlace m).1 ∧ (rankPlace n).2 = (rankPlace m).2) ↔ n = m := by decide

theorem Entry.rank_lt (e : Entry) : e.rank < 7 := by
  unfold Entry.rank
  split
  · split <;> omega
  all_goals omega

theorem Entry.evaluationKey_ranked (e : Entry) :
    e.evaluationKey = [(rankPlace e.rank).1, (rankPlace e.rank).2, e.breadth, e.target.outcomeRank] := by
  obtain ⟨kind, value, target⟩ := e
  cases kind <;> cases target <;> rfl

/-- The four numbers compare as rank, breadth and outcome do. -/
theorem Entry.evaluationKey_lt_iff (a b : Entry) :
    a.evaluationKey < b.evaluationKey ↔
      a.rank < b.rank ∨ a.rank = b.rank ∧
        (a.breadth < b.breadth ∨ a.breadth = b.breadth ∧ a.target.outcomeRank < b.target.outcomeRank) := by
  rw [a.evaluationKey_ranked, b.evaluationKey_ranked]
  simp only [List.cons_lt_cons_iff, List.lt_irrefl, and_false, or_false]
  rw [← rankPlace_lt _ a.rank_lt _ b.rank_lt, ← rankPlace_eq _ a.rank_lt _ b.rank_lt]
  tauto

theorem Target.outcomeRank_injective : Function.Injective Target.outcomeRank := by
  intro a b h
  cases a <;> cases b <;> first | rfl | simp [Target.outcomeRank] at h

theorem Entry.ties_iff {a b : Entry} : a.ties b = true ↔ a.evaluationKey = b.evaluationKey := by
  rw [a.evaluationKey_ranked, b.evaluationKey_ranked]
  simp only [Entry.ties, Bool.decide_and, Bool.and_eq_true, decide_eq_true_eq, List.cons.injEq, and_true]
  rw [← rankPlace_eq _ a.rank_lt _ b.rank_lt, Target.outcomeRank_injective.eq_iff]
  tauto

theorem Entry.Before.evaluationKey_lt {a b : Entry} (ha : a.kind = .ipCIDR → isIPOrCIDR a.value = true)
    (hb : b.kind = .ipCIDR → isIPOrCIDR b.value = true) (h : a.Before b) : a.evaluationKey < b.evaluationKey := by
  rw [Entry.evaluationKey_lt_iff]
  cases h with
  | rank hrank => exact .inl hrank
  | subdomain hkind hkind' hsub =>
      have hdots := count_dot_of_isSubdomain hsub
      refine .inr ⟨by simp [Entry.rank, hkind, hkind'], .inl ?_⟩
      simp only [Entry.breadth, hkind, hkind']
      omega
  | inside hkind hkind' hplain hplain' hsub y hy hout =>
      have hbits := hostBits_lt_of_ssubset (ha hkind) (hb hkind') hplain hplain' hsub hy hout
      refine .inr ⟨by simp [Entry.rank, hkind, hkind'], .inl ?_⟩
      simp only [Entry.breadth, hkind, hkind']
      omega
  | outcome hrank hbreadth houtcome => exact .inr ⟨hrank, .inr ⟨hbreadth, houtcome⟩⟩

/-- Elements the order cannot tell apart stay as they were. -/
theorem filter_insertionSort {α : Type} (r : α → α → Prop) [DecidableRel r] (l : List α) (p : α → Bool)
    (hp : ∀ a b, p a = true → p b = true → r a b) : (l.insertionSort r).filter p = l.filter p := by
  have hsub : (l.filter p).Sublist (l.insertionSort r) := by
    refine List.sublist_insertionSort ?_ List.filter_sublist
    exact List.pairwise_of_forall_mem_list fun a ha b hb => hp a b (List.mem_filter.mp ha).2 (List.mem_filter.mp hb).2
  have hfilter := hsub.filter p
  rw [List.filter_filter] at hfilter
  simp only [Bool.and_self] at hfilter
  refine (hfilter.eq_of_length ?_).symm
  rw [← List.countP_eq_length_filter, ← List.countP_eq_length_filter]
  exact ((List.perm_insertionSort r l).countP_eq p).symm

theorem Tier.isIPOrCIDR_of_mem {t : Tier} {e : Entry} (he : e ∈ t.entries) (hkind : e.kind = .ipCIDR) :
    isIPOrCIDR e.value = true := by
  obtain ⟨m, -, hclass⟩ := t.exists_matcher he
  exact isIPOrCIDR_of_classify (hkind ▸ hclass)

/-- The entries of a tier are the matchers that classify; none stands behind one it is to be met before; and those
that tie keep the order they were listed in. -/
theorem Tier.entries_specific (t : Tier) :
    t.entries.Perm t.listed ∧ t.entries.Pairwise (fun a b => ¬b.Before a) ∧
      ∀ e : Entry, t.entries.filter e.ties = t.listed.filter e.ties := by
  refine ⟨List.perm_insertionSort _ _, ?_, fun e => ?_⟩
  · refine t.entries_sorted.imp_of_mem fun {a b} ha hb hle hbefore => ?_
    exact not_lt_of_ge hle (hbefore.evaluationKey_lt (t.isIPOrCIDR_of_mem hb) (t.isIPOrCIDR_of_mem ha))
  · refine filter_insertionSort _ _ _ fun a b ha hb => ?_
    exact le_of_eq ((Entry.ties_iff.mp ha).symm.trans (Entry.ties_iff.mp hb))

example : (Tier.mk ["geosite:ads".toList, "process:x".toList] ["domain:ru".toList, "10.0.0.0/8".toList]
    ["a.ru".toList, "10.1.0.0/16".toList, "process:y".toList]).entries.map Entry.value
      = ["x", "a.ru", "ru", "10.1.0.0/16", "10.0.0.0/8", "ads", "y"].map String.toList := by decide

end GlitchCore
