import GlitchCore.Xray.Build

/-!
# The final rules of a direct outbound

The router sends a name direct by the addresses it resolved; the outbound resolves the name again and dials only
what its final rules allow. `directFinalRules` writes the tier's address entries down for it, cut behind the last
direct one and with neighbours of one action merged. First match over what it writes is first match over the tier's
address entries. The tiers in front are not written down, so an address that one of them takes elsewhere is allowed
all the same.
-/

namespace GlitchCore.Xray

open GoText NetAddr FirstMatch

variable (geoIP : Text → IP → Bool)

/-! ### How an address is matched -/

def entryTakesAddress (x : IP) (e : Entry) : Bool :=
  match e.kind with
  | .ipCIDR => inCIDR e.value x
  | .geoIP => geoIP e.value x
  | _ => false

/-- The same of a matcher text, as xray reads it back. -/
def textTakesAddress (x : IP) (text : Text) : Bool :=
  match readIP text with
  | .entry .ipCIDR value => inCIDR value x
  | .entry .geoIP value => geoIP value x
  | _ => false

/-- A rule without addresses takes every one. -/
def FreedomFinalRule.takes (x : IP) (r : FreedomFinalRule) : Bool := r.ip == [] || r.ip.any (textTakesAddress geoIP x)

/-- Whether the rule allows the address; nothing of one it does not take. -/
def FreedomFinalRule.verdict (x : IP) (r : FreedomFinalRule) : Option Bool :=
  if r.takes geoIP x then some (r.action == "allow".toList) else none

def finalVerdict (x : IP) (rules : List FreedomFinalRule) : Option Bool := rules.findSome? (·.verdict geoIP x)

def Outbound.allows (x : IP) (ob : Outbound) : Bool := finalVerdict geoIP x ob.finalRules == some true

/-- Where the first address entry that takes the address sends it. -/
def firstAddress (x : IP) (entries : List Entry) : Option Target :=
  entries.findSome? fun e => if e.byAddress && entryTakesAddress geoIP x e then some e.target else none

variable {geoIP} {x : IP}

theorem readIP_xrayMatcher {t : Tier} {e : Entry} (he : e ∈ t.entries) (haddress : e.byAddress = true) :
    readIP (xrayMatcher e) = .entry e.kind e.value := by
  obtain ⟨m, -, hclass⟩ := t.exists_matcher he
  obtain ⟨kind, value, target⟩ := e
  cases kind with
  | geoIP => rfl
  | ipCIDR => exact readIP_address (isIPOrCIDR_of_classify hclass)
  | domainSuffix | domainFull | domainKeyword | domainRegex | geoSite | process => simp [Entry.byAddress] at haddress

theorem textTakesAddress_xrayMatcher {t : Tier} {e : Entry} (he : e ∈ t.entries) (haddress : e.byAddress = true) :
    textTakesAddress geoIP x (xrayMatcher e) = entryTakesAddress geoIP x e := by
  rw [textTakesAddress, readIP_xrayMatcher he haddress]
  unfold entryTakesAddress
  cases e.kind <;> rfl

/-! ### Rules merged in place -/

def finalAction (e : Entry) : Text := if isDirectAddress e then "allow".toList else "block".toList

theorem finalAction_allow (e : Entry) : (finalAction e == "allow".toList) = isDirectAddress e := by
  unfold finalAction
  cases isDirectAddress e <;> decide

theorem addFinalRule_nil (e : Entry) : addFinalRule [] e = [⟨finalAction e, [xrayMatcher e], none⟩] := rfl

theorem addFinalRule_concat (front : List FreedomFinalRule) (last : FreedomFinalRule) (e : Entry) :
    addFinalRule (front ++ [last]) e
      = if last.action = finalAction e then front ++ [{ last with ip := last.ip ++ [xrayMatcher e] }]
        else front ++ [last] ++ [⟨finalAction e, [xrayMatcher e], none⟩] := by
  simp only [addFinalRule, List.getLast?_append, List.getLast?_singleton, Option.some_or, List.dropLast_concat]
  rfl

/-- Every rule names an address, so none takes what its entries do not. -/
def AllNamed (rules : List FreedomFinalRule) : Prop := ∀ r ∈ rules, r.ip ≠ []

theorem AllNamed.addFinalRule {rules : List FreedomFinalRule} (h : AllNamed rules) (e : Entry) :
    AllNamed (addFinalRule rules e) := by
  rcases List.eq_nil_or_concat' rules with rfl | ⟨front, last, rfl⟩
  · simp [AllNamed, addFinalRule_nil]
  · rw [addFinalRule_concat]
    intro r hr
    split at hr
    · rcases List.mem_append.mp hr with hr | hr
      · exact h r (by simp [hr])
      · rw [List.mem_singleton.mp hr]
        simp
    · rcases List.mem_append.mp hr with hr | hr
      · exact h r hr
      · rw [List.mem_singleton.mp hr]
        simp

/-- What one entry says of the address. -/
def entryVerdict (geoIP : Text → IP → Bool) (x : IP) (e : Entry) : Option Bool :=
  if textTakesAddress geoIP x (xrayMatcher e) then some (isDirectAddress e) else none

theorem finalVerdict_concat (rules : List FreedomFinalRule) (r : FreedomFinalRule) :
    finalVerdict geoIP x (rules ++ [r]) = (finalVerdict geoIP x rules).or (r.verdict geoIP x) := by
  rw [finalVerdict, List.findSome?_append, List.findSome?_singleton]
  rfl

theorem verdict_new (e : Entry) :
    FreedomFinalRule.verdict geoIP x ⟨finalAction e, [xrayMatcher e], none⟩ = entryVerdict geoIP x e := by
  rw [FreedomFinalRule.verdict, finalAction_allow, FreedomFinalRule.takes, entryVerdict]
  simp only [List.any_cons, List.any_nil, Bool.or_false, reduceCtorEq, beq_iff_eq, Bool.or_eq_true, false_or]

theorem verdict_merged {r : FreedomFinalRule} (hr : r.ip ≠ []) {e : Entry} (hsame : r.action = finalAction e) :
    FreedomFinalRule.verdict geoIP x { r with ip := r.ip ++ [xrayMatcher e] }
      = (r.verdict geoIP x).or (entryVerdict geoIP x e) := by
  have hbare : (r.ip == []) = false := by simpa using hr
  have happend : (r.ip ++ [xrayMatcher e] == []) = false := by simp
  simp only [FreedomFinalRule.verdict, entryVerdict, FreedomFinalRule.takes, hsame, finalAction_allow, hbare, happend,
    Bool.false_or, List.any_append, List.any_cons, List.any_nil, Bool.or_false]
  cases r.ip.any (textTakesAddress geoIP x) <;> cases textTakesAddress geoIP x (xrayMatcher e) <;> rfl

/-- One round: the rules say what they said, and where they said nothing the entry does. -/
theorem finalVerdict_addFinalRule {rules : List FreedomFinalRule} (h : AllNamed rules) (e : Entry) :
    finalVerdict geoIP x (addFinalRule rules e) = (finalVerdict geoIP x rules).or (entryVerdict geoIP x e) := by
  rcases List.eq_nil_or_concat' rules with rfl | ⟨front, last, rfl⟩
  · rw [addFinalRule_nil, ← List.nil_append [_], finalVerdict_concat, verdict_new]
  · rw [addFinalRule_concat]
    split
    next hsame =>
      rw [finalVerdict_concat, finalVerdict_concat, verdict_merged (h last (by simp)) hsame, Option.or_assoc]
    · rw [finalVerdict_concat, verdict_new]

theorem finalVerdict_foldl (entries : List Entry) {rules : List FreedomFinalRule} (h : AllNamed rules) :
    finalVerdict geoIP x (entries.foldl addFinalRule rules)
      = (finalVerdict geoIP x rules).or (entries.findSome? (entryVerdict geoIP x)) := by
  induction entries generalizing rules with
  | nil => simp
  | cons e entries ih =>
      rw [List.foldl_cons, ih (h.addFinalRule e), finalVerdict_addFinalRule h, Option.or_assoc, List.findSome?_cons]
      cases entryVerdict geoIP x e <;> rfl

/-! ### The tier's own direct outbound -/

theorem finalVerdict_tierDirectOutbound (p : Profile) (tag : Text) (entries : List Entry) :
    finalVerdict geoIP x (tierDirectOutbound p tag (directFinalRules entries)).finalRules
      = (((entries.filter Entry.byAddress).rdropWhile fun e => !isDirectAddress e).findSome?
          (entryVerdict geoIP x)).or (some false) := by
  have hclosing : FreedomFinalRule.verdict geoIP x ⟨"block".toList, [], some 0⟩ = some false := rfl
  show finalVerdict geoIP x (directFinalRules entries ++ [⟨"block".toList, [], some 0⟩]) = _
  rw [finalVerdict_concat, hclosing, directFinalRules, finalVerdict_foldl _ (by simp [AllNamed])]
  rfl

/-- The entries behind the last direct one allow nothing, and neither does the rule that closes the list. -/
theorem finalVerdict_allows_iff (p : Profile) (tag : Text) (entries : List Entry) :
    finalVerdict geoIP x (tierDirectOutbound p tag (directFinalRules entries)).finalRules = some true ↔
      (entries.filter Entry.byAddress).findSome? (entryVerdict geoIP x) = some true := by
  rw [finalVerdict_tierDirectOutbound]
  generalize entries.filter Entry.byAddress = addresses
  have hrest : (addresses.rtakeWhile fun e => !isDirectAddress e).findSome? (entryVerdict geoIP x) ≠ some true := by
    intro hcon
    obtain ⟨e, he, hverdict⟩ := List.exists_of_findSome?_eq_some hcon
    have hdirect := List.mem_rtakeWhile_imp he
    unfold entryVerdict at hverdict
    split at hverdict
    · simp [Option.some.inj hverdict] at hdirect
    · cases hverdict
  conv_rhs => rw [← List.rdropWhile_append_rtakeWhile (p := fun e => !isDirectAddress e) (l := addresses),
    List.findSome?_append]
  cases (addresses.rdropWhile fun e => !isDirectAddress e).findSome? (entryVerdict geoIP x) with
  | none => simpa using hrest
  | some b => simp

theorem findSome?_entryVerdict {t : Tier} (entries : List Entry) (hentries : ∀ e ∈ entries, e ∈ t.entries) :
    (entries.filter Entry.byAddress).findSome? (entryVerdict geoIP x)
      = (firstAddress geoIP x entries).map (· == .direct) := by
  induction entries with
  | nil => rfl
  | cons e entries ih =>
      have ih := ih fun e' he' => hentries e' (by simp [he'])
      cases haddress : e.byAddress with
      | false =>
          rw [List.filter_cons_of_neg (by simp [haddress]), ih, firstAddress, firstAddress, List.findSome?_cons]
          simp [haddress]
      | true =>
          have htext : textTakesAddress geoIP x (xrayMatcher e) = entryTakesAddress geoIP x e :=
            textTakesAddress_xrayMatcher (hentries e (by simp)) haddress
          rw [List.filter_cons_of_pos haddress, List.findSome?_cons, ih, entryVerdict, htext, firstAddress,
            firstAddress, List.findSome?_cons]
          simp only [haddress, Bool.true_and, isDirectAddress, Bool.and_true]
          cases entryTakesAddress geoIP x e <;> rfl

/-- First match over the final rules of a tier's direct outbound, the closing block included, is first match over
the tier's address entries. -/
theorem allows_iff_firstAddress (geoIP : Text → IP → Bool) (p : Profile) (t : Tier) (tag : Text) (x : IP) :
    (tierDirectOutbound p tag (directFinalRules t.entries)).allows geoIP x = true ↔
      firstAddress geoIP x t.entries = some .direct := by
  rw [Outbound.allows, beq_iff_eq, finalVerdict_allows_iff, findSome?_entryVerdict t.entries fun _ => id]
  simp [Option.map_eq_some_iff]

theorem mem_ensureIf {c : Prop} [Decidable c] {cfg : Config} {added ob : Outbound}
    (h : ob ∈ (if c then ensureOutbound cfg added else cfg).outboundConfigs) : ob ∈ cfg.outboundConfigs ∨ ob = added := by
  unfold ensureOutbound at h
  split_ifs at h
  · exact .inl h
  · exact (List.mem_append.mp h).imp_right List.mem_singleton.mp
  · exact .inl h

theorem mem_foldl_ensureTierDirect {p : Profile} {ob : Outbound} (tiers : List (Tier × Nat)) {cfg : Config}
    (h : ob ∈ (tiers.foldl (ensureTierDirect p) cfg).outboundConfigs) :
    ob ∈ cfg.outboundConfigs ∨
      ∃ tier ∈ tiers, ob = tierDirectOutbound p (tierDirectTag tier.2) (directFinalRules tier.1.entries) := by
  induction tiers generalizing cfg with
  | nil => exact .inl h
  | cons tier tiers ih =>
      obtain hmem | ⟨tier', htier, hob⟩ := ih h
      · exact (mem_ensureIf hmem).imp_right fun hob => ⟨tier, by simp, hob⟩
      · exact .inr ⟨tier', by simp [htier], hob⟩

/-- What the config holds under the tag of a tier is written from that tier, unless it held the tag already. -/
theorem tierDirect_of_tag {p : Profile} {cfg : Config} {proxyTag : Text} {isBalancer : Bool} {ob : Outbound} {i : Nat}
    (hmem : ob ∈ (applyRouting p cfg proxyTag isBalancer).outboundConfigs) (htag : ob.tag = tierDirectTag i)
    (hfresh : hasOutbound cfg (tierDirectTag i) = false) : ∃ t, (t, i) ∈ p.tiers.zipIdx ∧
      ob = tierDirectOutbound p (tierDirectTag i) (directFinalRules t.entries) := by
  have hlength : ∀ i, directTag.length < (tierDirectTag i).length := fun i => by simp [tierDirectTag]
  obtain hmem | ⟨⟨t, j⟩, htier, rfl⟩ := mem_foldl_ensureTierDirect p.tiers.zipIdx hmem
  · obtain hmem | rfl := mem_ensureIf hmem
    · obtain hmem | rfl := mem_ensureIf hmem
      · rw [← htag] at hfresh
        exact absurd (hasOutbound_iff.mpr (List.mem_map_of_mem hmem)) (by rw [hfresh]; exact Bool.false_ne_true)
      · exact absurd (congrArg List.length htag) (hlength i).ne
    · exact absurd (congrArg List.head? htag) (by simp [tierDirectTag, directTag, blockTag])
  · obtain rfl : j = i := itoa_injective (List.append_cancel_left htag)
    exact ⟨t, htier, rfl⟩

/-! ### The tiers in front -/

theorem firstAddress_append (a b : List Entry) :
    firstAddress geoIP x (a ++ b) = (firstAddress geoIP x a).or (firstAddress geoIP x b) := List.findSome?_append

/-- The address entries of the tiers up to the `n`-th, in the order they are met. -/
def entriesBefore (p : Profile) (n : Nat) : List Entry := (p.tiers.take n).flatMap Tier.entries

theorem entriesBefore_succ {p : Profile} {t : Tier} {i : Nat} (ht : (t, i) ∈ p.tiers.zipIdx) :
    entriesBefore p (i + 1) = entriesBefore p i ++ t.entries := by
  have hget : p.tiers[i]? = some t := List.mk_mem_zipIdx_iff_getElem?.mp ht
  rw [entriesBefore, List.take_add_one, hget, List.flatMap_append]
  simp [entriesBefore]

/-- An address that the outbound the config holds for a tier allows is one the tiers up to it send direct exactly when no
tier in front takes it elsewhere: the final rules are written from the tier alone. -/
theorem allowed_direct_iff (geoIP : Text → IP → Bool) (p : Profile) (cfg : Config) (proxyTag : Text) (isBalancer : Bool)
    (ob : Outbound) (hob : ob ∈ (applyRouting p cfg proxyTag isBalancer).outboundConfigs) (i : Nat)
    (htag : ob.tag = tierDirectTag i) (hfresh : hasOutbound cfg (tierDirectTag i) = false) (x : IP)
    (hallowed : ob.allows geoIP x = true) :
    firstAddress geoIP x (entriesBefore p (i + 1)) = some .direct ↔
      ∀ target, firstAddress geoIP x (entriesBefore p i) = some target → target = .direct := by
  obtain ⟨t, ht, rfl⟩ := tierDirect_of_tag hob htag hfresh
  rw [entriesBefore_succ ht, firstAddress_append, (allows_iff_firstAddress geoIP p t _ x).mp hallowed]
  cases firstAddress geoIP x (entriesBefore p i) with
  | none => simp
  | some target => simp

/-- A tier that blocks the private network in front of one that sends every IPv4 address direct. -/
def shadowedProfile : Profile where
  mode := "proxy-all".toList
  tiers := [⟨["10.0.0.0/8".toList], [], []⟩, ⟨[], ["0.0.0.0/0".toList], []⟩]
  domainStrategy := []
  localNetworks := false
  directSendThrough := []
  directInterface := []
  disableIPv6 := false
  disableUDP := false

def shadowedConfig : Config := applyRouting shadowedProfile ⟨[⟨"trojan".toList, outboundTag, none, [], []⟩], none⟩ outboundTag false

/-- The outbound of the second tier, as the config has it. -/
def shadowedDirect : Outbound where
  protocol := "freedom".toList
  tag := "direct-1".toList
  finalRules := [⟨"allow".toList, ["0.0.0.0/0".toList], none⟩, ⟨"block".toList, [], some 0⟩]

theorem allowed_direct_iff_public :
    firstAddress (fun _ _ => false) (.v4 0x08080808) (entriesBefore shadowedProfile 2) = some .direct ∧
      firstAddress (fun _ _ => false) (.v4 0x08080808) (entriesBefore shadowedProfile 1) = none :=
  ⟨(allowed_direct_iff (fun _ _ => false) shadowedProfile _ outboundTag false shadowedDirect
    (by decide : shadowedDirect ∈ shadowedConfig.outboundConfigs) 1 (by decide) (by decide) (.v4 0x08080808)
    (by decide)).mpr (by decide), by decide⟩

theorem shadowed_address_allowed :
    shadowedDirect ∈ shadowedConfig.outboundConfigs ∧ shadowedDirect.tag = tierDirectTag 1 ∧
      shadowedDirect.allows (fun _ _ => false) (.v4 0x0a010203) = true ∧
      firstAddress (fun _ _ => false) (.v4 0x0a010203) (entriesBefore shadowedProfile 2) = some .block := by decide

end GlitchCore.Xray
