import GlitchCore.Base.Fallible
import GlitchCore.Base.JsonStruct
import GlitchCore.Routing.Tier

/-!
# Routing options

A start carries its rules as the text of a JSON array of tiers. `routingFromOpts` reads it with a streaming decoder
that refuses unknown keys, asks whether anything follows, and refuses `null`. The decoder answers that question for
the inside of an array, so a closing bracket counts as nothing; and the lists of a key that an object repeats are read
into one slice, so that of the earlier ones only stays what a `null` of the last one keeps.
-/

namespace GlitchCore.Core.RoutingOpts

open GoText JsonDecode GoJson

/-! ### The options -/

/-- The options of a start, by their keys. -/
abbrev Opts := Text → Option Text

def boolOpt (s : Text) : Bool :=
  toLower (trimSpace s) ∈ ["1".toList, "true".toList, "yes".toList, "on".toList]

/-- Rule keys the core does not read. -/
def legacyRuleKeys : List Text := ["proxyRules", "directRules", "blockRules", "bypassCountries"].map String.toList

inductive OptsError where
  | legacyKey (key : Text)
  | decode
  | trailingData
  | notAList
  | invalid (e : ValidateError)
deriving DecidableEq, Repr

/-! ### Decoding -/

def fieldName : Target → Text
  | .block => "block".toList
  | .direct => "direct".toList
  | .proxy => "proxy".toList

/-- The key names the field of this outcome: names are compared without regard to case. -/
def names (target : Target) (key : Text) : Bool := equalFold key (fieldName target)

def emptyTier : Tier := ⟨[], [], []⟩

def listOf (t : Tier) : Target → List Text
  | .block => t.block
  | .direct => t.direct
  | .proxy => t.proxy

/-- A key of no field is an error. -/
def decodeTier : Json → Option Tier
  | .object ms =>
      if ms.all fun e => names .block e.1 || names .direct e.1 || names .proxy e.1 then do
        return {
          block := (← readField readTexts {} (fieldName .block) ms).items
          direct := (← readField readTexts {} (fieldName .direct) ms).items
          proxy := (← readField readTexts {} (fieldName .proxy) ms).items }
      else none
  | .null => some emptyTier
  | _ => none

/-- The tiers of a value, none for `null`. -/
def decodeTiers : Json → Option (Option (List Tier))
  | .array items => (items.mapM decodeTier).map some
  | .null => some none
  | _ => none

def tiersText (opts : Opts) : Text := trimSpace ((opts "routingTiers".toList).getD [])

def readTiers (raw : Text) : Except OptsError (List Tier) :=
  match (JsonDecode.decode raw).bind fun part => (decodeTiers part.1).map fun tiers => (tiers, part.2) with
  | none => .error .decode
  | some (tiers, rest) =>
      if more rest then .error .trailingData
      else match tiers with
        | none => .error .notAList
        | some tiers => .ok tiers

def routingFromOpts (opts : Opts) : Except OptsError Profile :=
  match legacyRuleKeys.find? fun key => (opts key).isSome with
  | some key => .error (.legacyKey key)
  | none =>
      let p : Profile :=
        { mode := (opts "routingMode".toList).getD []
          tiers := []
          domainStrategy := trimSpace ((opts "domainStrategy".toList).getD [])
          localNetworks := boolOpt ((opts "localNetworksDirect".toList).getD [])
          directSendThrough := []
          directInterface := []
          disableIPv6 := boolOpt ((opts "disableIPv6".toList).getD [])
          disableUDP := boolOpt ((opts "disableUDP".toList).getD []) }
      if tiersText opts = [] then .ok p
      else match readTiers (tiersText opts) with
        | .error e => .error e
        | .ok tiers =>
            match ({ p with tiers } : Profile).validate with
            | some e => .error (.invalid e)
            | none => .ok { p with tiers }

/-! ### The lists of a value -/

/-- The matchers a value lists. -/
def strings : Json → List Text
  | .array items => items.filterMap stringOf
  | _ => []

theorem holds_of_mem_strings {v : Json} {m : Text} (hm : m ∈ strings v) : Holds m v := by
  cases v with
  | array items =>
      obtain ⟨x, hx, hxm⟩ := List.mem_filterMap.mp hm
      cases x with
      | string s =>
          obtain rfl := Option.some.inj hxm
          exact .item hx .here
      | null | bool | number | array | object => cases hxm
  | null | bool | number | string | object => cases hm

theorem kinds_of_readTexts {old new : Slice} {items : List Json} (h : readTexts old (.array items) = some new) :
    ∀ v ∈ items, v = .null ∨ ∃ s, v = .string s := by
  cases items with
  | nil => exact List.forall_mem_nil _
  | cons v items => exact (readItems_spec h).2.1

/-- A list that is read holds the matchers it lists and nothing else. -/
theorem mem_strings_of_holds {v : Json} {old new : Slice} (h : readTexts old v = some new) {m : Text} (hm : Holds m v) :
    m ∈ strings v := by
  cases v with
  | array items =>
      rcases hm with _ | @⟨x, _, hx, hm⟩
      obtain rfl | ⟨s, rfl⟩ := kinds_of_readTexts h x hx
      · cases hm
      · cases hm
        exact List.mem_filterMap.mpr ⟨.string m, hx, rfl⟩
  | null => cases hm
  | bool | number | string | object => cases h

theorem not_under_of_readTexts {v : Json} {old new : Slice} (h : readTexts old v = some new) (p : Text → Bool) (m : Text) :
    ¬ Under p m v := by
  intro hunder
  cases v with
  | array items =>
      rcases hunder with _ | @⟨x, _, hx, hm⟩ | _
      obtain rfl | ⟨s, rfl⟩ := kinds_of_readTexts h x hx <;> cases hm
  | null => cases hunder
  | bool | number | string | object => cases h

/-! ### Lists read one after another -/

/-- What stands at place `i` when the lists `vs` of one key have been read: the text of the last list that has one there,
since the last list without an entry. -/
def heldAt (i : Nat) (vs : List Json) : Text :=
  vs.foldl (fun held v => match v with
    | .array (x :: xs) => ((x :: xs)[i]?.bind stringOf).getD held
    | _ => []) []

/-- A `null` of the last list keeps what the lists before left at its place. -/
def Lists (m : Text) (front : List Json) (last : Json) : Prop :=
  m ∈ strings last ∨ ∃ items i, last = .array items ∧ items[i]? = some .null ∧ heldAt i front = m

theorem heldAt_readTexts {old new : Slice} {front : List Json} {v : Json} (h : readTexts old v = some new)
    (hold : ∀ i, (old.items ++ old.behind).getD i [] = heldAt i front) (i : Nat) :
    (new.items ++ new.behind).getD i [] = heldAt i (front ++ [v]) := by
  rw [heldAt, List.foldl_append, List.foldl_cons, List.foldl_nil]
  cases v with
  | array items =>
      cases items with
      | nil =>
          cases h
          rfl
      | cons x xs => rw [(readItems_spec h).2.2 i, hold i, heldAt]
  | null =>
      cases h
      rfl
  | bool | number | string | object => cases h

/-- The elements of a list that is read: its texts, and at each `null` what was there. -/
theorem mem_items_readTexts {old new : Slice} {front : List Json} {v : Json} (h : readTexts old v = some new)
    (hold : ∀ i, (old.items ++ old.behind).getD i [] = heldAt i front) (m : Text) :
    m ∈ new.items ↔ Lists m front v := by
  cases v with
  | array items =>
      cases items with
      | nil =>
          cases h
          simp [Lists, strings]
      | cons x xs =>
          obtain ⟨hlength, hkinds, hplaces⟩ := readItems_spec h
          have hplace : ∀ i v, (x :: xs)[i]? = some v → new.items[i]? = some ((stringOf v).getD (heldAt i front)) := by
            intro i v hv
            obtain ⟨hi, -⟩ := List.getElem?_eq_some_iff.mp hv
            have hat := hplaces i
            rw [hv, hold, List.getD_eq_getElem?_getD, List.getElem?_append_left (hlength ▸ hi),
              List.getElem?_eq_getElem (hlength ▸ hi)] at hat
            rw [List.getElem?_eq_getElem (hlength ▸ hi)]
            exact congrArg some hat
          constructor
          · intro hm
            obtain ⟨i, hi, rfl⟩ := List.mem_iff_getElem.mp hm
            have hv := List.getElem?_eq_getElem (hlength ▸ hi)
            have hitem := hplace i _ hv
            rw [List.getElem?_eq_getElem hi] at hitem
            obtain hnull | ⟨s, hs⟩ := hkinds _ (List.mem_of_getElem? hv)
            · rw [hnull] at hv hitem
              exact .inr ⟨_, i, rfl, hv, (Option.some.inj hitem).symm⟩
            · rw [hs] at hv hitem
              exact .inl (List.mem_filterMap.mpr ⟨_, List.mem_of_getElem? hv, hitem.symm⟩)
          · rintro (hm | ⟨items, i, heq, hnull, rfl⟩)
            · obtain ⟨v, hv, hs⟩ := List.mem_filterMap.mp hm
              obtain ⟨i, hi⟩ := List.mem_iff_getElem?.mp hv
              refine List.mem_of_getElem? (i := i) ?_
              rw [hplace i v hi, hs]
              rfl
            · cases heq
              exact List.mem_of_getElem? (hplace i _ hnull)
  | null =>
      cases h
      simp [Lists, strings]
  | bool | number | string | object => cases h

theorem foldlM_readTexts {vs : List Json} {new : Slice} (h : vs.foldlM readTexts {} = some new) :
    (∀ v ∈ vs, ∃ old new, readTexts old v = some new) ∧ (∀ i, (new.items ++ new.behind).getD i [] = heldAt i vs) ∧
      ∀ m, m ∈ new.items ↔ ∃ front last, vs = front ++ [last] ∧ Lists m front last := by
  induction vs using List.reverseRecOn generalizing new with
  | nil =>
      cases h
      exact ⟨List.forall_mem_nil _, fun i => rfl, by simp⟩
  | append_singleton front v ih =>
      rw [List.foldlM_append] at h
      obtain ⟨old, hold, hlast⟩ := Option.bind_eq_some_iff.mp h
      rw [List.foldlM_cons] at hlast
      obtain ⟨new', hread, hdone⟩ := Option.bind_eq_some_iff.mp hlast
      obtain rfl : new' = new := Option.some.inj hdone
      obtain ⟨hreads, hheld, -⟩ := ih hold
      refine ⟨List.forall_mem_append.mpr ⟨hreads, List.forall_mem_singleton.mpr ⟨old, _, hread⟩⟩,
        heldAt_readTexts hread hheld, fun m => ?_⟩
      have hone : (∃ front' last, front ++ [v] = front' ++ [last] ∧ Lists m front' last) ↔ Lists m front v := by
        constructor
        · rintro ⟨front', last, heq, hlists⟩
          obtain ⟨rfl, hlast⟩ := List.append_inj' heq rfl
          exact List.singleton_inj.mp hlast ▸ hlists
        · exact fun hlists => ⟨front, v, rfl, hlists⟩
      rw [hone]
      exact mem_items_readTexts hread hheld m

/-! ### The tier of an object -/

theorem fieldValues_eq (target : Target) (ms : List (Text × Json)) :
    fieldValues (fieldName target) ms = (ms.filter fun e => names target e.1).map (·.2) := by
  cases target <;> rfl

theorem decodeTier_object {ms : List (Text × Json)} {t : Tier} (h : decodeTier (.object ms) = some t) :
    (∀ e ∈ ms, ∃ target, names target e.1 = true) ∧
      ∀ target, ∃ new, (fieldValues (fieldName target) ms).foldlM readTexts {} = some new ∧ listOf t target = new.items := by
  obtain ⟨hknown, h⟩ := Option.ite_none_right_eq_some.mp h
  obtain ⟨block, hblock, h⟩ := Option.bind_eq_some_iff.mp h
  obtain ⟨direct, hdirect, h⟩ := Option.bind_eq_some_iff.mp h
  obtain ⟨proxy, hproxy, h⟩ := Option.bind_eq_some_iff.mp h
  cases h
  refine ⟨fun e he => ?_, fun target => ?_⟩
  · have hkey := List.all_eq_true.mp hknown e he
    simp only [Bool.or_eq_true] at hkey
    obtain (hkey | hkey) | hkey := hkey
    · exact ⟨_, hkey⟩
    · exact ⟨_, hkey⟩
    · exact ⟨_, hkey⟩
  · cases target with
    | block => exact ⟨block, hblock, rfl⟩
    | direct => exact ⟨direct, hdirect, rfl⟩
    | proxy => exact ⟨proxy, hproxy, rfl⟩

theorem reads_of_decodeTier {ms : List (Text × Json)} {t : Tier} (h : decodeTier (.object ms) = some t) {e : Text × Json}
    (he : e ∈ ms) : ∃ old new, readTexts old e.2 = some new := by
  obtain ⟨hknown, hfields⟩ := decodeTier_object h
  obtain ⟨target, hkey⟩ := hknown e he
  obtain ⟨new, hnew, -⟩ := hfields target
  refine (foldlM_readTexts hnew).1 e.2 ?_
  rw [fieldValues_eq]
  exact List.mem_map_of_mem (List.mem_filter.mpr ⟨he, hkey⟩)

/-- The matchers of the members a field's keys name, overwritten ones included. -/
def memberMatchers (target : Target) : Json → List Text
  | .object ms => (ms.filter fun e => names target e.1).flatMap fun e => strings e.2
  | _ => []

theorem mem_memberMatchers {target : Target} {ms : List (Text × Json)} {m : Text} :
    m ∈ memberMatchers target (.object ms) ↔ ∃ e ∈ ms, names target e.1 = true ∧ m ∈ strings e.2 := by
  simp [memberMatchers, and_assoc]

theorem under_of_mem_memberMatchers {target : Target} {v : Json} {m : Text} (hm : m ∈ memberMatchers target v) :
    Under (names target) m v := by
  cases v with
  | object ms =>
      obtain ⟨e, he, hkey, hm⟩ := mem_memberMatchers.mp hm
      exact .key he hkey (holds_of_mem_strings hm)
  | null | bool | number | string | array => cases hm

/-- In a tier that decodes, a matcher under a key of the field stands in one of the object's own lists. -/
theorem under_decodeTier {v : Json} {t : Tier} (h : decodeTier v = some t) {target : Target} {m : Text} :
    Under (names target) m v ↔ m ∈ memberMatchers target v := by
  refine ⟨fun hunder => ?_, under_of_mem_memberMatchers⟩
  cases v with
  | object ms =>
      rcases hunder with ⟨he, hkey, hm⟩ | _ | ⟨he, hm⟩
      · obtain ⟨old, new, hread⟩ := reads_of_decodeTier h he
        exact mem_memberMatchers.mpr ⟨_, he, hkey, mem_strings_of_holds hread hm⟩
      · obtain ⟨old, new, hread⟩ := reads_of_decodeTier h he
        exact absurd hm (not_under_of_readTexts hread _ m)
  | null => cases hunder
  | bool | number | string | array => cases h

theorem mem_listOf_decodeTier {ms : List (Text × Json)} {t : Tier} (h : decodeTier (.object ms) = some t)
    (target : Target) (m : Text) :
    m ∈ listOf t target ↔ ∃ front last, fieldValues (fieldName target) ms = front ++ [last] ∧ Lists m front last := by
  obtain ⟨new, hnew, hlist⟩ := (decodeTier_object h).2 target
  rw [hlist]
  exact (foldlM_readTexts hnew).2.2 m

/-! ### Rules that get lost -/

/-- Every rule of the text arrives: it is one array with nothing but white space behind it, and each matcher that
stands under a key of an outcome is in that outcome's list of the tier at its place. -/
def RulesArrive (raw : Text) (p : Profile) : Prop :=
  raw = [] ∧ p.tiers = [] ∨
    ∃ items, unmarshal raw = some (.array items) ∧
      ∀ (i : Nat) (v : Json), items[i]? = some v → ∀ target m, Under (names target) m v →
        ∃ t, p.tiers[i]? = some t ∧ m ∈ listOf t target

/-- The text hides no rule: no closing bracket follows its value, and the last list an object has for an outcome lists
what its other lists for that outcome do, or has a `null` in its place. -/
structure HidesNoRule (raw : Text) : Prop where
  noBracket : ∀ v rest, decode raw = some (v, rest) →
    (skipSpace rest).head? ≠ some ']' ∧ (skipSpace rest).head? ≠ some '\x7d'
  lastListsAll : ∀ items rest, decode raw = some (.array items, rest) → ∀ ms, .object ms ∈ items →
    ∀ target, ∀ e ∈ ms, names target e.1 = true → ∀ m ∈ strings e.2,
      ∃ front last, fieldValues (fieldName target) ms = front ++ [last] ∧ Lists m front last

theorem readTiers_eq_ok {raw : Text} {tiers : List Tier} (h : readTiers raw = .ok tiers) :
    ∃ items rest, decode raw = some (.array items, rest) ∧ more rest = false ∧ items.mapM decodeTier = some tiers := by
  unfold readTiers at h
  split at h
  · cases h
  rename_i decoded rest hread
  obtain ⟨⟨v, rest'⟩, hdecode, hread⟩ := Option.bind_eq_some_iff.mp hread
  obtain ⟨decoded', hdecoded, heq⟩ := Option.map_eq_some_iff.mp hread
  obtain ⟨rfl, rfl⟩ := Prod.mk.inj heq
  split at h
  · cases h
  rename_i hmore
  cases decoded' with
  | none => cases h
  | some tiers' =>
      obtain rfl : tiers' = tiers := Except.ok.inj h
      cases v with
      | array items =>
          obtain ⟨tiers'', htiers, heq⟩ := Option.map_eq_some_iff.mp hdecoded
          obtain rfl := Option.some.inj heq
          exact ⟨items, rest', hdecode, by simpa using hmore, htiers⟩
      | null | bool | number | string | object => cases hdecoded

theorem routingFromOpts_eq_ok {opts : Opts} {p : Profile} (h : routingFromOpts opts = .ok p) :
    tiersText opts = [] ∧ p.tiers = [] ∨ readTiers (tiersText opts) = .ok p.tiers := by
  unfold routingFromOpts at h
  split at h
  · cases h
  simp only at h
  split at h
  · rename_i hblank
    obtain rfl := Except.ok.inj h
    exact .inl ⟨hblank, rfl⟩
  split at h
  · cases h
  rename_i tiers htiers
  split at h
  · cases h
  obtain rfl := Except.ok.inj h
  exact .inr htiers

theorem rulesArrive_iff_of_read {raw : Text} {p : Profile} (hread : readTiers raw = .ok p.tiers) :
    RulesArrive raw p ↔ HidesNoRule raw := by
  obtain ⟨items, rest, hdecode, hmore, htiers⟩ := readTiers_eq_ok hread
  have hraw : raw ≠ [] := by
    rintro rfl
    cases hdecode
  constructor
  · rintro (⟨hblank, -⟩ | ⟨items', hall, harrive⟩)
    · exact absurd hblank hraw
    obtain ⟨rest', hdecode', hspace⟩ := unmarshal_eq_some.mp hall
    constructor
    · intro v rest'' hv
      rw [hdecode', Option.some.injEq, Prod.mk.injEq] at hv
      rw [← hv.2, hspace]
      simp
    · intro items'' rest'' hv ms hms target e he hkey m hm
      rw [hdecode', Option.some.injEq, Prod.mk.injEq] at hv
      rw [hdecode', Option.some.injEq, Prod.mk.injEq] at hdecode
      cases hv.1
      cases hdecode.1
      obtain ⟨i, hi⟩ := List.mem_iff_getElem?.mp hms
      obtain ⟨t, ht, hdecoded⟩ := Fallible.getElem?_of_mapM htiers hi
      have hunder : Under (names target) m (.object ms) :=
        under_of_mem_memberMatchers (mem_memberMatchers.mpr ⟨e, he, hkey, hm⟩)
      obtain ⟨t', ht', hmem⟩ := harrive i _ hi target m hunder
      obtain rfl : t = t' := Option.some.inj (ht.symm.trans ht')
      exact (mem_listOf_decodeTier hdecoded target m).mp hmem
  · rintro ⟨hbracket, hlast⟩
    have hspace : skipSpace rest = [] := by
      have hnext := hbracket _ _ hdecode
      exact (more_eq_false.mp hmore).resolve_right fun h => h.elim hnext.1 hnext.2
    refine .inr ⟨items, unmarshal_eq_some.mpr ⟨rest, hdecode, hspace⟩, ?_⟩
    intro i v hi target m hunder
    obtain ⟨t, ht, hdecoded⟩ := Fallible.getElem?_of_mapM htiers hi
    have hmatcher := (under_decodeTier hdecoded).mp hunder
    cases v with
    | null | bool | number | string | array => cases hmatcher
    | object ms =>
        obtain ⟨e, he, hkey, hm⟩ := mem_memberMatchers.mp hmatcher
        refine ⟨t, ht, (mem_listOf_decodeTier hdecoded target m).mpr ?_⟩
        exact hlast items rest hdecode ms (List.mem_of_getElem? hi) target e he hkey m hm

/-- Options that are accepted bring every rule of their text exactly when the text hides none. -/
theorem rulesArrive_iff (opts : Opts) (p : Profile) (hok : routingFromOpts opts = .ok p) :
    RulesArrive (tiersText opts) p ↔ HidesNoRule (tiersText opts) := by
  obtain ⟨hblank, htiers⟩ | hread := routingFromOpts_eq_ok hok
  · refine iff_of_true (.inl ⟨hblank, htiers⟩) ?_
    rw [hblank]
    exact ⟨fun v rest h => (nomatch h), fun items rest h => (nomatch h)⟩
  · exact rulesArrive_iff_of_read hread

def tiersOnly (text : Text) : Opts := fun key => if key = "routingTiers".toList then some text else none

def profileOf (tiers : List Tier) : Profile :=
  { mode := [], tiers, domainStrategy := [], localNetworks := false, directSendThrough := [], directInterface := [],
    disableIPv6 := false, disableUDP := false }

-- the `null` of the second list keeps the rule of the first
example : routingFromOpts (tiersOnly "[\x7b\"block\":[\"domain:ads.example\"],\"block\":[null]\x7d]".toList) =
    .ok (profileOf [⟨["domain:ads.example".toList], [], []⟩]) := by
  decide +kernel

def twoTiers : Text :=
  "[\x7b\"block\":[\"domain:ads.example\"]\x7d, \x7b\"Proxy\":[\"full:a.example\"]\x7d] ".toList

theorem rulesArrive_iff_twoTiers :
    routingFromOpts (tiersOnly twoTiers) =
        .ok (profileOf [⟨["domain:ads.example".toList], [], []⟩, ⟨[], [], ["full:a.example".toList]⟩]) ∧
      (RulesArrive (tiersText (tiersOnly twoTiers))
          (profileOf [⟨["domain:ads.example".toList], [], []⟩, ⟨[], [], ["full:a.example".toList]⟩]) ↔
        HidesNoRule (tiersText (tiersOnly twoTiers))) := by
  have hok : routingFromOpts (tiersOnly twoTiers) =
      .ok (profileOf [⟨["domain:ads.example".toList], [], []⟩, ⟨[], [], ["full:a.example".toList]⟩]) := by
    decide +kernel
  exact ⟨hok, rulesArrive_iff _ _ hok⟩

def elements : Json → List Json
  | .array items => items
  | _ => []

def repeatedKey : Text := "[\x7b\"block\":[\"domain:ads.example\"],\"block\":[]\x7d]".toList

/-- A bracket too many goes unseen, and a repeated `block` takes the first one's rules with it. -/
theorem rules_lost :
    (routingFromOpts (tiersOnly "[] ]".toList) = .ok (profileOf []) ∧
      ¬ RulesArrive (tiersText (tiersOnly "[] ]".toList)) (profileOf [])) ∧
    routingFromOpts (tiersOnly repeatedKey) = .ok (profileOf [emptyTier]) ∧
      ¬ RulesArrive (tiersText (tiersOnly repeatedKey)) (profileOf [emptyTier]) := by
  refine ⟨⟨by decide +kernel, ?_⟩, by decide +kernel, ?_⟩
  · rintro (⟨hblank, -⟩ | ⟨items, hall, -⟩)
    · exact absurd hblank (by decide +kernel)
    · have hnone : (unmarshal (tiersText (tiersOnly "[] ]".toList))).isNone = true := by decide +kernel
      rw [hall] at hnone
      cases hnone
  · rintro (⟨hblank, -⟩ | ⟨items, hall, harrive⟩)
    · exact absurd hblank (by decide +kernel)
    · have hvalue : ((unmarshal (tiersText (tiersOnly repeatedKey))).bind fun v => (elements v).head?).any
          (fun v => "domain:ads.example".toList ∈ memberMatchers .block v) = true := by
        decide +kernel
      rw [hall] at hvalue
      obtain ⟨v, hv, hm⟩ := (Option.any_eq_true ..).mp hvalue
      have hunder := under_of_mem_memberMatchers (of_decide_eq_true hm)
      obtain ⟨t, ht, hmem⟩ := harrive 0 v (List.head?_eq_getElem?.symm.trans hv) .block _ hunder
      cases ht
      cases hmem

end GlitchCore.Core.RoutingOpts
