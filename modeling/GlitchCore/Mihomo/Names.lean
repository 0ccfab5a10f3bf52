import GlitchCore.Links.ServerInfo
import GlitchCore.Mihomo.ReadBack

/-!
# Proxy names

mihomo finds a proxy by its name, and the names come from the links' remarks. `ProxyNames` hands them out one by one
and keeps what it has handed out: a remark that is taken, by an earlier link or by mihomo itself, gets a counter. The
set of taken names only grows and no name is given while it is in it, so each name leads back to one link.
-/

namespace GlitchCore.Mihomo

open GoText Encoding Links ServerInfo

/-- The name of the balancer group. -/
def groupTag : Text := "vpn".toList

/-- The names mihomo's own parser defines, and the group's. -/
def reservedNames : List Text :=
  ["DIRECT".toList, "REJECT".toList, "REJECT-DROP".toList, "COMPATIBLE".toList, "PASS".toList, "PASS-RULE".toList,
   "GLOBAL".toList, groupTag]

/-- The name a link asks for. -/
def proxyName (link : Text) (idx : Nat) : Text :=
  if Awg.linkScheme.isPrefixOf (toLower link) then linkName false (textOf (Awg.linkName link)) idx
  else if Vmess.isLink link then linkName true (Vmess.parse link).1.name idx
  else linkName false (((Url.parse link).map (·.fragment)).getD []) idx

/-- The counters `uniqueName` goes through, for so many rounds. -/
def freeCandidate (used : List Text) (name : Text) : Nat → Nat → Option Text
  | 0, _ => none
  | rounds + 1, n =>
      if nameCandidate name n ∈ used then freeCandidate used name rounds (n + 1) else some (nameCandidate name n)

/-- One round more than there are taken names. -/
def uniqueName (name : Text) (used : List Text) : Option Text :=
  if name ∈ used then freeCandidate used name (used.length + 1) 2 else some name

/-- The loop of `ProxyNames`, with the names taken so far. -/
def namesFrom : List (Text × Nat) → List Text → Option (List Text)
  | [], _ => some []
  | (link, i) :: rest, used =>
      if trimSpace link = [] then namesFrom rest used
      else do
        let name ← uniqueName (proxyName (trimSpace link) i) used
        let names ← namesFrom rest (name :: used)
        return name :: names

def proxyNames (links : List Text) : Option (List Text) := namesFrom links.zipIdx reservedNames

/-- Where proxied traffic goes: the proxy, or the group over several. -/
def target (names : List Text) : Text :=
  match names with
  | [] => []
  | [name] => name
  | _ => groupTag

/-! ### A name that is free -/

/-- A link's own name or that name with a counter. -/
def IsNameOf (name own : Text) : Prop := name = own ∨ ∃ n ≥ 2, name = nameCandidate own n

theorem nameCandidate_injective (name : Text) : Function.Injective (nameCandidate name) := by
  intro n m h
  rw [nameCandidate, nameCandidate, List.append_left_inj, List.append_right_inj] at h
  exact itoa_injective h

theorem mem_of_freeCandidate_none {used : List Text} {name : Text} {rounds n : Nat}
    (h : freeCandidate used name rounds n = none) : ∀ k < rounds, nameCandidate name (n + k) ∈ used := by
  induction rounds generalizing n with
  | zero =>
      intro k hk
      exact absurd hk (Nat.not_lt_zero k)
  | succ rounds ih =>
      rw [freeCandidate] at h
      split at h
      · rename_i hmem
        intro k hk
        cases k with
        | zero => exact hmem
        | succ k =>
            have hnext := ih h k (by omega)
            rwa [Nat.add_assoc, Nat.add_comm 1 k] at hnext
      · cases h

/-- So many names cannot all be taken by fewer. -/
theorem freeCandidate_ne_none (used : List Text) (name : Text) (n : Nat) :
    freeCandidate used name (used.length + 1) n ≠ none := by
  intro hnone
  have hall := mem_of_freeCandidate_none hnone
  let tried := (List.range (used.length + 1)).map fun k => nameCandidate name (n + k)
  have hnodup : tried.Nodup :=
    List.nodup_range.map fun k k' h => Nat.add_left_cancel (nameCandidate_injective name h)
  have hsubset : tried ⊆ used := by
    intro candidate hcandidate
    obtain ⟨k, hk, rfl⟩ := List.mem_map.mp hcandidate
    exact hall k (List.mem_range.mp hk)
  have hle := (List.subperm_of_subset hnodup hsubset).length_le
  rw [List.length_map, List.length_range] at hle
  omega

theorem freeCandidate_some {used : List Text} {name candidate : Text} {rounds n : Nat}
    (h : freeCandidate used name rounds n = some candidate) :
    candidate ∉ used ∧ ∃ k ≥ n, candidate = nameCandidate name k := by
  induction rounds generalizing n with
  | zero => cases h
  | succ rounds ih =>
      rw [freeCandidate] at h
      split at h
      · obtain ⟨hfree, k, hk, hcandidate⟩ := ih h
        exact ⟨hfree, k, by omega, hcandidate⟩
      · rename_i hfree
        obtain rfl := Option.some.inj h
        exact ⟨hfree, n, le_rfl, rfl⟩

/-- The loop of `uniqueName` ends, with a name of the link that is not taken. -/
theorem exists_uniqueName (own : Text) (used : List Text) :
    ∃ name, uniqueName own used = some name ∧ name ∉ used ∧ IsNameOf name own := by
  by_cases htaken : own ∈ used
  · obtain ⟨name, hname⟩ := Option.ne_none_iff_exists'.mp (freeCandidate_ne_none used own 2)
    obtain ⟨hfree, hcounter⟩ := freeCandidate_some hname
    exact ⟨name, (if_pos htaken).trans hname, hfree, .inr hcounter⟩
  · exact ⟨own, if_neg htaken, htaken, .inl rfl⟩

/-! ### The loop -/

theorem namesFrom_cons_blank {link : Text} {i : Nat} {rest : List (Text × Nat)} {used : List Text}
    (hblank : trimSpace link = []) : namesFrom ((link, i) :: rest) used = namesFrom rest used := by
  rw [namesFrom, if_pos hblank]

theorem namesFrom_cons {link name : Text} {i : Nat} {rest : List (Text × Nat)} {used names : List Text}
    (hkept : trimSpace link ≠ []) (hname : uniqueName (proxyName (trimSpace link) i) used = some name)
    (hnames : namesFrom rest (name :: used) = some names) :
    namesFrom ((link, i) :: rest) used = some (name :: names) := by
  rw [namesFrom, if_neg hkept, hname]
  change (namesFrom rest (name :: used)).bind _ = _
  rw [hnames]
  rfl

/-- The loop ends with one name for each link that is not blank; the names are distinct and none was taken before. -/
theorem exists_namesFrom (links : List (Text × Nat)) (used : List Text) :
    ∃ names, namesFrom links used = some names ∧ names.Nodup ∧ (∀ name ∈ names, name ∉ used) ∧
      List.Forall₂ (fun kept name => IsNameOf name (proxyName kept.1 kept.2))
        ((links.map fun (l, i) => (trimSpace l, i)).filter fun kept => kept.1 ≠ []) names := by
  induction links generalizing used with
  | nil => exact ⟨[], rfl, List.nodup_nil, fun _ hname => (List.not_mem_nil hname).elim, .nil⟩
  | cons first rest ih =>
      obtain ⟨link, i⟩ := first
      by_cases hblank : trimSpace link = []
      · obtain ⟨names, hnames, hspec⟩ := ih used
        refine ⟨names, (namesFrom_cons_blank hblank).trans hnames, ?_⟩
        rw [List.map_cons, List.filter_cons_of_neg (by simpa using hblank)]
        exact hspec
      · obtain ⟨name, hname, hfree, hof⟩ := exists_uniqueName (proxyName (trimSpace link) i) used
        obtain ⟨names, hnames, hnodup, havoid, hall⟩ := ih (name :: used)
        refine ⟨name :: names, namesFrom_cons hblank hname hnames, ?_, ?_, ?_⟩
        · exact List.nodup_cons.mpr ⟨fun hmem => havoid name hmem List.mem_cons_self, hnodup⟩
        · intro other hother
          obtain rfl | hother := List.mem_cons.mp hother
          · exact hfree
          · exact fun hused => havoid other hother (List.mem_cons_of_mem _ hused)
        · rw [List.map_cons, List.filter_cons_of_pos (by simpa using hblank)]
          exact .cons hof hall

theorem proxyName_word (link : Text) (idx : Nat) : Word (proxyName link idx) ∧ proxyName link idx ≠ [] := by
  unfold proxyName
  split
  · exact linkName_word ..
  · split
    · exact linkName_word ..
    · exact linkName_word ..

theorem IsNameOf.word {name link : Text} {idx : Nat} (h : IsNameOf name (proxyName link idx)) :
    Word name ∧ name ≠ [] := by
  obtain ⟨hword, hne⟩ := proxyName_word link idx
  obtain rfl | ⟨n, -, rfl⟩ := h
  · exact ⟨hword, hne⟩
  · exact nameCandidate_word hword hne n

/-! ### What the names are good for -/

/-- Position `k` of the names belongs to the link that is entry `k` of the servers. -/
structure NamedAlike (links : List Text) (k : Nat) (name link : Text) (i : Nat) : Prop where
  kept : (keptLinks links)[k]? = some (link, i)
  named : IsNameOf name (proxyName link i)
  server : (fromLinks links)[k]? = some (fromLink link k)
  index : (fromLink link k).index = k

structure Naming (links names : List Text) : Prop where
  length_kept : names.length = (keptLinks links).length
  length_servers : names.length = (fromLinks links).length
  aligned : ∀ k name, names[k]? = some name → ∃ link i, NamedAlike links k name link i
  distinct : names.Nodup
  unreserved : ∀ name ∈ names, name ∉ reservedNames
  nonempty : ∀ name ∈ names, name ≠ []
  comma : ∀ name ∈ names, ',' ∉ name
  trimmed : ∀ name ∈ names, trimSpace name = name
  /-- The name is the last field of any rule line that ends in it. -/
  lastField : ∀ name ∈ names, ∀ front, (fields (front ++ ',' :: name)).getLast? = some name
  /-- The balancer's pick leads to one link. -/
  pick : ∀ name ∈ names, ∃! k : Nat, names[k]? = some name

theorem existsUnique_getElem? {α : Type} {l : List α} (hnodup : l.Nodup) {a : α} (ha : a ∈ l) :
    ∃! k : Nat, l[k]? = some a := by
  obtain ⟨k, hk⟩ := List.mem_iff_getElem?.mp ha
  refine ⟨k, hk, fun k' hk' => ?_⟩
  obtain ⟨hlt, -⟩ := List.getElem?_eq_some_iff.mp hk'
  exact (List.getElem?_inj hlt hnodup).mp (hk'.trans hk.symm)

theorem getElem?_of_forall₂ {α β : Type} {R : α → β → Prop} {l : List α} {l' : List β} (h : List.Forall₂ R l l')
    {k : Nat} {b : β} (hb : l'[k]? = some b) : ∃ a, l[k]? = some a ∧ R a b := by
  induction h generalizing k with
  | nil => cases hb
  | cons hfirst _ ih =>
      cases k with
      | zero =>
          obtain rfl := Option.some.inj hb
          exact ⟨_, rfl, hfirst⟩
      | succ k => exact ih hb

/-- `ProxyNames` ends for every list of links, and its names lead from each link to its server and back. -/
theorem proxyNames_naming (links : List Text) : ∃ names, proxyNames links = some names ∧ Naming links names := by
  obtain ⟨names, hnames, hnodup, havoid, hall⟩ := exists_namesFrom links.zipIdx reservedNames
  have hlength : names.length = (keptLinks links).length := hall.length_eq.symm
  have haligned : ∀ k name, names[k]? = some name → ∃ link i, NamedAlike links k name link i := by
    intro k name hk
    obtain ⟨⟨link, i⟩, hkept, hnamed⟩ := getElem?_of_forall₂ hall hk
    refine ⟨link, i, hkept, hnamed, ?_, index_fromLink link k⟩
    rw [fromLinks_eq, List.getElem?_map, List.getElem?_zipIdx, keptLinks, hkept]
    simp
  have hword : ∀ name ∈ names, Word name ∧ name ≠ [] := by
    intro name hname
    obtain ⟨k, hk⟩ := List.mem_iff_getElem?.mp hname
    obtain ⟨link, i, halike⟩ := haligned k name hk
    exact halike.named.word
  refine ⟨names, hnames, ?_⟩
  exact
    { length_kept := hlength
      length_servers := by rw [fromLinks_eq, List.length_map, List.length_zipIdx, hlength]
      aligned := haligned
      distinct := hnodup
      unreserved := havoid
      nonempty := fun name hname => (hword name hname).2
      comma := fun name hname => (hword name hname).1.comma
      trimmed := fun name hname => (hword name hname).1.edges
      lastField := by
        intro name hname front
        rw [fields_append_comma, (hword name hname).1.fields, List.getLast?_concat]
      pick := fun name hname => existsUnique_getElem? hnodup hname }

example : proxyNames ["vless://u@a.example.com:443#Alpha".toList, [], "vless://u@b.example.com:443".toList,
    "vless://u@c.example.com:443#Alpha".toList] =
      some ["Alpha".toList, "proxy-2".toList, "Alpha (2)".toList] := by decide +kernel

end GlitchCore.Mihomo
