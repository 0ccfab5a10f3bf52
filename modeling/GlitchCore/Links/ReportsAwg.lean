import GlitchCore.Links.Reports

/-!
# What is reported of an AmneziaWG configuration

The report names the address of the first line that begins with `endpoint`, in whatever section it stands. mihomo dials
the last `Endpoint` of all the peers' sections and the device the last one of each.
-/

namespace GlitchCore.ServerInfo

open GoText Encoding Links Url

variable {link ini : Text} {idx : Nat}

/-! ### White space around a configuration -/

section Lines

variable {β : Type} {f : Text → Option β} (htrim : ∀ l, f (trimSpace l) = f l) (hblank : f [] = none)

include htrim hblank

theorem findSome?_of_space {lines : List Text} (h : ∀ l ∈ lines, ∀ c ∈ l, isSpace c = true) : lines.findSome? f = none := by
  refine List.findSome?_eq_none_iff.mpr fun l hl => ?_
  have hnil : trimSpace (l ++ []) = trimSpace [] := trim_append_of_forall_left (h l hl)
  rw [List.append_nil] at hnil
  rw [← htrim l, hnil]
  exact hblank

theorem findSome?_space_left {before : Text} (h : ∀ c ∈ before, isSpace c = true) (s : Text) :
    (split '\n' (before ++ s)).findSome? f = (split '\n' s).findSome? f := by
  obtain ⟨front, last, first, rest, hbefore, hs, happend⟩ := split_append '\n' before s
  have hspace : ∀ l ∈ front ++ [last], ∀ c ∈ l, isSpace c = true := fun l hl c hc => h c (mem_of_mem_split (hbefore ▸ hl) hc)
  have hfirst : trimSpace (last ++ first) = trimSpace first := trim_append_of_forall_left (hspace last (by simp))
  rw [happend, hs, List.findSome?_append, findSome?_of_space htrim hblank fun l hl => hspace l (List.mem_append_left _ hl),
    Option.none_or, List.findSome?_cons, List.findSome?_cons, ← htrim (last ++ first), hfirst, htrim]

theorem findSome?_space_right {after : Text} (h : ∀ c ∈ after, isSpace c = true) (s : Text) :
    (split '\n' (s ++ after)).findSome? f = (split '\n' s).findSome? f := by
  obtain ⟨front, last, first, rest, hs, hafter, happend⟩ := split_append '\n' s after
  have hspace : ∀ l ∈ first :: rest, ∀ c ∈ l, isSpace c = true := fun l hl c hc => h c (mem_of_mem_split (hafter ▸ hl) hc)
  have hlast : trimSpace (last ++ first) = trimSpace last := trim_append_of_forall_right (hspace first List.mem_cons_self)
  rw [happend, hs, List.findSome?_append, List.findSome?_append, List.findSome?_cons, List.findSome?_cons,
    ← htrim (last ++ first), hlast, htrim, findSome?_of_space htrim hblank fun l hl => hspace l (List.mem_cons_of_mem _ hl)]
  rfl

/-- A search of the lines of a text does not see the white space around it. -/
theorem findSome?_trimSpace (s : Text) : (split '\n' (trimSpace s)).findSome? f = (split '\n' s).findSome? f := by
  conv_rhs =>
    rw [← List.takeWhile_append_dropWhile (p := isSpace) (l := s),
      findSome?_space_left htrim hblank fun c hc => List.mem_takeWhile_imp hc,
      ← List.rdropWhile_append_rtakeWhile (p := isSpace) (l := s.dropWhile isSpace),
      findSome?_space_right htrim hblank fun c hc => List.mem_rtakeWhile_imp hc]
  rfl

end Lines

theorem endpointValue_trimSpace (cfg : Text) : Awg.endpointValue (trimSpace cfg) = Awg.endpointValue cfg := by
  have htrim : ∀ l, Awg.endpointOfLine (trimSpace l) = Awg.endpointOfLine l := by
    intro l
    rw [Awg.endpointOfLine, Awg.endpointOfLine, trimSpace_trimSpace]
  rw [Awg.endpointValue, Awg.endpointValue, findSome?_trimSpace htrim (by decide)]

/-! ### The report -/

theorem normalizeToINI_trimSpace (h : Awg.normalizeToINI link = some ini) :
    ∃ ini', Awg.normalizeToINI (trimSpace link) = some ini' ∧ Awg.endpointValue ini' = Awg.endpointValue ini := by
  unfold Awg.normalizeToINI Awg.normalizeWith at h ⊢
  dsimp only at h ⊢
  rw [trimSpace_trimSpace]
  split at h
  · rename_i hscheme
    rw [if_pos hscheme]
    exact ⟨ini, h, rfl⟩
  · rename_i hscheme
    rw [if_neg hscheme]
    obtain rfl := Option.some.inj h
    exact ⟨trimSpace link, rfl, endpointValue_trimSpace link⟩

theorem reports_awg_iff (hawg : isAwg (trimSpace link) = true) (h : Awg.normalizeToINI link = some ini) {host : Text}
    {port : Int} : Reports link idx "awg".toList host port ↔ Awg.endpointHostPort ini = (host, port) := by
  obtain ⟨ini', hini', hvalue⟩ := normalizeToINI_trimSpace h
  have hserver : fromLink link idx = fromAwg (trimSpace link) idx := fromLink_awg hawg
  have haddress : ((Awg.normalizeToINI (trimSpace link)).map Awg.endpointHostPort).getD ([], 0) =
      Awg.endpointHostPort ini := by
    rw [hini', Option.map_some, Option.getD_some, Awg.endpointHostPort, hvalue, Awg.endpointHostPort]
  rw [Reports, hserver, fromAwg, haddress, Prod.ext_iff]
  exact ⟨fun hreports => hreports.2, fun hboth => ⟨rfl, hboth⟩⟩

/-! ### What the builders dial -/

/-- The first line that begins with `endpoint` has the value of the last `Endpoint` of the peers, and a port a socket could
have. -/
structure WireguardMirrored (ini : Text) : Prop where
  last : ∀ e ∈ Awg.firstBeginning Awg.endpointKey ini,
    ∀ e' ∈ ((Awg.entriesIn Awg.peerName ini).filter fun e => Awg.names Awg.endpointKey e.1).getLast?, trimSpace e'.2 = e.2
  port : ∀ e ∈ Awg.firstBeginning Awg.endpointKey ini,
    ∀ part ∈ HostPort.splitHostPort e.2, ∀ port ∈ atoi part.2, 0 ≤ port ∧ port ≤ 65535

theorem wireguardProxy_ok {label : Text} {p : Mihomo.Proxy} (hok : Mihomo.wireguardProxy link label = .ok p) :
    p.type = .wireguard ∧ ∃ ini portText, Awg.normalizeToINI link = some ini ∧
      HostPort.splitHostPort (Mihomo.peerValue ini "endpoint") = some (p.server, portText) ∧
      atoi portText = some p.port := by
  unfold Mihomo.wireguardProxy at hok
  split at hok
  · cases hok
  rename_i ini hini
  split at hok
  · cases hok
  rename_i host portText hsplit
  split at hok
  · cases hok
  rename_i port hport
  split at hok
  · cases hok
  obtain ⟨option, -, hok⟩ := Fallible.bind_eq_ok hok
  obtain rfl := Except.ok.inj hok
  exact ⟨rfl, ini, portText, hini, hsplit, hport⟩

theorem hostPort_of_split {val host portText : Text} {port : Int} (hsplit : HostPort.splitHostPort val = some (host, portText))
    (hport : atoi portText = some port) :
    Awg.hostPort val = (host, if port < 0 ∨ 65535 < port then 0 else port) := by
  have hne : val ≠ [] := by
    rintro rfl
    cases hsplit
  rw [Awg.hostPort, if_neg hne, hsplit]
  dsimp only
  rw [hport]
  rfl

theorem exists_first_of_peerValue (hne : Mihomo.peerValue ini "endpoint" ≠ []) :
    ∃ e, Awg.firstBeginning Awg.endpointKey ini = some e ∧
      ∃ e' ∈ ((Awg.entriesIn Awg.peerName ini).filter fun e => Awg.names Awg.endpointKey e.1).getLast?,
        Mihomo.peerValue ini "endpoint" = trimSpace e'.2 := by
  have hvalue : Mihomo.peerValue ini "endpoint" =
      (((Awg.entriesIn Awg.peerName ini).filter fun e => Awg.names Awg.endpointKey e.1).getLast?.map
        fun e => trimSpace e.2).getD [] := rfl
  cases hlast : ((Awg.entriesIn Awg.peerName ini).filter fun e => Awg.names Awg.endpointKey e.1).getLast? with
  | none =>
      rw [hvalue, hlast] at hne
      exact absurd rfl hne
  | some e' =>
      obtain ⟨hmem, hkey⟩ := List.mem_filter.mp (List.mem_of_mem_getLast? hlast)
      have htidy : Awg.tidyEntry e' ∈ (Awg.peerSections (Awg.configSections ini)).flatten := by
        rw [Awg.flatten_peerSections_config]
        exact List.mem_map_of_mem hmem
      obtain ⟨entries, hentries, he⟩ := List.mem_flatten.mp htidy
      have hbegins : Awg.begins Awg.endpointKey (Awg.tidyEntry e').1 = true := by
        rw [show (Awg.tidyEntry e').1 = Awg.endpointKey from of_decide_eq_true hkey]
        decide
      obtain ⟨e, hfirst⟩ := Awg.exists_firstBeginning hentries he hbegins
      exact ⟨e, hfirst, e', rfl, by rw [hvalue, hlast]; rfl⟩

theorem wireguard_reports {label : Text} {p : Mihomo.Proxy} (hkind : isAwg (trimSpace link) = true)
    (hok : Mihomo.wireguardProxy link label = .ok p) (h : ∀ ini ∈ Awg.normalizeToINI link, WireguardMirrored ini) :
    Reports link idx "awg".toList p.server p.port := by
  obtain ⟨-, ini, portText, hini, hsplit, hport⟩ := wireguardProxy_ok hok
  have hne : Mihomo.peerValue ini "endpoint" ≠ [] := by
    intro hnil
    rw [hnil] at hsplit
    cases hsplit
  obtain ⟨hlast, hrange⟩ := h ini hini
  obtain ⟨e, hfirst, e', he', hvalue⟩ := exists_first_of_peerValue hne
  rw [hlast e hfirst e' he'] at hvalue
  rw [hvalue] at hsplit
  have hsocket := hrange e hfirst _ hsplit _ hport
  rw [reports_awg_iff hkind hini, Awg.endpointHostPort, Awg.endpointValue_eq, hfirst, Option.map_some, Option.getD_some,
    hostPort_of_split hsplit hport, if_neg (by omega)]

/-- An address a socket can have. -/
def dialOf (val : Text) : Option (Text × Int) := do
  let (host, portText) ← HostPort.splitHostPort val
  let port ← (atoi portText).filter fun n => decide (0 ≤ n ∧ n ≤ 65535)
  if host = [] then none else some (host, port)

theorem dialOf_eq_some {val host : Text} {port : Int} (h : dialOf val = some (host, port)) :
    host ≠ [] ∧ Awg.hostPort val = (host, port) := by
  obtain ⟨⟨host', portText⟩, hsplit, h⟩ := Option.bind_eq_some_iff.mp h
  obtain ⟨port', hport, h⟩ := Option.bind_eq_some_iff.mp h
  obtain ⟨hatoi, hrange⟩ := Option.filter_eq_some_iff.mp hport
  have hrange := of_decide_eq_true hrange
  split at h
  · cases h
  · rename_i hne
    obtain ⟨rfl, rfl⟩ := Prod.mk.inj (Option.some.inj h)
    refine ⟨hne, ?_⟩
    rw [hostPort_of_split hsplit hatoi, if_neg (by omega)]

/-- The link begins with `awg://` or holds the header `[Interface]`, and the first line of its text that begins with
`endpoint` has the value of each peer's last `Endpoint`, where that is not empty. -/
structure DeviceMirrored (link ini : Text) : Prop where
  kind : Awg.linkScheme <+: toLower (trimSpace link) ∨ HasHeader link
  server : ∀ e ∈ Awg.firstBeginning Awg.endpointKey ini, ∀ entries ∈ Awg.peerSections (Awg.configSections ini),
    ∀ val ∈ Awg.peerEndpoint entries, val = e.2

theorem uapi_reports {out : Text} (hini : Awg.normalizeToINI link = some ini) (hok : Awg.parseToUAPI ini = .ok out)
    (h : DeviceMirrored link ini) :
    (fromLink link idx).protocol = "awg".toList ∧ ∀ val ∈ Awg.emitted Awg.endpointKey out, ∀ address ∈ dialOf val,
      Reports link idx "awg".toList address.1 address.2 := by
  have hawg : isAwg (trimSpace link) = true := by
    obtain hscheme | hheader := h.kind
    · rw [isAwg, Bool.or_eq_true]
      exact .inl (List.isPrefixOf_iff_prefix.mpr hscheme)
    · exact isAwg_of_hasHeader hheader
  have hfrom : fromLink link idx = _ := fromLink_awg hawg
  refine ⟨by rw [hfrom]; rfl, fun val hval address haddress => ?_⟩
  rw [(Awg.emitted_of_parse hok).1] at hval
  obtain ⟨entries, hentries, hval⟩ := List.mem_flatMap.mp hval
  rw [Option.mem_toList] at hval
  obtain ⟨e', he', hbegins⟩ := Awg.exists_of_peerEndpoint hval
  obtain ⟨e, hfirst⟩ := Awg.exists_firstBeginning hentries he' hbegins
  rw [reports_awg_iff hawg hini, Awg.endpointHostPort, Awg.endpointValue_eq, hfirst, Option.map_some, Option.getD_some,
    ← h.server e hfirst entries hentries val hval]
  exact (dialOf_eq_some haddress).2

end GlitchCore.ServerInfo
