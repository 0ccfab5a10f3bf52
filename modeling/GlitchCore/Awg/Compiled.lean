import GlitchCore.Awg.Config
import GlitchCore.Base.Fallible

/-!
# What a compiled configuration holds

A configuration read as its sections, each with the entries under its header. The pass keeps, field by field,
what the sections read so far say (`Reads`), so the request it writes is the one the sections describe; and
every value it writes is free of control characters, so a line of the request is a line of the device's input.
-/

namespace GlitchCore.Awg

open GoText Encoding

/-! ### Sections -/

/-- The keys and values under one header, in the order of the text. -/
abbrev Entries := List (Text × Text)

def sections : Section → Entries → List Item → List (Section × Entries)
  | name, entries, [] => [(name, entries)]
  | name, entries, .header name' :: items => (name, entries) :: sections name' [] items
  | name, entries, .entry key val :: items => sections name (entries ++ [(key, val)]) items

/-- The sections of a text; what stands before the first header belongs to none. -/
def configSections (cfg : Text) : List (Section × Entries) :=
  sections .other [] ((split '\n' cfg).filterMap readLine)

def interfaceEntries (all : List (Section × Entries)) : Entries :=
  (all.filter (·.1 = .interface)).flatMap (·.2)

/-- The entries of each peer header. -/
def peerSections (all : List (Section × Entries)) : List Entries := (all.filter (·.1 = .peer)).map (·.2)

def lastWhere (p : Text × Text → Bool) (entries : Entries) : Option Text :=
  (entries.filter p).getLast?.map (·.2)

/-- The last key given where the entries say so, as the device takes it. -/
def lastKey (p : Text × Text → Bool) (entries : Entries) : Option Text :=
  (lastWhere p entries).bind fun val => (normalizeKeyToHex val).toOption

def isInterfaceKey (name : InterfaceKey) (e : Text × Text) : Bool := interfaceKey e.1 = some name

def isPeerKey (name : PeerKey) (e : Text × Text) : Bool := peerKeys.lookup e.1 = some name

/-- A keepalive entry with an interval: `off` gives none. -/
def givesKeepalive (e : Text × Text) : Bool := isPeerKey .keepalive e && !equalFold e.2 "off".toList

def isDeviceKey (e : Text × Text) : Bool := (deviceKeys.lookup e.1).isSome

def deviceLine (e : Text × Text) : Option Text := do
  let name ← deviceKeys.lookup e.1
  let val ← (deviceValue e.1 e.2).toOption
  return name ++ "=".toList ++ val

def allowedEntries (entries : Entries) : List Text :=
  (entries.filter (isPeerKey .allowedIPs)).flatMap fun e => allowedIPs e.2

/-- The line of a value that is given and not empty. -/
def lineOf (name : Text) (val : Option Text) : List Text :=
  (val.filter (· ≠ [])).toList.map (name ++ "=".toList ++ ·)

/-- The block of one peer header; there is none without a public key. -/
def peerBlock (entries : Entries) : Option (List Text) := do
  let pub ← lastKey (isPeerKey .publicKey) entries
  return ["public_key=".toList ++ pub] ++
    lineOf "preshared_key".toList (lastKey (isPeerKey .presharedKey) entries) ++
    lineOf "endpoint".toList (lastWhere (isPeerKey .endpoint) entries) ++
    lineOf "persistent_keepalive_interval".toList (lastWhere givesKeepalive entries) ++
    ["replace_allowed_ips=true".toList] ++ (allowedEntries entries).map ("allowed_ip=".toList ++ ·)

/-- 64 lower-case hexadecimal digits. -/
def IsHexKey (s : Text) : Prop := s.length = 64 ∧ ∀ c ∈ s, isLowerHex c = true

/-- The request a configuration describes, line by line: the device with its private key, its port where one is
given and a line for each obfuscation key, then the block of each peer header, all in the order of the text. -/
def Describes (cfg : Text) (lines : List Text) : Prop :=
  ∃ priv device blocks,
    lastKey (isInterfaceKey .privateKey) (interfaceEntries (configSections cfg)) = some priv ∧ IsHexKey priv ∧
    ((interfaceEntries (configSections cfg)).filter isDeviceKey).mapM deviceLine = some device ∧
    (peerSections (configSections cfg)).mapM peerBlock = some blocks ∧
    (∀ block ∈ blocks, ∃ pub rest, IsHexKey pub ∧ block = ("public_key=".toList ++ pub) :: rest) ∧
    lines = ["replace_peers=true".toList, "private_key=".toList ++ priv] ++
      lineOf "listen_port".toList
        (lastWhere (isInterfaceKey .listenPort) (interfaceEntries (configSections cfg))) ++
      device ++ blocks.flatten

/-! ### Reading an entry more -/

variable {entries : Entries} {key val h : Text}

theorem lastWhere_append (p : Text × Text → Bool) (entries : Entries) (e : Text × Text) :
    lastWhere p (entries ++ [e]) = if p e then some e.2 else lastWhere p entries := by
  unfold lastWhere
  rw [List.filter_append]
  by_cases he : p e = true
  · rw [List.filter_cons_of_pos he, List.filter_nil, List.getLast?_concat, if_pos he]
    rfl
  · rw [List.filter_cons_of_neg he, List.filter_nil, List.append_nil, if_neg he]

theorem lastKey_append_of_ok {p : Text × Text → Bool} (hp : p (key, val) = true)
    (hok : normalizeKeyToHex val = .ok h) : lastKey p (entries ++ [(key, val)]) = some h := by
  rw [lastKey, lastWhere_append, if_pos hp, Option.bind_some, hok]
  rfl

theorem isHexKey_of_normalizeKeyToHex (hok : normalizeKeyToHex val = .ok h) : IsHexKey h := by
  unfold normalizeKeyToHex at hok
  cases hkey : keyBytes val with
  | error e =>
      rw [hkey] at hok
      cases hok
  | ok k =>
      rw [hkey] at hok
      obtain rfl : hexEncode k.1 = h := by simpa [Except.map] using hok
      exact ⟨by rw [length_hexEncode, k.2], fun c hc => isLowerHex_of_mem_hexEncode hc⟩

theorem isHexKey_of_lastKey {p : Text × Text → Bool} (hlast : lastKey p entries = some h) : IsHexKey h := by
  obtain ⟨val, -, hval⟩ := Option.bind_eq_some_iff.mp hlast
  cases hok : normalizeKeyToHex val with
  | error e => simp [hok, Except.toOption] at hval
  | ok h' =>
      obtain rfl : h' = h := by simpa [hok, Except.toOption] using hval
      exact isHexKey_of_normalizeKeyToHex hok

/-! ### The pass keeps what the sections say -/

/-- The peer the entries of its section describe. -/
def readPeer (entries : Entries) : Peer where
  pub := (lastKey (isPeerKey .publicKey) entries).getD []
  psk := (lastKey (isPeerKey .presharedKey) entries).getD []
  endpoint := (lastWhere (isPeerKey .endpoint) entries).getD []
  keepalive := (lastWhere givesKeepalive entries).getD []
  allowed := allowedEntries entries

/-- What the interface entries say of the device. -/
structure ReadsDevice (entries : Entries) (s : State) : Prop where
  priv : s.devicePriv = (lastKey (isInterfaceKey .privateKey) entries).getD []
  listen : s.deviceListen = (lastWhere (isInterfaceKey .listenPort) entries).getD []
  extras : (entries.filter isDeviceKey).mapM deviceLine = some s.deviceExtras

/-- What the sections read so far say of the whole request, and that no value holds a control character. -/
structure Reads (all : List (Section × Entries)) (s : State) : Prop where
  device : ReadsDevice (interfaceEntries all) s
  peers : s.peers = (peerSections all).map readPeer
  clean : ∀ part ∈ all, ∀ e ∈ part.2, hasControl e.2 = false

theorem reads_init : Reads [(.other, [])] {} where
  device := ⟨rfl, rfl, rfl⟩
  peers := rfl
  clean := by simp

@[simp] theorem interfaceEntries_append (a b : List (Section × Entries)) :
    interfaceEntries (a ++ b) = interfaceEntries a ++ interfaceEntries b := by
  simp [interfaceEntries]

@[simp] theorem peerSections_append (a b : List (Section × Entries)) :
    peerSections (a ++ b) = peerSections a ++ peerSections b := by
  simp [peerSections]

@[simp] theorem interfaceEntries_singleton (name : Section) (entries : Entries) :
    interfaceEntries [(name, entries)] = if name = .interface then entries else [] := by
  cases name <;> simp [interfaceEntries]

@[simp] theorem peerSections_singleton (name : Section) (entries : Entries) :
    peerSections [(name, entries)] = if name = .peer then [entries] else [] := by
  cases name <;> simp [peerSections]

theorem allowedEntries_append (entries : Entries) (e : Text × Text) : allowedEntries (entries ++ [e]) =
    allowedEntries entries ++ if isPeerKey .allowedIPs e then allowedIPs e.2 else [] := by
  unfold allowedEntries
  rw [List.filter_append, List.flatMap_append]
  by_cases he : isPeerKey .allowedIPs e = true
  · rw [List.filter_cons_of_pos he, if_pos he]
    simp
  · rw [List.filter_cons_of_neg he, if_neg he]
    simp

/-- One entry more changes the field its key names. -/
theorem readPeer_append (entries : Entries) (key val : Text) : readPeer (entries ++ [(key, val)]) =
    match peerKeys.lookup key with
    | some .publicKey => { readPeer entries with pub := (normalizeKeyToHex val).toOption.getD [] }
    | some .presharedKey => { readPeer entries with psk := (normalizeKeyToHex val).toOption.getD [] }
    | some .endpoint => { readPeer entries with endpoint := val }
    | some .keepalive =>
        if equalFold val "off".toList then readPeer entries else { readPeer entries with keepalive := val }
    | some .allowedIPs => { readPeer entries with allowed := (readPeer entries).allowed ++ allowedIPs val }
    | none => readPeer entries := by
  unfold readPeer
  cases hkey : peerKeys.lookup key with
  | none => simp [lastKey, lastWhere_append, allowedEntries_append, givesKeepalive, isPeerKey, hkey]
  | some name =>
      cases name with
      | keepalive =>
          simp only [lastKey, lastWhere_append, allowedEntries_append, givesKeepalive, isPeerKey, hkey]
          cases equalFold val "off".toList <;> simp
      | _ => simp [lastKey, lastWhere_append, allowedEntries_append, givesKeepalive, isPeerKey, hkey]

theorem parsePeerKey_readPeer {p : Peer} (hok : parsePeerKey (readPeer entries) key val = .ok p) :
    p = readPeer (entries ++ [(key, val)]) := by
  rw [readPeer_append]
  unfold parsePeerKey at hok
  cases hkey : peerKeys.lookup key with
  | none => exact (Except.ok.inj (hkey ▸ hok)).symm
  | some name =>
      rw [hkey] at hok
      cases name with
      | publicKey | presharedKey =>
          cases hhex : normalizeKeyToHex val with
          | error e => simp [hhex] at hok
          | ok h =>
              simp only [hhex, Except.ok.injEq] at hok
              exact hok.symm
      | endpoint | keepalive | allowedIPs => exact (Except.ok.inj hok).symm

theorem interfaceKey_eq_device {key uapiKey : Text} :
    interfaceKey key = some (.device uapiKey) ↔ deviceKeys.lookup key = some uapiKey := by
  have hfixed : ∀ k ∈ "privatekey".toList :: "listenport".toList :: awg15Keys, deviceKeys.lookup k = none := by
    decide
  have hne : deviceKeys.lookup key = some uapiKey → key ∉ "privatekey".toList :: "listenport".toList :: awg15Keys := by
    intro hlook hmem
    rw [hfixed key hmem] at hlook
    cases hlook
  constructor
  · intro h
    unfold interfaceKey at h
    split at h
    · cases h
    split at h
    · cases h
    split at h
    · cases h
    · obtain ⟨name, hname, hdev⟩ := Option.map_eq_some_iff.mp h
      cases hdev
      exact hname
  · intro h
    have hnot := hne h
    rw [List.mem_cons, List.mem_cons, not_or, not_or] at hnot
    rw [interfaceKey, if_neg hnot.1, if_neg hnot.2.1, if_neg hnot.2.2, h]
    rfl

theorem clean_append {closed : List (Section × Entries)} {name : Section}
    (hall : ∀ part ∈ closed ++ [(name, entries)], ∀ e ∈ part.2, hasControl e.2 = false)
    (hclean : hasControl val = false) :
    ∀ part ∈ closed ++ [(name, entries ++ [(key, val)])], ∀ e ∈ part.2, hasControl e.2 = false := by
  simp only [List.mem_append, List.mem_singleton, or_imp, forall_and, forall_eq] at hall ⊢
  exact ⟨hall.1, hall.2, hclean⟩

theorem lookup_deviceKeys_eq_none (hkey : ∀ uapiKey, interfaceKey key ≠ some (.device uapiKey)) :
    deviceKeys.lookup key = none :=
  Option.eq_none_iff_forall_not_mem.mpr fun uapiKey h => hkey uapiKey (interfaceKey_eq_device.mpr h)

/-- One key of the interface: its field, or the list of device lines, takes the value. -/
theorem ReadsDevice.append {s s' : State} (hr : ReadsDevice entries s)
    (hok : parseInterfaceKey s key val = .ok s') :
    ReadsDevice (entries ++ [(key, val)]) s' ∧ s'.inSection = s.inSection ∧ s'.peers = s.peers := by
  obtain ⟨hpriv, hlisten, hextras⟩ := hr
  have hplain : (∀ uapiKey, interfaceKey key ≠ some (.device uapiKey)) →
      ((entries ++ [(key, val)]).filter isDeviceKey).mapM deviceLine = some s.deviceExtras := by
    intro hne
    have hnot : isDeviceKey (key, val) = false := by rw [isDeviceKey, lookup_deviceKeys_eq_none hne]; rfl
    rw [List.filter_append, List.filter_cons_of_neg (by simp [hnot]), List.filter_nil, List.append_nil, hextras]
  unfold parseInterfaceKey at hok
  cases hkey : interfaceKey key with
  | none =>
      obtain rfl : s = s' := Except.ok.inj (hkey ▸ hok)
      refine ⟨⟨?_, ?_, hplain (by simp [hkey])⟩, rfl, rfl⟩
      · simp [lastKey, lastWhere_append, isInterfaceKey, hkey, hpriv]
      · simp [lastWhere_append, isInterfaceKey, hkey, hlisten]
  | some name =>
      rw [hkey] at hok
      cases name with
      | privateKey =>
          cases hhex : normalizeKeyToHex val with
          | error e => simp [hhex] at hok
          | ok h =>
              simp only [hhex, Except.ok.injEq] at hok
              subst hok
              refine ⟨⟨?_, ?_, hplain (by simp [hkey])⟩, rfl, rfl⟩
              · rw [lastKey_append_of_ok (by simp [isInterfaceKey, hkey]) hhex]
                rfl
              · simp [lastWhere_append, isInterfaceKey, hkey, hlisten]
      | listenPort =>
          obtain rfl := (Except.ok.inj hok).symm
          refine ⟨⟨?_, ?_, hplain (by simp [hkey])⟩, rfl, rfl⟩
          · simp [lastKey, lastWhere_append, isInterfaceKey, hkey, hpriv]
          · simp [lastWhere_append, isInterfaceKey, hkey]
      | awg15 => cases hok
      | device uapiKey =>
          have hlook := interfaceKey_eq_device.mp hkey
          cases hval : deviceValue key val with
          | error e => simp [hval] at hok
          | ok v =>
              simp only [hval, Except.ok.injEq] at hok
              subst hok
              refine ⟨⟨?_, ?_, ?_⟩, rfl, rfl⟩
              · simp [lastKey, lastWhere_append, isInterfaceKey, hkey, hpriv]
              · simp [lastWhere_append, isInterfaceKey, hkey, hlisten]
              · have hline : deviceLine (key, val) = some (uapiKey ++ "=".toList ++ v) := by
                  rw [deviceLine, hlook, hval]
                  rfl
                rw [List.filter_append, List.filter_cons_of_pos (by simp [isDeviceKey, hlook]), List.filter_nil,
                  List.mapM_append, hextras, List.mapM_cons, hline]
                rfl

theorem Reads.step {closed : List (Section × Entries)} {name : Section} {s s' : State}
    (hr : Reads (closed ++ [(name, entries)]) s) (hin : s.inSection = name)
    (hok : parseItem s (.entry key val) = .ok s') :
    Reads (closed ++ [(name, entries ++ [(key, val)])]) s' ∧ s'.inSection = name := by
  obtain ⟨hdevice, hpeers, hall⟩ := hr
  rw [parseItem] at hok
  split at hok
  · cases hok
  rename_i hclean
  rw [Bool.not_eq_true] at hclean
  have hall' : ∀ part ∈ closed ++ [(name, entries ++ [(key, val)])], ∀ e ∈ part.2, hasControl e.2 = false :=
    clean_append hall hclean
  subst hin
  cases hin : s.inSection with
  | interface =>
      rw [hin] at hok hdevice hpeers
      rw [interfaceEntries_append, interfaceEntries_singleton, if_pos rfl] at hdevice
      obtain ⟨hdevice', hsame, hpeers'⟩ := hdevice.append hok
      refine ⟨⟨?_, ?_, hin ▸ hall'⟩, hsame.trans hin⟩
      · rw [interfaceEntries_append, interfaceEntries_singleton, if_pos rfl, ← List.append_assoc]
        exact hdevice'
      · simpa [hpeers'] using hpeers
  | peer =>
      rw [hin] at hok hdevice hpeers
      have hlast : s.peers.getLast? = some (readPeer entries) := by simp [hpeers]
      simp only [hlast] at hok
      cases hkey : parsePeerKey (readPeer entries) key val with
      | error e =>
          rw [hkey] at hok
          cases hok
      | ok p =>
          rw [hkey] at hok
          obtain rfl := (Except.ok.inj hok).symm
          obtain rfl := parsePeerKey_readPeer hkey
          refine ⟨⟨?_, ?_, hin ▸ hall'⟩, rfl⟩
          · simp only [interfaceEntries_append, interfaceEntries_singleton] at hdevice ⊢
            exact ⟨hdevice.priv, hdevice.listen, hdevice.extras⟩
          · simp [hpeers]
  | other =>
      rw [hin] at hok hdevice hpeers
      obtain rfl : s = s' := by simpa using hok
      exact ⟨⟨by simpa using hdevice, by simpa using hpeers, hin ▸ hall'⟩, hin⟩

theorem Reads.header {all : List (Section × Entries)} {name : Section} {s s' : State} (hr : Reads all s)
    (hok : parseItem s (.header name) = .ok s') : Reads (all ++ [(name, [])]) s' ∧ s'.inSection = name := by
  obtain ⟨hdevice, hpeers, hall⟩ := hr
  have hentries : interfaceEntries (all ++ [(name, [])]) = interfaceEntries all := by simp
  have hclean : ∀ part ∈ all ++ [(name, [])], ∀ e ∈ part.2, hasControl e.2 = false := by
    simpa [or_imp, forall_and] using hall
  cases name with
  | peer =>
      obtain rfl := (Except.ok.inj hok).symm
      refine ⟨⟨hentries ▸ ⟨hdevice.priv, hdevice.listen, hdevice.extras⟩, ?_, hclean⟩, rfl⟩
      rw [peerSections_append, List.map_append, ← hpeers]
      rfl
  | interface | other =>
      obtain rfl := (Except.ok.inj hok).symm
      refine ⟨⟨hentries ▸ ⟨hdevice.priv, hdevice.listen, hdevice.extras⟩, ?_, hclean⟩, rfl⟩
      simpa using hpeers

/-- The whole pass: what is kept at the end is what all the sections say. -/
theorem Reads.run {closed : List (Section × Entries)} {name : Section} {s s' : State} {items : List Item}
    (hr : Reads (closed ++ [(name, entries)]) s) (hin : s.inSection = name)
    (hok : items.foldlM parseItem s = .ok s') : Reads (closed ++ sections name entries items) s' := by
  induction items generalizing closed name entries s with
  | nil =>
      obtain rfl := Except.ok.inj hok
      exact hr
  | cons item items ih =>
      rw [List.foldlM_cons] at hok
      cases hstep : parseItem s item with
      | error e =>
          rw [hstep] at hok
          cases hok
      | ok s1 =>
          rw [hstep] at hok
          cases item with
          | header name' =>
              obtain ⟨hr1, hin1⟩ := hr.header hstep
              rw [sections, List.append_cons]
              exact ih hr1 hin1 hok
          | entry key val =>
              obtain ⟨hr1, hin1⟩ := hr.step hin hstep
              exact ih hr1 hin1 hok

theorem foldlM_parseLine (lines : List Text) (s : State) :
    lines.foldlM parseLine s = (lines.filterMap readLine).foldlM parseItem s := by
  induction lines generalizing s with
  | nil => rfl
  | cons line lines ih =>
      cases hread : readLine line with
      | none =>
          rw [List.foldlM_cons, parseLine, hread, List.filterMap_cons_none hread]
          exact ih s
      | some item =>
          rw [List.foldlM_cons, parseLine, hread, List.filterMap_cons_some hread, List.foldlM_cons]
          exact bind_congr ih

theorem reads_of_parse {cfg : Text} {s : State} (hok : (split '\n' cfg).foldlM parseLine {} = .ok s) :
    Reads (configSections cfg) s := by
  rw [foldlM_parseLine] at hok
  have hinit : Reads ([] ++ [(.other, [])]) {} := reads_init
  exact hinit.run rfl hok

/-! ### The lines written -/

theorem optionalLine_getD (name : Text) (val : Option Text) : optionalLine name (val.getD []) = lineOf name val := by
  unfold optionalLine lineOf
  cases val with
  | none => rfl
  | some v => by_cases hv : v = [] <;> simp [hv, Option.filter]

theorem peerBlock_eq_peerLines (hpub : (readPeer entries).pub ≠ []) :
    peerBlock entries = some (peerLines (readPeer entries)) := by
  have hgiven : ∃ pub, lastKey (isPeerKey .publicKey) entries = some pub := by
    rw [← Option.isSome_iff_exists]
    by_contra hnone
    rw [Bool.not_eq_true, Option.isSome_eq_false_iff, Option.isNone_iff_eq_none] at hnone
    exact hpub (by rw [readPeer, hnone]; rfl)
  obtain ⟨pub, hpub⟩ := hgiven
  unfold peerBlock peerLines
  simp only [readPeer, optionalLine_getD, hpub]
  rfl

theorem split_writeLines {lines : List Text} (hlines : ∀ line ∈ lines, '\n' ∉ line) :
    split '\n' (writeLines lines) = lines ++ [[]] := by
  induction lines with
  | nil => rfl
  | cons line lines ih =>
      have hcons : writeLines (line :: lines) = line ++ '\n' :: writeLines lines := by
        simp [writeLines]
      rw [hcons, split_append_sep, split_of_not_mem (hlines line (by simp)),
        ih fun l hl => hlines l (by simp [hl])]
      rfl

/-! ### No control characters -/

@[simp] theorem hasControl_append (a b : Text) : hasControl (a ++ b) = (hasControl a || hasControl b) :=
  List.any_append

theorem hasControl_of_subset {a b : Text} (hsub : ∀ c ∈ a, c ∈ b) (hb : hasControl b = false) :
    hasControl a = false := by
  rw [hasControl, List.any_eq_false] at hb ⊢
  exact fun c hc => hb c (hsub c hc)

theorem IsHexKey.clean (hkey : IsHexKey h) : hasControl h = false := by
  rw [hasControl, List.any_eq_false]
  intro c hc
  have hhex := hkey.2 c hc
  have hrange : 48 ≤ c.toNat ∧ c.toNat ≤ 102 := by
    simp only [isLowerHex, Bool.or_eq_true, Bool.and_eq_true, decide_eq_true_eq] at hhex
    obtain ⟨hlow, hhigh⟩ | ⟨hlow, hhigh⟩ := hhex
    · have h1 : 48 ≤ c.toNat := hlow
      have h2 : c.toNat ≤ 57 := hhigh
      omega
    · have h1 : 97 ≤ c.toNat := hlow
      have h2 : c.toNat ≤ 102 := hhigh
      omega
  simp only [isControl, Bool.and_eq_true, Bool.or_eq_true, decide_eq_true_eq, not_and]
  omega

theorem newline_not_mem {line : Text} (hclean : hasControl line = false) : '\n' ∉ line := by
  intro hmem
  rw [hasControl, List.any_eq_false] at hclean
  exact hclean '\n' hmem (by decide)

theorem lastWhere_clean {p : Text × Text → Bool} (hall : ∀ e ∈ entries, hasControl e.2 = false)
    (hlast : lastWhere p entries = some val) : hasControl val = false := by
  obtain ⟨e, he, rfl⟩ := Option.map_eq_some_iff.mp hlast
  exact hall e (List.mem_filter.mp (List.mem_of_mem_getLast? he)).1

theorem lineOf_clean (name : Text) (v : Option Text) (hname : hasControl name = false)
    (hval : ∀ val, v = some val → hasControl val = false) :
    ∀ line ∈ lineOf name v, hasControl line = false := by
  intro line hline
  obtain ⟨val, hmem, rfl⟩ := List.mem_map.mp hline
  have hval' := hval val (Option.mem_toList.mp hmem |> Option.eq_some_of_filter_eq_some)
  simp only [hasControl_append, hname, hval', Bool.or_false]
  rfl

theorem awg3Value_clean {v : Text} (hok : awg3Value key val = .ok v) (hclean : hasControl val = false) :
    hasControl v = false := by
  unfold awg3Value at hok
  split at hok
  · cases hhex : normalizeKeyToHex val with
    | error e =>
        rw [hhex] at hok
        cases hok
    | ok h =>
        rw [hhex] at hok
        obtain rfl := Except.ok.inj hok
        exact (isHexKey_of_normalizeKeyToHex hhex).clean
  split at hok
  · cases hbool : parseBool val with
    | error e =>
        rw [hbool] at hok
        cases hok
    | ok b =>
        rw [hbool] at hok
        obtain rfl := Except.ok.inj hok
        cases b <;> decide
  · cases hrange : checkRange val with
    | error e =>
        rw [hrange] at hok
        cases hok
    | ok _ =>
        rw [hrange] at hok
        obtain rfl := Except.ok.inj hok
        exact hclean

theorem deviceLine_clean {e : Text × Text} {line : Text} (hline : deviceLine e = some line)
    (hclean : hasControl e.2 = false) : hasControl line = false := by
  obtain ⟨name, hname, hrest⟩ := Option.bind_eq_some_iff.mp hline
  obtain ⟨v, hv, hrest⟩ := Option.bind_eq_some_iff.mp hrest
  obtain rfl := Option.some.inj hrest
  have hnames : ∀ kv ∈ deviceKeys, hasControl kv.2 = false := by decide
  obtain ⟨before, after, hsplit, -⟩ := List.lookup_eq_some_iff.mp hname
  have hmem : (e.1, name) ∈ deviceKeys := by rw [hsplit]; simp
  have hval : hasControl v = false := by
    cases hok : deviceValue e.1 e.2 with
    | error err => simp [hok, Except.toOption] at hv
    | ok v' =>
        obtain rfl : v' = v := by simpa [hok, Except.toOption] using hv
        unfold deviceValue at hok
        split at hok
        · exact awg3Value_clean hok hclean
        · exact Except.ok.inj hok ▸ hclean
  simp only [hasControl_append, hnames _ hmem, hval, Bool.or_false]
  rfl

theorem allowedEntries_clean (hall : ∀ e ∈ entries, hasControl e.2 = false) :
    ∀ ip ∈ allowedEntries entries, hasControl ip = false := by
  intro ip hip
  obtain ⟨e, he, hip⟩ := List.mem_flatMap.mp hip
  obtain ⟨part, hpart, rfl⟩ := List.mem_map.mp (List.mem_filter.mp hip).1
  have hsub : ∀ c ∈ trimSpace part, c ∈ e.2 := fun c hc =>
    mem_of_mem_split hpart (mem_of_mem_trim hc)
  exact hasControl_of_subset hsub (hall e (List.mem_filter.mp he).1)

theorem peerBlock_clean {block : List Text} (hblock : peerBlock entries = some block)
    (hall : ∀ e ∈ entries, hasControl e.2 = false) : ∀ line ∈ block, hasControl line = false := by
  obtain ⟨pub, hpub, hrest⟩ := Option.bind_eq_some_iff.mp hblock
  obtain rfl := Option.some.inj hrest
  have hpubline : hasControl ("public_key=".toList ++ pub) = false := by
    rw [hasControl_append, (isHexKey_of_lastKey hpub).clean]
    rfl
  have hpsk := lineOf_clean "preshared_key".toList (lastKey (isPeerKey .presharedKey) entries) rfl
    fun psk hlast => (isHexKey_of_lastKey hlast).clean
  have hendpoint := lineOf_clean "endpoint".toList (lastWhere (isPeerKey .endpoint) entries) rfl
    fun val hlast => lastWhere_clean hall hlast
  have hkeepalive := lineOf_clean "persistent_keepalive_interval".toList (lastWhere givesKeepalive entries) rfl
    fun val hlast => lastWhere_clean hall hlast
  have hallowed : ∀ line ∈ (allowedEntries entries).map ("allowed_ip=".toList ++ ·), hasControl line = false := by
    intro line hline
    obtain ⟨ip, hip, rfl⟩ := List.mem_map.mp hline
    rw [hasControl_append, allowedEntries_clean hall ip hip]
    rfl
  intro line hline
  simp only [List.mem_append, List.mem_singleton] at hline
  obtain ((((rfl | hline) | hline) | hline) | rfl) | hline := hline
  · exact hpubline
  · exact hpsk line hline
  · exact hendpoint line hline
  · exact hkeepalive line hline
  · rfl
  · exact hallowed line hline

theorem mapM_peerBlock {all : List Entries} (hpub : ∀ entries ∈ all, (readPeer entries).pub ≠ []) :
    all.mapM peerBlock = some (all.map fun entries => peerLines (readPeer entries)) := by
  induction all with
  | nil => rfl
  | cons entries all ih =>
      rw [List.mapM_cons, peerBlock_eq_peerLines (hpub entries (by simp)),
        ih fun entries' h => hpub entries' (by simp [h])]
      rfl

/-- What `emit` writes once the pass has read the sections. -/
theorem describes_of_emit {cfg : Text} {s : State} {lines : List Text} (hr : Reads (configSections cfg) s)
    (hok : emit s = .ok lines) : Describes cfg lines := by
  unfold emit at hok
  split at hok
  · cases hok
  rename_i hpriv
  split at hok
  · cases hok
  split at hok
  · cases hok
  rename_i hfind
  obtain rfl := Except.ok.inj hok
  have hpub : ∀ entries ∈ peerSections (configSections cfg), (readPeer entries).pub ≠ [] := by
    intro entries hmem hnil
    rw [List.findIdx?_eq_none_iff] at hfind
    simpa [hnil] using hfind (readPeer entries) (by rw [hr.peers]; exact List.mem_map_of_mem hmem)
  have hkey : ∃ priv, lastKey (isInterfaceKey .privateKey) (interfaceEntries (configSections cfg)) = some priv := by
    rw [← Option.isSome_iff_exists]
    by_contra hnone
    rw [Bool.not_eq_true, Option.isSome_eq_false_iff, Option.isNone_iff_eq_none] at hnone
    exact hpriv (by rw [hr.device.priv, hnone]; rfl)
  obtain ⟨priv, hkey⟩ := hkey
  refine ⟨priv, s.deviceExtras, _, hkey, isHexKey_of_lastKey hkey, hr.device.extras, mapM_peerBlock hpub, ?_, ?_⟩
  · intro block hblock
    obtain ⟨entries, hmem, rfl⟩ := List.mem_map.mp hblock
    obtain ⟨pub, hlast, hlines⟩ := Option.bind_eq_some_iff.mp (peerBlock_eq_peerLines (hpub entries hmem))
    exact ⟨pub, _, isHexKey_of_lastKey hlast, (Option.some.inj hlines).symm⟩
  · rw [← optionalLine_getD, ← hr.device.listen, hr.device.priv, hkey, hr.peers, List.flatMap_map]
    rfl

theorem Describes.clean {cfg : Text} {lines : List Text} (hlines : Describes cfg lines)
    (hall : ∀ part ∈ configSections cfg, ∀ e ∈ part.2, hasControl e.2 = false) :
    ∀ line ∈ lines, hasControl line = false := by
  have hentries : ∀ e ∈ interfaceEntries (configSections cfg), hasControl e.2 = false := by
    intro e he
    obtain ⟨part, hpart, he⟩ := List.mem_flatMap.mp he
    exact hall part (List.mem_filter.mp hpart).1 e he
  have hpeers : ∀ entries ∈ peerSections (configSections cfg), ∀ e ∈ entries, hasControl e.2 = false := by
    intro entries hmem e he
    obtain ⟨part, hpart, rfl⟩ := List.mem_map.mp hmem
    exact hall part (List.mem_filter.mp hpart).1 e he
  obtain ⟨priv, device, blocks, hpriv, hhex, hdevice, hblocks, -, rfl⟩ := hlines
  intro line hline
  simp only [List.mem_append, List.mem_cons, List.not_mem_nil, or_false] at hline
  obtain (((rfl | rfl) | hline) | hline) | hline := hline
  · rfl
  · rw [hasControl_append, hhex.clean]
    rfl
  · exact lineOf_clean _ _ rfl (fun val hlast => lastWhere_clean hentries hlast) line hline
  · obtain ⟨e, he, hdev⟩ := Fallible.exists_of_mem_mapM hdevice line hline
    exact deviceLine_clean hdev (hentries e (List.mem_filter.mp he).1)
  · obtain ⟨block, hblock, hline⟩ := List.mem_flatten.mp hline
    obtain ⟨entries, hmem, hpeer⟩ := Fallible.exists_of_mem_mapM hblocks block hblock
    exact peerBlock_clean hpeer (hpeers entries hmem) line hline

/-- The lines of the request for an accepted configuration. -/
theorem describes_of_parse {cfg out : Text} (hok : parseToUAPI cfg = .ok out) :
    ∃ lines, split '\n' out = lines ++ [[]] ∧ Describes cfg lines ∧ ∀ line ∈ lines, hasControl line = false := by
  obtain ⟨s, hs, hrest⟩ := Fallible.bind_eq_ok hok
  obtain ⟨lines, hlines, hout⟩ := Fallible.bind_eq_ok hrest
  obtain rfl := Except.ok.inj hout
  have hr := reads_of_parse hs
  have hdesc := describes_of_emit hr hlines
  have hclean := hdesc.clean hr.clean
  exact ⟨lines, split_writeLines fun line hline => newline_not_mem (hclean line hline), hdesc, hclean⟩

/-- An accepted configuration compiles to the request its sections describe, and no line of it holds a line break
or a control character other than a tab: no value of the text adds a line, or moves one to another peer. -/
theorem parseToUAPI_describes (cfg out : Text) (hok : parseToUAPI cfg = .ok out) :
    ∃ lines, split '\n' out = lines ++ [[]] ∧ Describes cfg lines ∧
      ∀ line ∈ lines, ∀ c ∈ line, c = '\t' ∨ (c ≠ '\n' ∧ isControl c = false) := by
  obtain ⟨lines, hsplit, hdesc, hclean⟩ := describes_of_parse hok
  refine ⟨lines, hsplit, hdesc, ?_⟩
  intro line hline c hc
  have hany := List.any_eq_false.mp (hclean line hline) c hc
  by_cases htab : c = '\t'
  · exact .inl htab
  · refine .inr ⟨?_, by simpa [htab] using hany⟩
    rintro rfl
    exact newline_not_mem (hclean line hline) hc

/-- An interface with a junk packet count and two peers, the second with two endpoints. -/
def sampleConfig : Text :=
  "[Interface]\nPrivateKey=".toList ++ List.replicate 64 '1' ++ "\nJc = 4\n[Peer]\nPublicKey=".toList ++
    List.replicate 64 '2' ++ "\nAllowedIPs=::/0\n[Peer]\nEndpoint=a:1\nPublicKey=".toList ++
    List.replicate 64 '3' ++ "\nEndpoint=b:2".toList

def sampleRequest : Text :=
  "replace_peers=true\nprivate_key=".toList ++ List.replicate 64 '1' ++ "\njc=4\npublic_key=".toList ++
    List.replicate 64 '2' ++ "\nreplace_allowed_ips=true\nallowed_ip=::/0\npublic_key=".toList ++
    List.replicate 64 '3' ++ "\nendpoint=b:2\nreplace_allowed_ips=true\n".toList

theorem parseToUAPI_describes_twoPeers :
    parseToUAPI sampleConfig = .ok sampleRequest ∧
      ∃ lines, split '\n' sampleRequest = lines ++ [[]] ∧ Describes sampleConfig lines ∧
        ∀ line ∈ lines, ∀ c ∈ line, c = '\t' ∨ (c ≠ '\n' ∧ isControl c = false) := by
  have hok : parseToUAPI sampleConfig = .ok sampleRequest := by decide +kernel
  exact ⟨hok, parseToUAPI_describes sampleConfig sampleRequest hok⟩

end GlitchCore.Awg
