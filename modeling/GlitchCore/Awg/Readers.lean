import GlitchCore.Awg.Compiled
import GlitchCore.Base.HostPort

/-!
# The other readers of an AmneziaWG configuration

Four scanners read one text. `parseToUAPI` makes the device's request of it, `endpointHostPort` finds the server
for the route exclusion, `peersCarryIPv6` decides what the tunnel carries, and `address` and `addresses` name the
tunnel's own addresses. Only two of them drop what stands behind a `#`, two match a key by how its line begins, and
of a key that is repeated the request has the last value where the server search has the first.
-/

namespace GlitchCore.Awg

open GoText

/-! ### The scanners -/

/-- The lines of a text that are neither empty, comments nor headers, each with the name of the section it stands
in; `clean` is what a scanner takes off a line before it looks at it. -/
def bodyLines (clean : Text → Text) : (current : Text) → List Text → List (Text × Text)
  | _, [] => []
  | current, l :: rest =>
      let line := clean (trimSpace l)
      if line = [] ∨ line.head? = some '#' ∨ line.head? = some ';' then bodyLines clean current rest
      else if IsHeader line then bodyLines clean (headerName line) rest
      else (current, line) :: bodyLines clean current rest

def interfaceName : Text := "interface".toList
def peerName : Text := "peer".toList
def addressKey : Text := "address".toList
def allowedIPsKey : Text := "allowedips".toList
def endpointKey : Text := "endpoint".toList

/-- `strings.HasPrefix` of the lower case. -/
def begins (word s : Text) : Bool := word.isPrefixOf (toLower s)

/-- The fields of a line that begins with `address`, whatever else its key is. -/
def addressFields (line : Text) : List Text :=
  if begins addressKey line then
    match cut '=' line with
    | some part => fieldsFunc isSpace ((trimSpace part.2).map fun c => if c = ',' then ' ' else c)
    | none => []
  else []

/-- `Address`: the first field of the first interface line that has one. -/
def address (cfg : Text) : Text :=
  ((bodyLines id [] (split '\n' cfg)).findSome? fun part =>
    if part.1 = interfaceName then (addressFields part.2).head? else none).getD []

/-- The line up to its comment. -/
def beforeComment (line : Text) : Text := if '#' ∈ line then trimSpace (line.takeWhile (· != '#')) else line

def isFieldBreak (c : Char) : Bool := c == ',' || c == ';' || c == ' ' || c == '\t'

def names (word key : Text) : Bool := toLower (trimSpace key) = word

/-- `forEachKey`: the fields its function is called with, call by call. -/
def forEachKey (cfg wantSection wantKey : Text) : List (List Text) :=
  (bodyLines beforeComment [] (split '\n' cfg)).filterMap fun part =>
    match cut '=' part.2 with
    | some entry =>
        if part.1 = wantSection ∧ names wantKey entry.1 then some (fieldsFunc isFieldBreak entry.2) else none
    | none => none

def addresses (cfg : Text) : List Text := (forEachKey cfg interfaceName addressKey).flatten

def peersCarryIPv6 (cfg : Text) : Bool :=
  (forEachKey cfg peerName allowedIPsKey).any fun fields => fields.any fun f => f.contains ':'

/-- The value of a line that begins with `endpoint`, in whatever section it stands. -/
def endpointOfLine (l : Text) : Option Text :=
  let line := trimSpace l
  if begins endpointKey line then (cut '=' line).map fun part => trimSpace part.2 else none

def endpointValue (cfg : Text) : Text := ((split '\n' cfg).findSome? endpointOfLine).getD []

/-- The host and the port of an endpoint; port 0 where there is none a socket could have. -/
def hostPort (val : Text) : Text × Int :=
  if val = [] then ([], 0)
  else match HostPort.splitHostPort val with
    | some (host, p) =>
        let port := (atoi p).getD 0
        (host, if port < 0 ∨ 65535 < port then 0 else port)
    | none => (trim (fun c => c == '[' || c == ']') val, 0)

def endpointHostPort (cfg : Text) : Text × Int := hostPort (endpointValue cfg)

/-! ### What each of them reads -/

/-- The keys and values of the lines under the headers of one name, as they stand around the `=`. -/
def entriesIn (name cfg : Text) : Entries :=
  (bodyLines id [] (split '\n' cfg)).filterMap fun part => if part.1 = name then cut '=' part.2 else none

def isAddressBreak (c : Char) : Bool := c == ',' || isSpace c

theorem begins_append {word s t : Text} (ht : ∀ c ∈ t.head?, toLowerRune c ∉ word) :
    begins word (s ++ t) = begins word s := by
  rw [Bool.eq_iff_iff, begins, begins, List.isPrefixOf_iff_prefix, List.isPrefixOf_iff_prefix, toLower, toLower,
    List.map_append]
  refine ⟨fun h => ?_, fun h => h.trans (List.prefix_append _ _)⟩
  obtain hshort | hlong := Nat.le_total word.length (s.map toLowerRune).length
  · exact List.prefix_of_prefix_length_le h (List.prefix_append _ _) hshort
  obtain ⟨rest, hrest⟩ := List.prefix_of_prefix_length_le (List.prefix_append _ _) h hlong
  cases rest with
  | nil =>
      rw [List.append_nil] at hrest
      rw [hrest]
  | cons d rest =>
      rw [← hrest, List.prefix_append_right_inj] at h
      cases t with
      | nil => exact absurd h (by simp)
      | cons c t =>
          rw [List.map_cons, List.cons_prefix_cons] at h
          refine absurd ?_ (ht c rfl)
          rw [← hrest, ← h.1]
          simp

theorem begins_cut {word line key val : Text} (hword : '=' ∉ word) (hcut : cut '=' line = some (key, val)) :
    begins word line = begins word key := by
  obtain ⟨rfl, -⟩ := cut_eq_some.mp hcut
  refine begins_append fun c hc => ?_
  obtain rfl := Option.some.inj hc
  exact hword

/-- A key that does not begin with white space, without the white space behind it. -/
theorem exists_trimmed_key (key : Text) (hkey : ∀ c ∈ key.head?, isSpace c = false) :
    ∃ space, key = trimSpace key ++ space ∧ ∀ c ∈ space, isSpace c = true := by
  refine ⟨key.rtakeWhile isSpace, ?_, fun c hc => List.mem_rtakeWhile_imp hc⟩
  rw [trimSpace, trim, dropWhile_eq_self.mpr hkey, List.rdropWhile_append_rtakeWhile]

theorem begins_trimSpace {word key : Text} (hkey : ∀ c ∈ key.head?, isSpace c = false)
    (hword : ∀ c ∈ word, isSpace c = false) : begins word (toLower (trimSpace key)) = begins word key := by
  obtain ⟨space, hsplit, hspace⟩ := exists_trimmed_key key hkey
  have hlower : begins word (toLower (trimSpace key)) = begins word (trimSpace key) := by
    rw [begins, begins, toLower_toLower]
  rw [hlower]
  conv_rhs => rw [hsplit]
  refine (begins_append fun c hc hmem => ?_).symm
  have hc' := hspace c (List.mem_of_mem_head? hc)
  rw [← isSpace_toLowerRune, hword _ hmem] at hc'
  cases hc'

theorem addressFields_eq (line : Text) : addressFields line =
    match cut '=' line with
    | some part => if begins addressKey part.1 then fieldsFunc isAddressBreak part.2 else []
    | none => [] := by
  unfold addressFields
  cases hcut : cut '=' line with
  | none => simp
  | some part =>
      obtain ⟨key, val⟩ := part
      rw [begins_cut (by decide) hcut]
      have hmap : ∀ c : Char, isSpace (if c = ',' then ' ' else c) = isAddressBreak c ∧
          (isAddressBreak c = false → (if c = ',' then ' ' else c) = c) := by
        intro c
        by_cases hc : c = ','
        · rw [if_pos hc, hc]
          decide
        · simp [isAddressBreak, hc]
      have hspace : ∀ c : Char, isSpace c = true → isAddressBreak c = true := by
        intro c hc
        simp [isAddressBreak, hc]
      simp only
      rw [fieldsFunc_map fun c _ => hmap c, trimSpace, fieldsFunc_trim hspace]

theorem address_eq (cfg : Text) : address cfg = ((entriesIn interfaceName cfg).findSome? fun e =>
    if begins addressKey e.1 then (fieldsFunc isAddressBreak e.2).head? else none).getD [] := by
  rw [address, entriesIn, ← List.head?_filterMap, ← List.head?_filterMap, List.filterMap_filterMap]
  congr 3
  funext part
  rw [addressFields_eq]
  split
  · cases cut '=' part.2 with
    | none => rfl
    | some e => cases hkey : begins addressKey e.1 <;> simp [hkey]
  · rfl

/-- A line the scan comes to does not begin with white space. -/
theorem head_of_mem_bodyLines {lines : List Text} {current : Text} {part : Text × Text}
    (h : part ∈ bodyLines id current lines) : ∀ c ∈ part.2.head?, isSpace c = false := by
  induction lines generalizing current with
  | nil => cases h
  | cons l rest ih =>
      rw [bodyLines, id] at h
      split at h
      · exact ih h
      split at h
      · exact ih h
      · obtain rfl | h := List.mem_cons.mp h
        · exact (edges_trim isSpace l).1
        · exact ih h

theorem key_of_mem_entriesIn {name cfg : Text} {e : Text × Text} (he : e ∈ entriesIn name cfg) :
    ∀ c ∈ e.1.head?, isSpace c = false := by
  obtain ⟨part, hpart, hcut⟩ := List.mem_filterMap.mp he
  split at hcut
  · obtain ⟨hline, -⟩ := cut_eq_some.mp hcut
    intro c hc
    refine head_of_mem_bodyLines hpart c ?_
    rw [hline, List.head?_append, Option.mem_def.mp hc]
    rfl
  · cases hcut

/-! ### Comments -/

/-- No header has a `#` in it or behind it. -/
def PlainHeaders (cfg : Text) : Prop :=
  ∀ l ∈ split '\n' cfg, '#' ∈ l → ¬IsHeader (trimSpace l) ∧ ¬IsHeader (beforeComment (trimSpace l))

theorem beforeComment_eq {front back : Text} (h : '#' ∉ front) :
    beforeComment (front ++ '#' :: back) = trimSpace front := by
  have hfront : ∀ c ∈ front, (c != '#') = true := fun c hc => bne_iff_ne.mpr fun heq => h (heq ▸ hc)
  rw [beforeComment, if_pos (by simp), List.takeWhile_append_of_pos hfront]
  simp

theorem head?_beforeComment {line : Text} (hhead : ∀ c ∈ line.head?, isSpace c = false)
    (hcomment : line.head? ≠ some '#') : (beforeComment line).head? = line.head? := by
  by_cases h : '#' ∈ line
  · obtain ⟨front, back, rfl, hfront⟩ := List.eq_append_cons_of_mem h
    rw [beforeComment_eq hfront]
    cases front with
    | nil => exact absurd rfl hcomment
    | cons c front =>
        obtain ⟨space, hsplit, hspace⟩ := exists_trimmed_key (c :: front) hhead
        have hc : isSpace c = false := hhead c rfl
        cases htrim : trimSpace (c :: front) with
        | nil =>
            rw [htrim, List.nil_append] at hsplit
            exact absurd (hspace c (hsplit ▸ List.mem_cons_self)) (by simp [hc])
        | cons d rest =>
            rw [htrim] at hsplit
            exact congrArg some (List.cons.inj hsplit).1.symm
  · rw [beforeComment, if_neg h]

/-- Where headers are plain, a scan that drops comments comes to the same lines in the same sections. -/
theorem bodyLines_beforeComment {lines : List Text}
    (h : ∀ l ∈ lines, '#' ∈ l → ¬IsHeader (trimSpace l) ∧ ¬IsHeader (beforeComment (trimSpace l))) (current : Text) :
    bodyLines beforeComment current lines =
      (bodyLines id current lines).map fun part => (part.1, beforeComment part.2) := by
  induction lines generalizing current with
  | nil => rfl
  | cons l rest ih =>
      obtain ⟨hl, hrest⟩ := List.forall_mem_cons.mp h
      have hedges := edges_trim isSpace l
      rw [← trimSpace] at hedges
      have hplain : '#' ∉ trimSpace l ∨ ¬IsHeader (trimSpace l) ∧ ¬IsHeader (beforeComment (trimSpace l)) :=
        Classical.or_iff_not_imp_left.mpr fun hmem => hl (mem_of_mem_trim (not_not.mp hmem))
      rw [bodyLines, bodyLines, id]
      generalize trimSpace l = line at hedges hplain
      by_cases hcomment : line.head? = some '#'
      · obtain ⟨back, rfl⟩ := List.head?_eq_some_iff.mp hcomment
        have hnil : beforeComment ('#' :: back) = [] := beforeComment_eq (List.not_mem_nil : '#' ∉ ([] : Text))
        rw [hnil]
        simp [ih hrest]
      have hhead := head?_beforeComment hedges.1 hcomment
      have hnil : beforeComment line = [] ↔ line = [] := by rw [← List.head?_eq_none_iff, hhead, List.head?_eq_none_iff]
      simp only [hhead, hnil, hcomment, false_or]
      by_cases hskip : line = [] ∨ line.head? = some ';'
      · simp only [if_pos hskip, ih hrest]
      simp only [if_neg hskip]
      obtain hsame | ⟨hnot, hnot'⟩ := hplain
      · rw [beforeComment, if_neg hsame]
        split
        · exact ih hrest _
        · rw [List.map_cons, ih hrest, beforeComment, if_neg hsame]
      · rw [if_neg hnot, if_neg hnot', List.map_cons, ih hrest]

theorem exists_of_cut_beforeComment {line key val : Text} (hhead : ∀ c ∈ line.head?, isSpace c = false) (h : '#' ∈ line)
    (hcut : cut '=' (beforeComment line) = some (key, val)) : ∃ val', cut '=' line = some (key, val') := by
  obtain ⟨front, back, rfl, hfront⟩ := List.eq_append_cons_of_mem h
  rw [beforeComment_eq hfront] at hcut
  obtain ⟨htrim, hkey⟩ := cut_eq_some.mp hcut
  obtain ⟨space, hsplit, -⟩ := exists_trimmed_key front fun c hc => by
    refine hhead c ?_
    rw [List.head?_append, Option.mem_def.mp hc]
    rfl
  refine ⟨val ++ space ++ '#' :: back, cut_eq_some.mpr ⟨?_, hkey⟩⟩
  rw [hsplit, htrim]
  simp

theorem names_of_comment {word key : Text} (hword : '#' ∉ word) (hkey : '#' ∈ key) : names word key = false := by
  refine Bool.eq_false_iff.mpr fun h => hword ?_
  have hspace : isSpace '#' = false := by decide
  have hlower : toLowerRune '#' = '#' := by decide
  rw [← of_decide_eq_true h]
  exact List.mem_map.mpr ⟨'#', (mem_trim_or hkey).resolve_left (by simp [hspace]), hlower⟩

/-- Where a line with the key has no `#`, dropping its comment leaves its entry, if it has the key. -/
theorem filter_cut_beforeComment {line key : Text} (hhead : ∀ c ∈ line.head?, isSpace c = false)
    (hplain : ∀ e ∈ cut '=' line, names key e.1 = true → '#' ∉ line) :
    (cut '=' (beforeComment line)).filter (fun e => names key e.1) = (cut '=' line).filter fun e => names key e.1 := by
  by_cases hcomment : '#' ∈ line
  · have hnone : ∀ e ∈ cut '=' line, ¬names key e.1 = true := fun e he hnames => hplain e he hnames hcomment
    rw [Option.filter_eq_none_iff.mpr hnone, Option.filter_eq_none_iff]
    rintro ⟨name, val⟩ hcut
    obtain ⟨val', hline⟩ := exists_of_cut_beforeComment hhead hcomment hcut
    exact hnone (name, val') hline
  · rw [beforeComment, if_neg hcomment]

/-- Where the lines with the key have no `#`, a scan that drops comments finds what stands there. -/
theorem forEachKey_eq {cfg name key : Text} (h : PlainHeaders cfg) (hkey : '#' ∉ key)
    (hplain : ∀ e ∈ entriesIn name cfg, names key e.1 = true → '#' ∉ e.2) :
    forEachKey cfg name key = (entriesIn name cfg).filterMap fun e =>
      if names key e.1 then some (fieldsFunc isFieldBreak e.2) else none := by
  have hentry : ∀ part ∈ bodyLines id [] (split '\n' cfg), part.1 = name → ∀ e, cut '=' part.2 = some e →
      names key e.1 = true → '#' ∉ part.2 := by
    intro part hpart hname e hcut hnames hmem
    rw [(cut_eq_some.mp hcut).1, List.mem_append, List.mem_cons] at hmem
    obtain hmem | hmem | hmem := hmem
    · rw [names_of_comment hkey hmem] at hnames
      cases hnames
    · exact absurd hmem (by decide)
    · exact hplain e (List.mem_filterMap.mpr ⟨part, hpart, by rw [if_pos hname, hcut]⟩) hnames hmem
  have hfields (line : Option (Text × Text)) : (line.bind fun e => if names key e.1 then some (fieldsFunc isFieldBreak e.2)
      else none) = (line.filter fun e => names key e.1).map fun e => fieldsFunc isFieldBreak e.2 := by
    cases line with
    | none => rfl
    | some e => by_cases hnames : names key e.1 = true <;> simp [Option.filter, hnames]
  rw [forEachKey, bodyLines_beforeComment h, List.filterMap_map, entriesIn, List.filterMap_filterMap]
  refine List.filterMap_congr fun part hpart => ?_
  rw [Function.comp_apply]
  by_cases hname : part.1 = name
  · have hsame := filter_cut_beforeComment (head_of_mem_bodyLines hpart) (hentry part hpart hname)
    rw [if_pos hname, hfields, ← hsame, ← hfields]
    cases cut '=' (beforeComment part.2) <;> simp [hname]
  · rw [if_neg hname]
    cases cut '=' (beforeComment part.2) <;> simp [hname]

/-- The peers' `AllowedIPs` lines have no `#`. -/
def PlainAllowedIPs (cfg : Text) : Prop :=
  ∀ e ∈ entriesIn peerName cfg, names allowedIPsKey e.1 = true → '#' ∉ e.2

theorem peersCarryIPv6_iff {cfg : Text} (h : PlainHeaders cfg) (hallowed : PlainAllowedIPs cfg) :
    peersCarryIPv6 cfg = true ↔ ∃ e ∈ entriesIn peerName cfg, names allowedIPsKey e.1 = true ∧ ':' ∈ e.2 := by
  have hcolon : isFieldBreak ':' = false := by decide
  rw [peersCarryIPv6, forEachKey_eq h (by decide) hallowed, List.any_eq_true]
  constructor
  · rintro ⟨fields, hfields, hany⟩
    obtain ⟨e, he, hmatch⟩ := List.mem_filterMap.mp hfields
    obtain ⟨hkey, rfl⟩ : names allowedIPsKey e.1 = true ∧ fieldsFunc isFieldBreak e.2 = fields := by
      simpa using hmatch
    obtain ⟨f, hf, hmem⟩ := List.any_eq_true.mp hany
    obtain ⟨hval, -⟩ := exists_mem_fieldsFunc.mp ⟨f, hf, by simpa using hmem⟩
    exact ⟨e, he, hkey, hval⟩
  · rintro ⟨e, he, hkey, hmem⟩
    obtain ⟨f, hf, hin⟩ := exists_mem_fieldsFunc.mpr ⟨hmem, hcolon⟩
    refine ⟨_, List.mem_filterMap.mpr ⟨e, he, if_pos hkey⟩, List.any_eq_true.mpr ⟨f, hf, ?_⟩⟩
    simpa using hin

/-! ### The lines of the request -/

/-- The values of the lines `name=value` of a request. -/
def valuesOf (name : Text) (lines : List Text) : List Text :=
  lines.filterMap fun line => match cut '=' line with
    | some part => if part.1 = name then some part.2 else none
    | none => none

def emitted (name out : Text) : List Text := valuesOf name (split '\n' out)

section Lines

variable (name : Text) {key : Text}

@[simp] theorem valuesOf_nil : valuesOf name [] = [] := rfl

@[simp] theorem valuesOf_append (a b : List Text) : valuesOf name (a ++ b) = valuesOf name a ++ valuesOf name b :=
  List.filterMap_append ..

theorem valuesOf_line (hkey : '=' ∉ key) (val : Text) :
    valuesOf name [key ++ "=".toList ++ val] = if key = name then [val] else [] := by
  have hcut : cut '=' (key ++ "=".toList ++ val) = some (key, val) := cut_eq_some.mpr ⟨by simp, hkey⟩
  rw [valuesOf, List.filterMap_cons, hcut]
  by_cases hname : key = name
  · simp [hname]
  · simp [hname]

theorem valuesOf_lineOf (hkey : '=' ∉ key) (val : Option Text) :
    valuesOf name (lineOf key val) = if key = name then (val.filter (· ≠ [])).toList else [] := by
  unfold lineOf
  cases val.filter (· ≠ []) with
  | none => simp
  | some v =>
      rw [Option.toList_some, List.map_singleton, valuesOf_line name hkey]

theorem valuesOf_eq_nil {lines : List Text} (hlines : ∀ line ∈ lines, valuesOf name [line] = []) :
    valuesOf name lines = [] := by
  induction lines with
  | nil => rfl
  | cons line rest ih =>
      rw [← List.singleton_append, valuesOf_append, hlines line (by simp), List.nil_append]
      exact ih fun line' h => hlines line' (by simp [h])

/-- The device's own lines have names of their own. -/
theorem valuesOf_device {entries : Entries} {device : List Text} (hdevice : entries.mapM deviceLine = some device)
    (hname : ∀ kv ∈ deviceKeys, kv.2 ≠ name) : valuesOf name device = [] := by
  refine valuesOf_eq_nil name fun line hline => ?_
  obtain ⟨e, -, hdev⟩ := Fallible.exists_of_mem_mapM hdevice line hline
  obtain ⟨uapiKey, hkey, hrest⟩ := Option.bind_eq_some_iff.mp hdev
  obtain ⟨val, -, hrest⟩ := Option.bind_eq_some_iff.mp hrest
  obtain rfl := Option.some.inj hrest
  obtain ⟨before, after, hsplit, -⟩ := List.lookup_eq_some_iff.mp hkey
  have hmem : (e.1, uapiKey) ∈ deviceKeys := by rw [hsplit]; simp
  have hplain : ∀ kv ∈ deviceKeys, '=' ∉ kv.2 := by decide
  rw [valuesOf_line name (hplain _ hmem), if_neg (hname _ hmem)]

theorem valuesOf_map (hkey : '=' ∉ key) (vals : List Text) :
    valuesOf name (vals.map (key ++ "=".toList ++ ·)) = if key = name then vals else [] := by
  induction vals with
  | nil => simp
  | cons val vals ih =>
      rw [List.map_cons, ← List.singleton_append, valuesOf_append, valuesOf_line name hkey, ih]
      split <;> rfl

end Lines

def allowedIPName : Text := "allowed_ip".toList

/-- The endpoint of one peer's block: the last one of its section, where that is not empty. -/
def peerEndpoint (entries : Entries) : Option Text := (lastWhere (isPeerKey .endpoint) entries).filter (· ≠ [])

theorem valuesOf_peerBlock {entries : Entries} {block : List Text} (hblock : peerBlock entries = some block) :
    valuesOf endpointKey block = (peerEndpoint entries).toList ∧
      valuesOf allowedIPName block = allowedEntries entries := by
  obtain ⟨pub, -, hrest⟩ := Option.bind_eq_some_iff.mp hblock
  obtain rfl := Option.some.inj hrest
  have hpub (name : Text) : valuesOf name ["public_key=".toList ++ pub] =
      if "public_key".toList = name then [pub] else [] :=
    valuesOf_line name (by decide : '=' ∉ "public_key".toList) pub
  have hpsk (name : Text) := valuesOf_lineOf name (by decide : '=' ∉ "preshared_key".toList)
    (lastKey (isPeerKey .presharedKey) entries)
  have hendpoint (name : Text) := valuesOf_lineOf name (by decide : '=' ∉ "endpoint".toList)
    (lastWhere (isPeerKey .endpoint) entries)
  have hkeepalive (name : Text) := valuesOf_lineOf name (by decide : '=' ∉ "persistent_keepalive_interval".toList)
    (lastWhere givesKeepalive entries)
  have hreplace (name : Text) : valuesOf name ["replace_allowed_ips=true".toList] =
      if "replace_allowed_ips".toList = name then ["true".toList] else [] :=
    valuesOf_line name (by decide : '=' ∉ "replace_allowed_ips".toList) "true".toList
  have hallowed (name : Text) : valuesOf name ((allowedEntries entries).map ("allowed_ip=".toList ++ ·)) =
      if "allowed_ip".toList = name then allowedEntries entries else [] :=
    valuesOf_map name (by decide : '=' ∉ "allowed_ip".toList) (allowedEntries entries)
  simp only [valuesOf_append, hpub, hpsk, hendpoint, hkeepalive, hreplace, hallowed]
  constructor
  · have hname : "endpoint".toList = endpointKey := rfl
    rw [if_neg (by decide), if_neg (by decide), if_pos hname, if_neg (by decide), if_neg (by decide),
      if_neg (by decide)]
    simp [peerEndpoint]
  · have hname : "allowed_ip".toList = allowedIPName := rfl
    rw [if_neg (by decide), if_neg (by decide), if_neg (by decide), if_neg (by decide), if_neg (by decide),
      if_pos hname]
    simp

theorem valuesOf_blocks {all : List Entries} {blocks : List (List Text)} (hblocks : all.mapM peerBlock = some blocks) :
    valuesOf endpointKey blocks.flatten = all.flatMap (fun entries => (peerEndpoint entries).toList) ∧
      valuesOf allowedIPName blocks.flatten = all.flatMap allowedEntries := by
  induction all generalizing blocks with
  | nil =>
      obtain rfl : [] = blocks := by simpa using hblocks
      exact ⟨rfl, rfl⟩
  | cons entries all ih =>
      rw [List.mapM_cons] at hblocks
      obtain ⟨block, hblock, hrest⟩ := Option.bind_eq_some_iff.mp hblocks
      obtain ⟨blocks', hblocks', hrest⟩ := Option.bind_eq_some_iff.mp hrest
      obtain rfl := Option.some.inj hrest
      obtain ⟨hendpoint, hallowed⟩ := valuesOf_peerBlock hblock
      obtain ⟨hendpoints, hallowedAll⟩ := ih hblocks'
      simp only [List.flatten_cons, valuesOf_append, List.flatMap_cons]
      rw [hendpoint, hallowed, hendpoints, hallowedAll]
      exact ⟨rfl, rfl⟩

/-- The server and the allowed addresses the request has, as the peers' sections give them. -/
theorem emitted_of_parse {cfg out : Text} (hok : parseToUAPI cfg = .ok out) :
    emitted endpointKey out =
        (peerSections (configSections cfg)).flatMap (fun entries => (peerEndpoint entries).toList) ∧
      emitted allowedIPName out = (peerSections (configSections cfg)).flatMap allowedEntries := by
  obtain ⟨lines, hsplit, ⟨priv, device, blocks, -, -, hdevice, hblocks, -, rfl⟩, -⟩ := describes_of_parse hok
  obtain ⟨hendpoint, hallowed⟩ := valuesOf_blocks hblocks
  have hhead (name : Text) (hne : name ≠ "replace_peers".toList ∧ name ≠ "private_key".toList) :
      valuesOf name ["replace_peers=true".toList, "private_key=".toList ++ priv] = [] := by
    have hfirst : valuesOf name ["replace_peers=true".toList] =
        if "replace_peers".toList = name then ["true".toList] else [] :=
      valuesOf_line name (by decide : '=' ∉ "replace_peers".toList) "true".toList
    have hsecond : valuesOf name ["private_key=".toList ++ priv] =
        if "private_key".toList = name then [priv] else [] :=
      valuesOf_line name (by decide : '=' ∉ "private_key".toList) priv
    rw [← List.singleton_append, valuesOf_append, hfirst, hsecond, if_neg hne.1.symm, if_neg hne.2.symm]
    rfl
  have hlisten (name : Text) := valuesOf_lineOf name (by decide : '=' ∉ "listen_port".toList)
    (lastWhere (isInterfaceKey .listenPort) (interfaceEntries (configSections cfg)))
  have hlast (name : Text) : valuesOf name [[]] = [] := rfl
  unfold emitted
  rw [hsplit]
  simp only [valuesOf_append, hlisten, hlast]
  constructor
  · rw [hhead _ (by decide), if_neg (by decide), valuesOf_device _ hdevice (by decide), hendpoint]
    simp
  · rw [hhead _ (by decide), if_neg (by decide), valuesOf_device _ hdevice (by decide), hallowed]
    simp

/-! ### Peers, line by line -/

theorem mem_peerKeys {name : PeerKey} {e : Text × Text} (h : isPeerKey name e = true) : (e.1, name) ∈ peerKeys := by
  obtain ⟨before, after, hsplit, -⟩ := List.lookup_eq_some_iff.mp (of_decide_eq_true h)
  rw [hsplit]
  simp

theorem isPeerKey_allowedIPs (e : Text × Text) : isPeerKey .allowedIPs e = true ↔ e.1 = allowedIPsKey := by
  constructor
  · intro h
    have hall : ∀ kv ∈ peerKeys, kv.2 = .allowedIPs → kv.1 = allowedIPsKey := by decide
    exact hall _ (mem_peerKeys h) rfl
  · intro h
    rw [isPeerKey, h]
    decide

theorem exists_mem_allowedIPs (val : Text) : (∃ ip ∈ allowedIPs val, ':' ∈ ip) ↔ ':' ∈ val := by
  have hspace : isSpace ':' = false := by decide
  constructor
  · rintro ⟨ip, hip, hcolon⟩
    obtain ⟨part, hpart, rfl⟩ := List.mem_map.mp (List.mem_filter.mp hip).1
    exact mem_of_mem_split hpart (mem_of_mem_trim hcolon)
  · intro hcolon
    obtain ⟨part, hpart, hmem⟩ := (mem_split_or ',' hcolon).resolve_left (by decide)
    have htrim : ':' ∈ trimSpace part := (mem_trim_or hmem).resolve_left (by simp [hspace])
    refine ⟨trimSpace part, List.mem_filter.mpr ⟨List.mem_map_of_mem hpart, ?_⟩, htrim⟩
    simpa using List.ne_nil_of_mem htrim

/-- The entry the pass makes of a key and a value as they stand in the text. -/
def tidyEntry (e : Text × Text) : Text × Text := (toLower (trimSpace e.1), trimSpace e.2)

theorem readLine_eq (l : Text) : readLine l =
    if trimSpace l = [] ∨ (trimSpace l).head? = some '#' ∨ (trimSpace l).head? = some ';' then none
    else if IsHeader (trimSpace l) then some (.header (readHeader (trimSpace l)))
    else (cut '=' (trimSpace l)).map fun e => .entry (tidyEntry e).1 (tidyEntry e).2 := rfl

theorem readHeader_eq_peer (line : Text) : readHeader line = .peer ↔ headerName line = peerName := by
  have hread : readHeader line = if headerName line = interfaceName then .interface
      else if headerName line = peerName then .peer else .other := rfl
  rw [hread]
  by_cases hinterface : headerName line = interfaceName
  · rw [if_pos hinterface, hinterface]
    decide
  · rw [if_neg hinterface]
    by_cases hpeer : headerName line = peerName
    · rw [if_pos hpeer]
      exact iff_of_true rfl hpeer
    · rw [if_neg hpeer]
      exact iff_of_false (by decide) hpeer

theorem flatten_peerSections_cons (name : Section) (entries : Entries) (all : List (Section × Entries)) :
    (peerSections ((name, entries) :: all)).flatten =
      (if name = .peer then entries else []) ++ (peerSections all).flatten := by
  rw [← List.singleton_append, peerSections_append, List.flatten_append, peerSections_singleton]
  split <;> simp

/-- The entries of the peers' sections, read by name: the line scan's state says what the sections' one does. -/
theorem flatten_peerSections (lines : List Text) (name : Section) (current : Text) (entries : Entries)
    (hname : name = .peer ↔ current = peerName) :
    (peerSections (sections name entries (lines.filterMap readLine))).flatten =
      (if name = .peer then entries else []) ++ ((bodyLines id current lines).filterMap fun part =>
        if part.1 = peerName then cut '=' part.2 else none).map tidyEntry := by
  induction lines generalizing name current entries with
  | nil =>
      rw [List.filterMap_nil, sections, flatten_peerSections_cons]
      rfl
  | cons l rest ih =>
      rw [List.filterMap_cons, readLine_eq, bodyLines, id]
      by_cases hskip : trimSpace l = [] ∨ (trimSpace l).head? = some '#' ∨ (trimSpace l).head? = some ';'
      · simp only [if_pos hskip]
        exact ih name current entries hname
      simp only [if_neg hskip]
      by_cases hheader : IsHeader (trimSpace l)
      · simp only [if_pos hheader]
        rw [sections, flatten_peerSections_cons, ih _ _ _ (readHeader_eq_peer (trimSpace l))]
        simp
      simp only [if_neg hheader, List.filterMap_cons]
      cases hcut : cut '=' (trimSpace l) with
      | none =>
          have hnone : (if current = peerName then (none : Option (Text × Text)) else none) = none := ite_self _
          simp only [Option.map_none, hnone]
          exact ih name current entries hname
      | some part =>
          simp only [Option.map_some, sections]
          rw [ih name current _ hname]
          by_cases hpeer : name = .peer
          · simp [hpeer, hname.mp hpeer]
          · simp [hpeer, mt hname.mpr hpeer]

theorem flatten_peerSections_config (cfg : Text) :
    (peerSections (configSections cfg)).flatten = (entriesIn peerName cfg).map tidyEntry :=
  (flatten_peerSections (split '\n' cfg) .other [] [] (by decide)).trans (List.nil_append _)

/-- An address with a colon among the allowed ones of the request is a colon in an `AllowedIPs` line of a peer. -/
theorem exists_emitted_allowedIP {cfg out : Text} (hok : parseToUAPI cfg = .ok out) :
    (∃ ip ∈ emitted allowedIPName out, ':' ∈ ip) ↔
      ∃ e ∈ entriesIn peerName cfg, names allowedIPsKey e.1 = true ∧ ':' ∈ e.2 := by
  have hflat := flatten_peerSections_config cfg
  have hcolon : isSpace ':' = false := by decide
  rw [(emitted_of_parse hok).2]
  constructor
  · rintro ⟨ip, hip, hmem⟩
    obtain ⟨entries, hentries, hip⟩ := List.mem_flatMap.mp hip
    obtain ⟨e, he, hip⟩ := List.mem_flatMap.mp hip
    obtain ⟨he, hkey⟩ := List.mem_filter.mp he
    have he' : e ∈ (entriesIn peerName cfg).map tidyEntry := hflat ▸ List.mem_flatten.mpr ⟨entries, hentries, he⟩
    obtain ⟨raw, hraw, rfl⟩ := List.mem_map.mp he'
    refine ⟨raw, hraw, decide_eq_true ((isPeerKey_allowedIPs _).mp hkey), ?_⟩
    exact mem_of_mem_trim ((exists_mem_allowedIPs _).mp ⟨ip, hip, hmem⟩)
  · rintro ⟨raw, hraw, hkey, hmem⟩
    have he : tidyEntry raw ∈ (peerSections (configSections cfg)).flatten := hflat ▸ List.mem_map_of_mem hraw
    obtain ⟨entries, hentries, he⟩ := List.mem_flatten.mp he
    have htrim : ':' ∈ (tidyEntry raw).2 := (mem_trim_or hmem).resolve_left (by simp [hcolon])
    obtain ⟨ip, hip, hmem⟩ := (exists_mem_allowedIPs _).mpr htrim
    have hpeer : isPeerKey .allowedIPs (tidyEntry raw) = true := (isPeerKey_allowedIPs _).mpr (of_decide_eq_true hkey)
    refine ⟨ip, List.mem_flatMap.mpr ⟨entries, hentries, ?_⟩, hmem⟩
    exact List.mem_flatMap.mpr ⟨tidyEntry raw, List.mem_filter.mpr ⟨he, hpeer⟩, hip⟩

/-! ### The server -/

/-- The first line whose key begins with the word, in whatever section it stands. -/
def firstBeginning (word cfg : Text) : Option (Text × Text) :=
  ((configSections cfg).flatMap (·.2)).find? fun e => begins word e.1

def entryOf : Item → Option (Text × Text)
  | .entry key val => some (key, val)
  | .header _ => none

theorem flatMap_sections (items : List Item) (name : Section) (entries : Entries) :
    (sections name entries items).flatMap (·.2) = entries ++ items.filterMap entryOf := by
  induction items generalizing name entries with
  | nil => simp [sections]
  | cons item items ih =>
      cases item with
      | header name' =>
          rw [sections, List.flatMap_cons, ih, List.nil_append]
          rfl
      | entry key val =>
          rw [sections, ih, List.append_assoc]
          rfl

/-- A comment and a header begin with no letter. -/
theorem not_begins_of_head {line : Text} {c : Char} (hhead : line.head? = some c) (hc : c ∈ ['#', ';', '[']) :
    begins endpointKey line = false := by
  obtain ⟨rest, rfl⟩ := List.head?_eq_some_iff.mp hhead
  have hfirst : ∀ c ∈ ['#', ';', '['], 'e' ≠ toLowerRune c := List.forall_iff_forall_mem.mp (by decide)
  refine Bool.eq_false_iff.mpr fun h => hfirst c hc ?_
  exact (List.cons_prefix_cons.mp (List.isPrefixOf_iff_prefix.mp h)).1

theorem endpointOfLine_eq (l : Text) : endpointOfLine l =
    (((readLine l).bind entryOf).filter fun e => begins endpointKey e.1).map (·.2) := by
  have hhead := (edges_trim isSpace l).1
  rw [← trimSpace] at hhead
  rw [endpointOfLine, readLine_eq]
  generalize trimSpace l = line at hhead
  by_cases hskip : line = [] ∨ line.head? = some '#' ∨ line.head? = some ';'
  · have hnot : begins endpointKey line = false := by
      obtain rfl | hcomment | hcomment := hskip
      · rfl
      · exact not_begins_of_head hcomment (by decide)
      · exact not_begins_of_head hcomment (by decide)
    rw [if_pos hskip, hnot]
    rfl
  rw [if_neg hskip]
  by_cases hheader : IsHeader line
  · rw [if_pos hheader, not_begins_of_head hheader.1 (by decide)]
    rfl
  rw [if_neg hheader]
  cases hcut : cut '=' line with
  | none => simp
  | some part =>
      obtain ⟨key, val⟩ := part
      have hkey : ∀ c ∈ key.head?, isSpace c = false := by
        intro c hc
        refine hhead c ?_
        rw [(cut_eq_some.mp hcut).1, List.head?_append, Option.mem_def.mp hc]
        rfl
      rw [begins_cut (by decide) hcut, ← begins_trimSpace hkey (List.forall_iff_forall_mem.mp (by decide))]
      show _ = ((some (tidyEntry (key, val))).filter fun e => begins endpointKey e.1).map _
      rw [Option.filter_some, tidyEntry]
      cases begins endpointKey (toLower (trimSpace key)) <;> rfl

theorem endpointValue_eq (cfg : Text) : endpointValue cfg = ((firstBeginning endpointKey cfg).map (·.2)).getD [] := by
  rw [endpointValue, firstBeginning, configSections, flatMap_sections, List.nil_append, List.filterMap_filterMap,
    ← List.head?_filter, List.filter_filterMap, ← List.head?_map, List.map_filterMap, ← List.head?_filterMap]
  simp only [endpointOfLine_eq]

theorem exists_firstBeginning {word cfg : Text} {entries : Entries} (hentries : entries ∈ peerSections (configSections cfg))
    {e : Text × Text} (he : e ∈ entries) (hbegins : begins word e.1 = true) : ∃ e, firstBeginning word cfg = some e := by
  obtain ⟨part, hpart, rfl⟩ := List.mem_map.mp hentries
  refine Option.isSome_iff_exists.mp (List.find?_isSome.mpr ⟨e, ?_, hbegins⟩)
  exact List.mem_flatMap.mpr ⟨part, (List.mem_filter.mp hpart).1, he⟩

theorem exists_of_peerEndpoint {entries : Entries} {val : Text} (h : peerEndpoint entries = some val) :
    ∃ e ∈ entries, begins endpointKey e.1 = true := by
  obtain ⟨hlast, -⟩ := Option.filter_eq_some_iff.mp h
  obtain ⟨e, he, -⟩ := Option.map_eq_some_iff.mp hlast
  obtain ⟨hmem, hkey⟩ := List.mem_filter.mp (List.mem_of_mem_getLast? he)
  have hall : ∀ kv ∈ peerKeys, kv.2 = .endpoint → begins endpointKey kv.1 = true := by decide
  exact ⟨e, hmem, hall _ (mem_peerKeys hkey) rfl⟩

/-- The first section with a line that begins with `endpoint` is a peer's, and the value of its first such line is that of
its last `Endpoint` and not empty; or that value is empty, and so is the last `Endpoint` of every peer. -/
def PlainServer (cfg : Text) : Prop :=
  ∀ part ∈ (configSections cfg).find? fun part => part.2.any fun e => begins endpointKey e.1,
    ∀ e ∈ part.2.find? fun e => begins endpointKey e.1,
      (part.1 = .peer ∧ e.2 ≠ [] ∧ lastWhere (isPeerKey .endpoint) part.2 = some e.2) ∨
        (e.2 = [] ∧ ∀ entries ∈ peerSections (configSections cfg), peerEndpoint entries = none)

/-- Sections without a line that begins with `endpoint` have no server for either reader. -/
theorem findSome?_of_silent {all : List (Section × Entries)}
    (h : ∀ part ∈ all, ¬(part.2.any fun e => begins endpointKey e.1) = true) :
    (all.findSome? fun part => part.2.find? fun e => begins endpointKey e.1) = none ∧
      (peerSections all).findSome? peerEndpoint = none := by
  refine ⟨List.findSome?_eq_none_iff.mpr fun part hpart => List.find?_eq_none.mpr fun e he hbegins =>
    h part hpart (List.any_eq_true.mpr ⟨e, he, hbegins⟩), List.findSome?_eq_none_iff.mpr fun entries hentries => ?_⟩
  obtain ⟨part, hpart, rfl⟩ := List.mem_map.mp hentries
  refine Option.eq_none_iff_forall_ne_some.mpr fun val hval => ?_
  obtain ⟨e, he, hbegins⟩ := exists_of_peerEndpoint hval
  exact h part (List.mem_filter.mp hpart).1 (List.any_eq_true.mpr ⟨e, he, hbegins⟩)

theorem endpointValue_of_plain {cfg : Text} (h : PlainServer cfg) :
    endpointValue cfg = ((peerSections (configSections cfg)).findSome? peerEndpoint).getD [] := by
  rw [endpointValue_eq, firstBeginning, List.find?_flatMap]
  rw [PlainServer] at h
  cases hfind : (configSections cfg).find? fun part => part.2.any fun e => begins endpointKey e.1 with
  | none =>
      obtain ⟨hnone, hnone'⟩ := findSome?_of_silent (List.find?_eq_none.mp hfind)
      rw [hnone, hnone']
      rfl
  | some part =>
      obtain ⟨hany, before, after, hall, hbefore⟩ := List.find?_eq_some_iff_append.mp hfind
      have hquiet : ∀ part ∈ before, ¬(part.2.any fun e => begins endpointKey e.1) = true := fun part hpart => by
        simpa using hbefore part hpart
      obtain ⟨hnone, hnone'⟩ := findSome?_of_silent hquiet
      obtain ⟨e, he⟩ : ∃ e, (part.2.find? fun e => begins endpointKey e.1) = some e :=
        Option.isSome_iff_exists.mp (by simpa [List.find?_isSome] using hany)
      have hfirst : ((configSections cfg).findSome? fun part => part.2.find? fun e => begins endpointKey e.1) = some e := by
        rw [hall, List.findSome?_append, hnone, List.findSome?_cons, he]
        rfl
      rw [hfirst]
      obtain ⟨hpeer, hne, hlast⟩ | ⟨hempty, hpeers⟩ := h part hfind e he
      · have hserver : peerEndpoint part.2 = some e.2 := by
          rw [peerEndpoint, hlast]
          exact Option.filter_eq_some_iff.mpr ⟨rfl, by simpa using hne⟩
        rw [hall, ← List.singleton_append, peerSections_append, peerSections_append, List.findSome?_append, hnone',
          show peerSections [part] = [part.2] by simp [peerSections, hpeer], List.singleton_append, List.findSome?_cons,
          hserver]
        rfl
      · rw [List.findSome?_eq_none_iff.mpr hpeers, Option.map_some, hempty]
        rfl

/-! ### When they agree -/

def isPlainRune (c : Char) : Bool := c != ';' && c != '#' && (!isSpace c || c == ' ' || c == '\t')

/-- The interface's lines that begin with `address` are `Address` lines, with commas, spaces and tabs between the addresses
and no comment. -/
def PlainAddress (cfg : Text) : Prop :=
  ∀ e ∈ entriesIn interfaceName cfg, begins addressKey e.1 = true →
    names addressKey e.1 = true ∧ e.2.all isPlainRune = true

/-- An entry is one of a key that begins with the word. -/
theorem begins_of_names {word key : Text} (hkey : ∀ c ∈ key.head?, isSpace c = false) (h : names word key = true) :
    begins word key = true := by
  obtain ⟨space, hsplit, -⟩ := exists_trimmed_key key hkey
  rw [begins, List.isPrefixOf_iff_prefix, ← of_decide_eq_true h]
  conv_rhs => rw [hsplit, toLower, List.map_append]
  exact List.prefix_append _ _

theorem isFieldBreak_of_plain {c : Char} (h : isPlainRune c = true) : isFieldBreak c = isAddressBreak c := by
  simp only [isPlainRune, Bool.and_eq_true, bne_iff_ne, Bool.or_eq_true, Bool.not_eq_true', beq_iff_eq] at h
  obtain ⟨⟨hsemi, -⟩, (hspace | rfl) | rfl⟩ := h
  · have hbreak (d : Char) (hd : isSpace d = true) : (c == d) = false := beq_eq_false_iff_ne.mpr fun heq => by
      rw [heq, hd] at hspace
      cases hspace
    rw [isFieldBreak, isAddressBreak, beq_eq_false_iff_ne.mpr hsemi, hbreak ' ' rfl, hbreak '\t' rfl, hspace]
    simp
  · decide
  · decide

theorem address_of_plain {cfg : Text} (hheaders : PlainHeaders cfg) (h : PlainAddress cfg) :
    address cfg = (addresses cfg).head?.getD [] := by
  have hbegins : ∀ e ∈ entriesIn interfaceName cfg, names addressKey e.1 = true → begins addressKey e.1 = true :=
    fun e he => begins_of_names (key_of_mem_entriesIn he)
  rw [address_eq, addresses, forEachKey_eq hheaders (by decide) fun e he hkey hmem =>
    absurd (List.all_eq_true.mp (h e he (hbegins e he hkey)).2 '#' hmem) (by decide), List.head?_flatten, ← List.head?_filterMap, ← List.head?_filterMap,
    List.filterMap_filterMap]
  congr 2
  refine List.filterMap_congr fun e he => ?_
  by_cases hkey : begins addressKey e.1 = true
  · obtain ⟨hnames, hruns⟩ := h e he hkey
    rw [if_pos hkey, if_pos hnames, Option.bind_some,
      fieldsFunc_congr fun c hc => isFieldBreak_of_plain (List.all_eq_true.mp hruns c hc)]
  · rw [if_neg hkey, if_neg fun hnames => hkey (hbegins e he hnames)]
    rfl

theorem ne_nil_of_mem_addresses {cfg f : Text} (hf : f ∈ addresses cfg) : f ≠ [] := by
  obtain ⟨fields, hfields, hf⟩ := List.mem_flatten.mp hf
  obtain ⟨part, -, hpart⟩ := List.mem_filterMap.mp hfields
  split at hpart
  · split at hpart
    · cases hpart
      exact ne_nil_of_mem_fieldsFunc hf
    · cases hpart
  · cases hpart

/-- One peer with one endpoint, both kinds of addresses and a comment on a line of its own. -/
def plainConfig : Text :=
  "# home\n[Interface]\nPrivateKey=".toList ++ List.replicate 64 '1' ++
    "\nAddress = 10.0.0.2/32, fd00::2/128\n[Peer]\nPublicKey=".toList ++ List.replicate 64 '2' ++
    "\nEndpoint = vpn.example:51820\nAllowedIPs = 0.0.0.0/0, ::/0".toList

def plainRequest : Text :=
  "replace_peers=true\nprivate_key=".toList ++ List.replicate 64 '1' ++ "\npublic_key=".toList ++
    List.replicate 64 '2' ++
    "\nendpoint=vpn.example:51820\nreplace_allowed_ips=true\nallowed_ip=0.0.0.0/0\nallowed_ip=::/0\n".toList

/-- Two endpoints for one peer, a comment behind its addresses and a semicolon between the interface's. -/
def mixedConfig : Text :=
  "[Interface]\nPrivateKey=".toList ++ List.replicate 64 '1' ++
    "\nAddress = 10.0.0.2/32;fd00::2/128\n[Peer]\nPublicKey=".toList ++ List.replicate 64 '2' ++
    "\nEndpoint = a:1\nEndpoint = b:2\nAllowedIPs = 0.0.0.0/0 # ::/0".toList

def mixedRequest : Text :=
  "replace_peers=true\nprivate_key=".toList ++ List.replicate 64 '1' ++ "\npublic_key=".toList ++
    List.replicate 64 '2' ++ "\nendpoint=b:2\nreplace_allowed_ips=true\nallowed_ip=0.0.0.0/0 # ::/0\n".toList

end GlitchCore.Awg
