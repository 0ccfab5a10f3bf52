import GlitchCore.Base.Anchored
import GlitchCore.Base.Fields
import GlitchCore.Base.HostPort

/-!
# Records of rejected connections

A rejected connection is reported from the line mihomo writes when a rule matches it. The line is read back with one
regular expression, whose lazy and optional groups have to find the ends of two free texts: the name of the process in
front of the arrow and the payload of the rule behind it.

`Parts` are the fields of such a line. What the expression matches is the line of some parts, and where the source and
the rule type hold no parenthesis the match is the one with these parts, so the question is which parts a printed line
can be read as. The detail of a process ends at its first closing parenthesis; a name that holds one is cut there, and
then either there is no match or the rest of the name and the destination end up in the payload of the rule.
-/

namespace GlitchCore.Core.Rejected

open GoText HostPort Regex

structure Record where
  engine : Text
  src : Text
  status : Text
  network : Text
  host : Text
  port : Text
  inbound : Text := []
  outbound : Text
  rule : Text
deriving DecidableEq

def isMihomoReject (outbound : Text) : Bool := outbound == "REJECT".toList || outbound == "REJECT-DROP".toList

/-- The class `\S`. -/
def nonBlank : Expr := .rune fun c => !isBlank c

def detailExpr : Expr := optional (sequence [literal "(".toList, .star (.rune (· != ')')), literal ")".toList])

def payloadExpr : Expr := optional (sequence [literal "(".toList, .group 5 (.star (.rune (· != '\n'))), literal ")".toList])

/-- The expression between its anchors. -/
def mihomoMatchLine : Expr :=
  sequence [literal "[".toList, .group 1 (choice [literal "TCP".toList, literal "UDP".toList]), literal "] ".toList,
    .group 2 (lazyPlus nonBlank), detailExpr, literal " --> ".toList, .group 3 (plus nonBlank), literal " match ".toList,
    .group 4 (lazyPlus nonBlank), payloadExpr, literal " using ".toList, .group 6 (plus nonBlank)]

def mihomoRejectRecord (line : Text) : Option Record :=
  (mihomoMatchLine.fullMatch line).bind fun m =>
    if isMihomoReject (m.group 6) then
      let dest := (splitHostPort (m.group 3)).getD (m.group 3, [])
      some
        { engine := "mihomo".toList
          src := m.group 2
          status := "rejected".toList
          network := toLower (m.group 1)
          host := dest.1
          port := dest.2
          outbound := m.group 6
          rule := trimSpace (m.group 4 ++ ' ' :: m.group 5) }
    else none

/-! ### The fields of a line -/

structure Parts where
  network : Text
  source : Text
  detail : Option Text
  destination : Text
  ruleType : Text
  payload : Option Text
  outbound : Text

/-- A text in parentheses, if there is one. -/
def aside : Option Text → Text
  | none => []
  | some t => '(' :: t ++ [')']

theorem mem_aside {o : Option Text} {c : Char} (hopen : c ≠ '(') (hclose : c ≠ ')') :
    c ∈ aside o ↔ ∃ t ∈ o, c ∈ t := by
  cases o with
  | none => simp [aside]
  | some t => simp [aside, hopen, hclose]

namespace Parts

def line (l : Parts) : Text :=
  ["[".toList, l.network, "] ".toList, l.source, aside l.detail, " --> ".toList, l.destination, " match ".toList,
    l.ruleType, aside l.payload, " using ".toList, l.outbound].flatten

def groups (l : Parts) : List (Nat × Text) :=
  (6, l.outbound) :: (l.payload.toList.map fun y => (5, y)) ++
    [(4, l.ruleType), (3, l.destination), (2, l.source), (1, l.network)]

def record (l : Parts) : Record :=
  let dest := (splitHostPort l.destination).getD (l.destination, [])
  { engine := "mihomo".toList
    src := l.source
    status := "rejected".toList
    network := toLower l.network
    host := dest.1
    port := dest.2
    outbound := l.outbound
    rule := trimSpace (l.ruleType ++ ' ' :: l.payload.getD []) }

end Parts

/-- A text `\S+` reads. -/
def IsWord (s : Text) : Prop := s ≠ [] ∧ ∀ c ∈ s, isBlank c = false

/-- What the expression asks of the fields. -/
structure Parts.Readable (l : Parts) : Prop where
  network : l.network = "TCP".toList ∨ l.network = "UDP".toList
  source : IsWord l.source
  detail : ∀ x ∈ l.detail, ')' ∉ x
  destination : IsWord l.destination
  ruleType : IsWord l.ruleType
  payload : ∀ y ∈ l.payload, '\n' ∉ y
  outbound : IsWord l.outbound

section Matches

variable {l : Parts} {p q : Pos} {s w r : Text}

theorem reads_plus_nonBlank : (plus nonBlank).Reads w ↔ IsWord w := by
  constructor
  · rintro ⟨_, v, rfl, ⟨c, rfl, hc⟩, hv⟩
    refine ⟨List.cons_ne_nil c v, List.forall_mem_cons.mpr ⟨(Bool.not_eq_true' _).mp hc, fun d hd => ?_⟩⟩
    exact (Bool.not_eq_true' _).mp (reads_star_rune.mp hv d hd)
  · rintro ⟨hne, hall⟩
    obtain ⟨c, v, rfl⟩ := List.exists_cons_of_ne_nil hne
    obtain ⟨hc, hv⟩ := List.forall_mem_cons.mp hall
    refine ⟨[c], v, rfl, ⟨c, rfl, (Bool.not_eq_true' _).mpr hc⟩, reads_star_rune.mpr fun d hd => ?_⟩
    exact (Bool.not_eq_true' _).mpr (hv d hd)

/-- Greedy or lazy, the loop reads the same texts. -/
theorem reads_lazyPlus_nonBlank : (lazyPlus nonBlank).Reads w ↔ IsWord w := reads_plus_nonBlank

theorem mem_detail (hq : q ∈ detailExpr.outcomes p) :
    ∃ detail r, p.rest = aside detail ++ r ∧ q = p.after (aside detail) r ∧ ∀ x ∈ detail, ')' ∉ x := by
  obtain ⟨w, r, hrest, rfl, hread⟩ := (mem_outcomes (e := detailExpr) rfl p q).mp hq
  obtain ⟨_, _, rfl, hopen, x, _, rfl, hx, _, _, rfl, hclose, rfl⟩ | rfl := hread
  · obtain rfl := reads_literal.mp hopen
    obtain rfl := reads_literal.mp hclose
    refine ⟨some x, r, hrest, rfl, ?_⟩
    rintro _ ⟨⟩ hmem
    exact absurd (reads_star_rune.mp hx ')' hmem) (by decide)
  · exact ⟨none, r, hrest, rfl, nofun⟩

theorem mem_payload (hq : q ∈ payloadExpr.outcomes p) : ∃ payload, p.rest = aside payload ++ q.rest ∧
    q.groups = (payload.toList.map fun y => (5, y)) ++ p.groups ∧ ∀ y ∈ payload, '\n' ∉ y := by
  obtain hq | hq := List.mem_append.mp hq
  · obtain ⟨p₁, hp₁, hq⟩ := List.mem_flatMap.mp hq
    obtain ⟨p₂, hp₂, hq⟩ := List.mem_flatMap.mp hq
    obtain ⟨p₃, hp₃, hq⟩ := List.mem_flatMap.mp hq
    obtain rfl := List.mem_singleton.mp hq
    obtain ⟨r₁, hrest, rfl⟩ := mem_literal.mp hp₁
    obtain ⟨y, r₂, hy, rfl, hread⟩ := (mem_group rfl).mp hp₂
    obtain ⟨r₃, hclose, rfl⟩ := mem_literal.mp hp₃
    refine ⟨some y, ?_, rfl, ?_⟩
    · rw [hrest, show r₁ = y ++ r₂ from hy, show r₂ = ")".toList ++ r₃ from hclose]
      exact congrArg ('(' :: ·) (List.append_assoc y [')'] r₃).symm
    · rintro _ ⟨⟩ hmem
      exact absurd (reads_star_rune.mp hread '\n' hmem) (by decide)
  · obtain rfl := List.mem_singleton.mp hq
    exact ⟨none, rfl, rfl, nofun⟩

/-- What is matched is the line of some parts. -/
theorem exists_parts (hq : q ∈ mihomoMatchLine.complete ⟨none, s, []⟩) :
    ∃ l : Parts, l.Readable ∧ s = l.line ∧ q.groups = l.groups := by
  obtain ⟨r₁, rfl : s = _, h₁⟩ := mem_complete_literal.mp hq
  obtain ⟨network, r₂, rfl : r₁ = _, hnetwork, h₂⟩ := (mem_complete_group rfl).mp h₁
  obtain ⟨r₃, rfl : r₂ = _, h₃⟩ := mem_complete_literal.mp h₂
  obtain ⟨source, r₄, rfl : r₃ = _, hsource, h₄⟩ := (mem_complete_group rfl).mp h₃
  obtain ⟨_, hmem₅, h₅⟩ := mem_complete_cons.mp h₄
  obtain ⟨detail, r₅, rfl : r₄ = _, rfl, hdetail⟩ := mem_detail hmem₅
  obtain ⟨r₆, rfl : r₅ = _, h₆⟩ := mem_complete_literal.mp h₅
  obtain ⟨destination, r₇, rfl : r₆ = _, hdestination, h₇⟩ := (mem_complete_group rfl).mp h₆
  obtain ⟨r₈, rfl : r₇ = _, h₈⟩ := mem_complete_literal.mp h₇
  obtain ⟨ruleType, r₉, rfl : r₈ = _, hruleType, h₉⟩ := (mem_complete_group rfl).mp h₈
  obtain ⟨p₁₀, hmem₁₀, h₁₀⟩ := mem_complete_cons.mp h₉
  obtain ⟨payload, rfl : r₉ = _, hgroups, hpayload⟩ := mem_payload hmem₁₀
  obtain ⟨r₁₁, hrest, h₁₁⟩ := mem_complete_literal.mp h₁₀
  obtain ⟨outbound, r₁₂, rfl : r₁₁ = _, houtbound, h₁₂⟩ := (mem_complete_group rfl).mp h₁₁
  obtain ⟨rfl, rfl : r₁₂ = []⟩ := mem_complete_nil.mp h₁₂
  refine ⟨⟨network, source, detail, destination, ruleType, payload, outbound⟩, ?_, ?_, ?_⟩
  · refine ⟨?_, reads_lazyPlus_nonBlank.mp hsource, hdetail, reads_plus_nonBlank.mp hdestination,
      reads_lazyPlus_nonBlank.mp hruleType, hpayload, reads_plus_nonBlank.mp houtbound⟩
    exact hnetwork.imp reads_literal.mp reads_literal.mp
  · rw [hrest]
    rfl
  · exact congrArg ((6, outbound) :: ·) hgroups

end Matches

/-! ### The first match -/

section First

variable {p : Pos} {w r : Text} {es : List Expr} {outbound : Text} {payload : Option Text}

/-- Neither a parenthesis nor a word can begin here. -/
theorem blocked {c : Char} {u v : Text} {ds : List Expr} (hrest : p.rest.head? = some c) (hopen : c ≠ '(')
    (hblank : c ≠ ' ') :
    (sequence (optional (sequence (literal ('(' :: u) :: ds)) :: literal (' ' :: v) :: es)).complete p = [] := by
  rw [complete_optional_of_ne, complete_literal_of_ne]
  · rw [hrest]
    exact fun h => hblank (Option.some.inj h)
  · rw [hrest]
    exact fun h => hopen (Option.some.inj h)

/-- A word cannot be left before its end. -/
theorem blocked_in {u v z : Text} {ds : List Expr} (hw : IsWord w) (hopen : '(' ∉ w) (huv : w = u ++ v) (hv : v ≠ [])
    (hrest : p.rest = v ++ r) :
    (sequence (optional (sequence (literal "(".toList :: ds)) :: literal (' ' :: z) :: es)).complete p = [] := by
  obtain ⟨c, v, rfl⟩ := List.exists_cons_of_ne_nil hv
  have hmem : c ∈ w := by
    rw [huv]
    exact List.mem_append_right u List.mem_cons_self
  refine blocked (c := c) (by rw [hrest]; rfl) (fun heq => hopen (heq ▸ hmem)) fun heq => ?_
  exact absurd (hw.2 c hmem) (by rw [heq]; decide)

theorem finds_outbound (houtbound : IsWord outbound) (hrest : p.rest = " using ".toList ++ (outbound ++ [])) :
    (sequence [literal " using ".toList, .group 6 (plus nonBlank)]).Finds p ((6, outbound) :: p.groups) := by
  have hword : ∀ c ∈ outbound, (!isBlank c) = true := fun c hc => (Bool.not_eq_true' _).mpr (houtbound.2 c hc)
  refine .of_eq ?_ (complete_literal hrest)
  refine .of_append ?_ (complete_group_plus rfl houtbound.1 hword nofun)
  exact ⟨_, [], complete_sequence_nil rfl, rfl⟩

theorem finds_payload (hpayload : ∀ y ∈ payload, '\n' ∉ y) (houtbound : IsWord outbound) (hclose : ')' ∉ outbound)
    (hrest : p.rest = aside payload ++ (" using ".toList ++ (outbound ++ []))) :
    (sequence [payloadExpr, literal " using ".toList, .group 6 (plus nonBlank)]).Finds p
      ((6, outbound) :: (payload.toList.map fun y => (5, y)) ++ p.groups) := by
  cases payload with
  | none =>
      refine (finds_outbound houtbound hrest).of_eq (complete_optional_of_ne (c := '(') ?_)
      rw [hrest]
      exact fun h => absurd (Option.some.inj h) (by decide)
  | some y =>
      have hdot : ∀ c ∈ y, (c != '\n') = true := fun c hc => bne_iff_ne.mpr fun heq => hpayload y rfl (heq ▸ hc)
      have hrest' : p.rest = "(".toList ++ (y ++ (")".toList ++ (" using ".toList ++ (outbound ++ [])))) :=
        hrest.trans (congrArg ('(' :: ·) (List.append_assoc y [')'] _))
      refine .of_append ?_ ⟨_, complete_optional⟩
      refine .of_eq ?_ complete_nested
      refine .of_eq ?_ (complete_literal hrest')
      refine .of_append ?_ (complete_group_star rfl hdot fun u v huv hu _ => ?_)
      · refine .of_eq ?_ (complete_literal rfl)
        exact finds_outbound houtbound rfl
      · -- behind the payload there is no other closing parenthesis
        obtain ⟨_, u, rfl⟩ := List.exists_cons_of_ne_nil hu
        have hv : " using ".toList ++ (outbound ++ []) = u ++ v := (List.cons.inj huv).2
        have hnone : ')' ∉ " using ".toList ++ (outbound ++ []) := by
          rw [List.append_nil, List.mem_append]
          exact not_or.mpr ⟨by decide, hclose⟩
        refine complete_literal_of_ne fun hhead => hnone ?_
        rw [hv]
        exact List.mem_append_right u (List.mem_of_mem_head? hhead)

theorem finds_rule {ruleType : Text} (hruleType : IsWord ruleType) (hopen : '(' ∉ ruleType)
    (hpayload : ∀ y ∈ payload, '\n' ∉ y) (houtbound : IsWord outbound) (hclose : ')' ∉ outbound)
    (hrest : p.rest = ruleType ++ (aside payload ++ (" using ".toList ++ (outbound ++ [])))) :
    (sequence [.group 4 (lazyPlus nonBlank), payloadExpr, literal " using ".toList, .group 6 (plus nonBlank)]).Finds p
      ((6, outbound) :: (payload.toList.map fun y => (5, y)) ++ (4, ruleType) :: p.groups) := by
  have hword : ∀ c ∈ ruleType, (!isBlank c) = true := fun c hc => (Bool.not_eq_true' _).mpr (hruleType.2 c hc)
  refine .of_append ?_ (complete_group_lazyPlus hrest hruleType.1 hword fun u v huv _ hv => ?_)
  · exact finds_payload hpayload houtbound hclose rfl
  · exact blocked_in hruleType hopen huv hv rfl

theorem finds_network {network : Text} (hnetwork : network = "TCP".toList ∨ network = "UDP".toList)
    (hrest : p.rest = network ++ r) :
    (sequence (.group 1 (choice [literal "TCP".toList, literal "UDP".toList]) :: es)).complete p =
      (sequence es).complete (p.mark 1 network r) := by
  have houtcomes : (choice [literal "TCP".toList, literal "UDP".toList]).outcomes p = [p.after network r] := by
    change (literal "TCP".toList).outcomes p ++ (literal "UDP".toList).outcomes p = _
    have hother {c : Char} {w : Text} (hc : network.head? ≠ some c) (hne : network ≠ []) :
        (literal (c :: w)).outcomes p = [] := by
      refine outcomes_literal_of_ne ?_
      rw [hrest, List.head?_append_of_ne_nil _ hne]
      exact hc
    obtain rfl | rfl := hnetwork
    · rw [outcomes_literal hrest]
      exact congrArg (_ :: ·) (hother (c := 'U') (by decide) (by decide))
    · rw [outcomes_literal hrest]
      exact congrArg (· ++ _) (hother (c := 'T') (by decide) (by decide))
  rw [complete_group, houtcomes, List.flatMap_singleton, mark_eq hrest]

theorem finds_detail {detail : Option Text} {groups : List (Nat × Text)} (hdetail : ∀ x ∈ detail, ')' ∉ x)
    (hrest : p.rest = aside detail ++ ' ' :: r) (h : (sequence es).Finds (p.after (aside detail) (' ' :: r)) groups) :
    (sequence (detailExpr :: es)).Finds p groups := by
  cases detail with
  | none =>
      have hself : p.after (aside none) (' ' :: r) = p := by
        rw [← show p.rest = ' ' :: r from hrest]
        rfl
      rw [hself] at h
      refine h.of_eq (complete_optional_of_ne (c := '(') ?_)
      rw [hrest]
      exact fun heq => absurd (Option.some.inj heq) (by decide)
  | some x =>
      have hinner : ∀ c ∈ x, (c != ')') = true := fun c hc => bne_iff_ne.mpr fun heq => hdetail x rfl (heq ▸ hc)
      have hrest' : p.rest = "(".toList ++ (x ++ (")".toList ++ ' ' :: r)) :=
        hrest.trans (congrArg ('(' :: ·) (List.append_assoc x [')'] _))
      refine .of_append ?_ ⟨_, complete_optional⟩
      refine .of_eq ?_ complete_nested
      refine .of_eq ?_ (complete_literal hrest')
      refine .of_append ?_ (complete_star rfl hinner (by rintro c ⟨⟩; decide))
      refine .of_eq ?_ (complete_literal rfl)
      rw [Pos.after_after, Pos.after_after]
      exact h

theorem finds_line {l : Parts} (hl : l.Readable) (hsource : '(' ∉ l.source) (hruleType : '(' ∉ l.ruleType)
    (hclose : ')' ∉ l.outbound) : mihomoMatchLine.Finds ⟨none, l.line, []⟩ l.groups := by
  have hsourceWord : ∀ c ∈ l.source, (!isBlank c) = true := fun c hc => (Bool.not_eq_true' _).mpr (hl.source.2 c hc)
  have hdestWord : ∀ c ∈ l.destination, (!isBlank c) = true :=
    fun c hc => (Bool.not_eq_true' _).mpr (hl.destination.2 c hc)
  refine .of_eq ?_ (complete_literal rfl)
  refine .of_eq ?_ (finds_network hl.network rfl)
  refine .of_eq ?_ (complete_literal rfl)
  refine .of_append ?_ (complete_group_lazyPlus rfl hl.source.1 hsourceWord fun u v huv _ hv => ?_)
  · refine finds_detail hl.detail rfl ?_
    refine .of_eq ?_ (complete_literal rfl)
    refine .of_append ?_ (complete_group_plus rfl hl.destination.1 hdestWord (by rintro c ⟨⟩; decide))
    refine .of_eq ?_ (complete_literal rfl)
    exact finds_rule hl.ruleType hruleType hl.payload hl.outbound hclose rfl
  · exact blocked_in hl.source hsource huv hv rfl

end First

theorem mihomoRejectRecord_of_fullMatch {s : Text} {l : Parts} (h : mihomoMatchLine.fullMatch s = some ⟨s, l.groups⟩) :
    mihomoRejectRecord s = if isMihomoReject l.outbound then some l.record else none := by
  rw [mihomoRejectRecord, h]
  obtain ⟨network, source, detail, destination, ruleType, payload, outbound⟩ := l
  cases payload with
  | none => rfl
  | some y => rfl

/-- What is accepted is the line of some parts, and the record is theirs. -/
theorem mihomoRejectRecord_eq_some {s : Text} {record : Record} (h : mihomoRejectRecord s = some record) :
    ∃ l : Parts, l.Readable ∧ s = l.line ∧ isMihomoReject l.outbound = true ∧ record = l.record := by
  obtain ⟨m, hm, -⟩ := Option.bind_eq_some_iff.mp h
  obtain ⟨q, hq, rfl⟩ := Option.map_eq_some_iff.mp hm
  obtain ⟨l, hl, hs, hgroups⟩ := exists_parts (List.mem_of_mem_head? hq)
  rw [hgroups] at hm
  rw [mihomoRejectRecord_of_fullMatch hm] at h
  split at h
  next hreject => exact ⟨l, hl, hs, hreject, (Option.some.inj h).symm⟩
  next => cases h

theorem word_of_isMihomoReject {outbound : Text} (h : isMihomoReject outbound = true) :
    IsWord outbound ∧ ')' ∉ outbound := by
  rw [isMihomoReject, Bool.or_eq_true, beq_iff_eq, beq_iff_eq] at h
  have hword {s : Text} (hne : s ≠ []) (hall : (s.all fun c => !isBlank c) = true) : IsWord s :=
    ⟨hne, fun c hc => (Bool.not_eq_true' _).mp (List.all_eq_true.mp hall c hc)⟩
  obtain rfl | rfl := h
  · exact ⟨hword (by decide) (by decide), by decide⟩
  · exact ⟨hword (by decide) (by decide), by decide⟩

theorem mihomoRejectRecord_of_parts {l : Parts} (hl : l.Readable) (hsource : '(' ∉ l.source)
    (hruleType : '(' ∉ l.ruleType) (houtbound : isMihomoReject l.outbound = true) :
    mihomoRejectRecord l.line = some l.record := by
  have hfirst := finds_line hl hsource hruleType (word_of_isMihomoReject houtbound).2
  rw [mihomoRejectRecord_of_fullMatch hfirst.fullMatch, if_pos houtbound]

/-! ### The lines mihomo writes -/

inductive Network where
  | tcp
  | udp
deriving DecidableEq

def Network.text : Network → Text
  | .tcp => "TCP".toList
  | .udp => "UDP".toList

def Network.name : Network → Text
  | .tcp => "tcp".toList
  | .udp => "udp".toList

theorem Network.text_cases (network : Network) : network.text = "TCP".toList ∨ network.text = "UDP".toList := by
  cases network with
  | tcp => exact .inl rfl
  | udp => exact .inr rfl

/-- Neither white space nor a parenthesis. -/
def isPlain (c : Char) : Bool := !isSpace c && c != '(' && c != ')'

/-- A rejected flow as mihomo knows it. -/
structure Flow where
  network : Network
  source : Text
  sourcePort : Nat
  detail : Option Text
  host : Text
  port : Nat
  ruleType : Text
  payload : Option Text
  outbound : Text
  source_plain : source.all isPlain = true
  host_plain : host.all isPlain = true
  ruleType_plain : ruleType.all isPlain = true
  ruleType_ne_nil : ruleType ≠ []
  outbound_reject : isMihomoReject outbound = true

namespace Flow

def parts (flow : Flow) : Parts :=
  { network := flow.network.text
    source := joinHostPort flow.source (itoa flow.sourcePort)
    detail := flow.detail
    destination := joinHostPort flow.host (itoa flow.port)
    ruleType := flow.ruleType
    payload := flow.payload
    outbound := flow.outbound }

/-- The line written for the flow. -/
def line (flow : Flow) : Text := flow.parts.line

/-- The rule type, followed by its payload if there is one. -/
def rule (flow : Flow) : Text :=
  let payload := flow.payload.getD []
  if payload = [] then flow.ruleType else flow.ruleType ++ ' ' :: payload

/-- What there is to report of the flow. -/
def record (flow : Flow) : Record :=
  { engine := "mihomo".toList
    src := joinHostPort flow.source (itoa flow.sourcePort)
    status := "rejected".toList
    network := flow.network.name
    host := flow.host
    port := itoa flow.port
    outbound := flow.outbound
    rule := flow.rule }

end Flow

section Plain

variable {c : Char} {host s : Text} {n : Nat}

theorem isSpace_of_isPlain (h : isPlain c = true) : isSpace c = false := by
  rw [isPlain, Bool.and_eq_true, Bool.and_eq_true] at h
  exact (Bool.not_eq_true' _).mp h.1.1

theorem isBlank_of_isPlain (h : isPlain c = true) : isBlank c = false := by
  refine Bool.eq_false_iff.mpr fun hblank => Bool.eq_false_iff.mp (isSpace_of_isPlain h) ?_
  simp only [isBlank, Bool.or_eq_true, beq_iff_eq] at hblank
  obtain (((rfl | rfl) | hfeed) | rfl) | rfl := hblank
  · decide
  · decide
  · rw [← Char.ofNat_toNat c, hfeed]
    decide
  · decide
  · decide

theorem not_mem_of_plain (h : ∀ c ∈ s, isPlain c = true) (hc : isPlain c = false) : c ∉ s :=
  fun hmem => Bool.eq_false_iff.mp hc (h c hmem)

theorem isPlain_of_isDigit (h : c.isDigit = true) : isPlain c = true := by
  have hnat := toNat_of_isDigit h
  have hne {d : Char} (hd : d.toNat < 48) : (c != d) = true := bne_iff_ne.mpr fun heq => by rw [heq] at hnat; omega
  rw [isPlain, isSpace_of_toNat (by omega), hne (by decide), hne (by decide)]
  rfl

theorem plain_joinHostPort (h : host.all isPlain = true) : ∀ c ∈ joinHostPort host (itoa n), isPlain c = true := by
  intro c hc
  have hhost : ∀ c ∈ host, isPlain c = true := List.all_eq_true.mp h
  have hport : c ∈ itoa n → isPlain c = true := fun hmem => isPlain_of_isDigit (isDigit_of_mem_itoa hmem)
  rw [joinHostPort] at hc
  split at hc
  · simp only [List.cons_append, List.mem_cons, List.mem_append] at hc
    obtain rfl | hc | rfl | rfl | hc := hc
    · decide
    · exact hhost c hc
    · decide
    · decide
    · exact hport hc
  · rw [List.mem_append, List.mem_cons] at hc
    obtain hc | rfl | hc := hc
    · exact hhost c hc
    · decide
    · exact hport hc

theorem joinHostPort_ne_nil : joinHostPort host s ≠ [] := by
  rw [joinHostPort]
  split
  · exact List.cons_ne_nil _ _
  · exact List.append_ne_nil_of_right_ne_nil _ (List.cons_ne_nil _ _)

theorem isWord_of_plain (hne : s ≠ []) (h : ∀ c ∈ s, isPlain c = true) : IsWord s :=
  ⟨hne, fun c hc => isBlank_of_isPlain (h c hc)⟩

/-- The destination is read back unless the host holds a bracket. -/
theorem dest_eq_iff : (splitHostPort (joinHostPort host (itoa n))).getD (joinHostPort host (itoa n), []) =
    (host, itoa n) ↔ '[' ∉ host ∧ ']' ∉ host := by
  have hnot {c : Char} (hc : c.isDigit = false) : c ∉ itoa n :=
    fun hmem => Bool.eq_false_iff.mp hc (isDigit_of_mem_itoa hmem)
  have hsplit : splitHostPort (joinHostPort host (itoa n)) = some (host, itoa n) ↔ '[' ∉ host ∧ ']' ∉ host :=
    splitHostPort_joinHostPort (hnot (by decide)) (hnot (by decide)) (hnot (by decide))
  rw [← hsplit]
  cases splitHostPort (joinHostPort host (itoa n)) with
  | none =>
      refine iff_of_false (fun h => ?_) (Option.some_ne_none _).symm
      exact absurd (congrArg Prod.snd h).symm Nat.toDigits_ne_nil
  | some dest => exact (Option.some_inj).symm

/-- Trimming leaves the rule as it is unless white space ends the payload. -/
theorem trimSpace_rule {t y : Text} (hne : t ≠ []) (ht : ∀ c ∈ t, isPlain c = true) :
    trimSpace (t ++ ' ' :: y) = (if y = [] then t else t ++ ' ' :: y) ↔ ∀ c ∈ y.getLast?, isSpace c = false := by
  have hedges : Edges isSpace t := edges_of_forall fun c hc => isSpace_of_isPlain (ht c hc)
  split
  next hy =>
    subst hy
    have hblank : ∀ c ∈ [' '], isSpace c = true := by simp [isSpace]
    refine iff_of_true ?_ fun c hc => absurd hc (Option.not_mem_none c)
    rw [trimSpace, trim_append_of_forall_right hblank, trim_eq_self.mpr hedges]
  next hy =>
    obtain ⟨d, y, rfl⟩ := List.exists_cons_of_ne_nil hy
    rw [trimSpace, trim_eq_self, Edges, List.head?_append_of_ne_nil _ hne, List.getLast?_append_cons,
      List.getLast?_cons_cons]
    exact and_iff_right hedges.1

end Plain

/-! ### Two readings of one line -/

/-- The line from the detail to the outbound. -/
def Parts.tail (l : Parts) : Text :=
  ' ' :: ("-->".toList ++ ' ' :: (l.destination ++ ' ' :: ("match".toList ++ ' ' :: (l.ruleType ++ aside l.payload))))

theorem Parts.line_eq (l : Parts) : l.line = ("[".toList ++ l.network) ++ ("] ".toList ++ l.source ++
    (aside l.detail ++ l.tail ++ (" using ".toList ++ l.outbound))) := by
  simp [line, tail]

section Readings

variable {l l' : Parts}

theorem tail_of_line (hl : l.network.length = 3) (hl' : l'.network.length = 3) (hline : l'.line = l.line)
    (hsource : l'.source = l.source) (houtbound : l'.outbound = l.outbound) :
    aside l'.detail ++ l'.tail = aside l.detail ++ l.tail := by
  rw [l.line_eq, l'.line_eq] at hline
  have hrest := (List.append_inj hline (by rw [List.length_append, List.length_append, hl, hl'])).2
  rw [hsource, houtbound] at hrest
  exact List.append_cancel_right (List.append_cancel_left hrest)

/-- The detail ends at the first closing parenthesis. -/
theorem detail_cases {d d' : Option Text} {a a' : Text} (h : aside d' ++ ' ' :: a' = aside d ++ ' ' :: a)
    (hd' : ∀ x ∈ d', ')' ∉ x) : d' = d ∧ a' = a ∨ ∃ y, ' ' :: a' = y ++ ')' :: ' ' :: a := by
  cases d' with
  | none =>
      cases d with
      | none => exact .inl ⟨rfl, (List.cons.inj h).2⟩
      | some x => exact absurd (List.cons.inj h).1 (by decide)
  | some x' =>
      cases d with
      | none => exact absurd (List.cons.inj h).1 (by decide)
      | some x =>
          have htexts : x' ++ ')' :: ' ' :: a' = x ++ ')' :: ' ' :: a := by
            simpa [aside] using h
          by_cases hx : ')' ∈ x
          · obtain ⟨x, y, rfl, hfirst⟩ := List.eq_append_cons_of_mem hx
            rw [List.append_assoc] at htexts
            obtain ⟨-, hrest⟩ := eq_of_first htexts (hd' x' rfl) hfirst
            exact .inr ⟨y, hrest⟩
          · obtain ⟨rfl, hrest⟩ := eq_of_first htexts (hd' x' rfl) hx
            exact .inl ⟨rfl, (List.cons.inj hrest).2⟩

/-- A place behind a closing parenthesis and in front of a blank lies past each word it is not the end of. -/
theorem past_word {u v w z : Text} (h : u ++ ')' :: ' ' :: v = w ++ ' ' :: z) (hw : ' ' ∉ w)
    (hne : w = u ++ [')'] → v = z → False) : ∃ u', u' ++ ')' :: ' ' :: v = z := by
  rw [List.append_cons] at h
  obtain ⟨e, he, hrest⟩ | ⟨e, he, hrest⟩ := List.append_eq_append_iff.mp h
  · cases e with
    | nil => exact (hne (by rw [he, List.append_nil]) (List.cons.inj hrest).2).elim
    | cons c e =>
        obtain ⟨rfl, -⟩ := List.cons.inj hrest
        rw [he] at hw
        exact absurd (List.mem_append_right _ List.mem_cons_self) hw
  · cases e with
    | nil => exact (hne (by rw [he, List.append_nil]) (List.cons.inj hrest).2.symm).elim
    | cons c e =>
        obtain ⟨rfl, rfl⟩ := List.cons.inj hrest
        obtain rfl | ⟨u', c, rfl⟩ := List.eq_nil_or_concat' e
        · exact absurd (List.append_inj_right' he rfl) (by decide)
        · rw [← List.cons_append, ← List.append_assoc] at he
          obtain ⟨-, hlast⟩ := List.append_inj' he rfl
          rw [← List.singleton_inj.mp hlast]
          exact ⟨u', List.append_cons u' ')' (' ' :: v)⟩

/-- A name with a closing parenthesis in it: what is left of the line stands in the payload. -/
theorem payload_of_tail (hdestination' : ' ' ∉ l'.destination) (hruleType' : ' ' ∉ l'.ruleType)
    (hne : l.ruleType ≠ []) (hclose : ')' ∉ l.ruleType) {y : Text} (h : l'.tail = y ++ ')' :: l.tail) :
    ∃ u w z, l'.payload = some z ∧ l.payload = some w ∧ z = u ++ (l.ruleType ++ '(' :: w) := by
  have hends {u w : Text} {c : Char} (hc : w.getLast? = some c) (hne : c ≠ ')') : w ≠ u ++ [')'] := by
    rintro rfl
    rw [List.getLast?_concat] at hc
    exact hne (Option.some.inj hc).symm
  -- each blank in front of the rule type is too early for the blank in front of the real arrow
  obtain ⟨u₁, h₁⟩ := past_word (w := []) h.symm nofun fun h _ => absurd h.symm (List.append_ne_nil_of_right_ne_nil _ (List.cons_ne_nil _ _))
  obtain ⟨u₂, h₂⟩ := past_word h₁ (by decide) fun h _ => hends (c := '>') (by decide) (by decide) h
  obtain ⟨u₃, h₃⟩ := past_word h₂ hdestination' fun _ h => absurd (List.cons.inj h).1 (by decide)
  obtain ⟨u₄, h₄⟩ := past_word h₃ (by decide) fun h _ => hends (c := 'h') (by decide) (by decide) h
  obtain ⟨e, he⟩ : ∃ e, aside l'.payload = e ++ l.tail := by
    rw [List.append_cons] at h₄
    obtain ⟨e, he, hrest⟩ | ⟨e, -, hrest⟩ := List.append_eq_append_iff.mp h₄
    · cases e with
      | nil => exact ⟨[], hrest.symm⟩
      | cons c e =>
          obtain ⟨rfl, -⟩ := List.cons.inj hrest
          rw [he] at hruleType'
          exact absurd (List.mem_append_right _ List.mem_cons_self) hruleType'
    · exact ⟨e, hrest⟩
  obtain ⟨front, hfront, hne'⟩ : ∃ front, e ++ l.tail = front ++ (l.ruleType ++ aside l.payload) ∧ front ≠ [] :=
    ⟨e ++ (' ' :: ("-->".toList ++ ' ' :: (l.destination ++ ' ' :: ("match".toList ++ [' '])))), by simp [Parts.tail],
      List.append_ne_nil_of_right_ne_nil _ (List.cons_ne_nil _ _)⟩
  rw [hfront] at he
  cases hpayload' : l'.payload with
  | none =>
      rw [hpayload'] at he
      exact absurd he.symm (List.append_ne_nil_of_left_ne_nil hne' _)
  | some z =>
      cases hpayload : l.payload with
      | none =>
          rw [hpayload', hpayload, aside, aside, List.append_nil] at he
          have hlast : l.ruleType.getLast? = some ')' := by
            rw [← List.getLast?_append_of_ne_nil front hne, ← he, List.getLast?_concat]
          exact absurd (List.mem_of_getLast? hlast) hclose
      | some w =>
          rw [hpayload', hpayload, aside, aside, ← List.append_assoc, ← List.append_assoc] at he
          obtain ⟨c, front, rfl⟩ := List.exists_cons_of_ne_nil hne'
          have htexts := (List.cons.inj (List.append_cancel_right he)).2
          exact ⟨front, w, z, rfl, rfl, htexts.trans (List.append_assoc ..)⟩

theorem texts_of_tail (hdestination : ' ' ∉ l.destination) (hdestination' : ' ' ∉ l'.destination) (h : l'.tail = l.tail) :
    l'.destination = l.destination ∧ l'.ruleType ++ aside l'.payload = l.ruleType ++ aside l.payload := by
  have hrest := List.append_cancel_left (List.cons.inj h).2
  obtain ⟨hsame, hrule⟩ := eq_of_first (List.cons.inj hrest).2 hdestination' hdestination
  exact ⟨hsame, (List.cons.inj (List.append_cancel_left hrule)).2⟩

end Readings

/-! ### Which lines are read back -/

section Lines

variable {flow : Flow}

/-- The runes of the rule that are no white space. -/
theorem filter_rule : flow.rule.filter (fun c => !isSpace c) =
    flow.ruleType.filter (fun c => !isSpace c) ++ (flow.payload.getD []).filter fun c => !isSpace c := by
  rw [Flow.rule]
  split
  next h => rw [h, List.filter_nil, List.append_nil]
  next => rw [List.filter_append, List.filter_cons_of_neg (by decide)]

theorem plain_ruleType : ∀ c ∈ flow.ruleType, isPlain c = true := List.all_eq_true.mp flow.ruleType_plain

theorem readable_parts (hdetail : ∀ x ∈ flow.detail, ')' ∉ x) (hpayload : ∀ y ∈ flow.payload, '\n' ∉ y) :
    flow.parts.Readable where
  network := flow.network.text_cases
  source := isWord_of_plain joinHostPort_ne_nil (plain_joinHostPort flow.source_plain)
  detail := hdetail
  destination := isWord_of_plain joinHostPort_ne_nil (plain_joinHostPort flow.host_plain)
  ruleType := isWord_of_plain flow.ruleType_ne_nil plain_ruleType
  payload := hpayload
  outbound := (word_of_isMihomoReject flow.outbound_reject).1

theorem record_parts (hhost : '[' ∉ flow.host ∧ ']' ∉ flow.host)
    (hpayload : ∀ y ∈ flow.payload, ∀ c ∈ y.getLast?, isSpace c = false) : flow.parts.record = flow.record := by
  have hdest := (dest_eq_iff (n := flow.port)).mpr hhost
  have hnetwork : toLower flow.network.text = flow.network.name := by
    cases flow.network with
    | tcp => decide
    | udp => decide
  have hrule : trimSpace (flow.ruleType ++ ' ' :: flow.payload.getD []) = flow.rule := by
    refine (trimSpace_rule flow.ruleType_ne_nil plain_ruleType).mpr ?_
    cases hcase : flow.payload with
    | none => exact nofun
    | some y => exact hpayload y hcase
  unfold Parts.record Flow.record
  dsimp only [Flow.parts]
  rw [hrule, hnetwork, hdest]

section Exact

variable {l' : Parts} (hl' : l'.Readable) (hline : flow.line = l'.line) (hrecord : flow.record = l'.record)

include hl' hrecord

/-- The payload holds no more than the rule's own. -/
theorem tail_ne (y : Text) : l'.tail ≠ y ++ ')' :: flow.parts.tail := by
  intro h
  have hblank {w : Text} (hw : IsWord w) : ' ' ∉ w := fun hmem => absurd (hw.2 ' ' hmem) (by decide)
  have hclose : ')' ∉ flow.ruleType := not_mem_of_plain plain_ruleType (by decide)
  obtain ⟨u, w, z, hpayload', hpayload, rfl⟩ := payload_of_tail (hblank hl'.destination) (hblank hl'.ruleType)
    (l := flow.parts) flow.ruleType_ne_nil hclose h
  have hrule : flow.rule = trimSpace (l'.ruleType ++ ' ' :: l'.payload.getD []) := congrArg Record.rule hrecord
  have hruns := congrArg (List.filter fun c => !isSpace c) hrule
  rw [filter_rule, show flow.payload = some w from hpayload, trimSpace,
    filter_trim fun c _ hc => by rw [hc]; rfl, hpayload', Option.getD_some, Option.getD_some, List.filter_append,
    List.filter_cons_of_neg (by decide), List.filter_append, List.filter_append,
    List.filter_cons_of_pos (by decide)] at hruns
  have hlength := congrArg List.length hruns
  simp only [List.length_append, List.length_cons, Flow.parts] at hlength
  omega

include hline

theorem tail_eq : (∀ x ∈ flow.detail, ')' ∉ x) ∧ l'.tail = flow.parts.tail := by
  have hlength {network : Text} (h : network = "TCP".toList ∨ network = "UDP".toList) : network.length = 3 := by
    obtain rfl | rfl := h
    · rfl
    · rfl
  have htail := tail_of_line (l := flow.parts) (hlength flow.network.text_cases) (hlength hl'.network) hline.symm
    (congrArg Record.src hrecord).symm (congrArg Record.outbound hrecord).symm
  obtain ⟨hdetail, hsame⟩ | ⟨y, hy⟩ := detail_cases htail hl'.detail
  · refine ⟨fun x hx => hl'.detail x ?_, congrArg (' ' :: ·) hsame⟩
    rw [hdetail]
    exact hx
  · exact absurd hy (tail_ne hl' hrecord y)

theorem conditions_of_exact : (∀ x ∈ flow.detail, ')' ∉ x) ∧
    (∀ y ∈ flow.payload, '\n' ∉ y ∧ ∀ c ∈ y.getLast?, isSpace c = false) ∧ '[' ∉ flow.host ∧ ']' ∉ flow.host := by
  obtain ⟨hdetail, htail⟩ := tail_eq hl' hline hrecord
  have hblank {w : Text} (hw : IsWord w) : ' ' ∉ w := fun hmem => absurd (hw.2 ' ' hmem) (by decide)
  have hdestination : ' ' ∉ flow.parts.destination :=
    hblank (isWord_of_plain joinHostPort_ne_nil (plain_joinHostPort flow.host_plain))
  obtain ⟨hdest, htexts⟩ := texts_of_tail hdestination (hblank hl'.destination) htail
  refine ⟨hdetail, fun y hy => ⟨fun hmem => ?_, fun c hc => ?_⟩, ?_⟩
  · have hline : '\n' ∈ l'.ruleType ++ aside l'.payload := by
      rw [htexts]
      exact List.mem_append_right _ ((mem_aside (by decide) (by decide)).mpr ⟨y, hy, hmem⟩)
    obtain hmem | hmem := List.mem_append.mp hline
    · exact absurd (hl'.ruleType.2 '\n' hmem) (by decide)
    · obtain ⟨z, hz, hmem⟩ := (mem_aside (by decide) (by decide)).mp hmem
      exact hl'.payload z hz hmem
  · have hedges : Edges isSpace flow.rule := by
      rw [show flow.rule = trimSpace _ from congrArg Record.rule hrecord]
      exact edges_trim ..
    cases y with
    | nil => cases hc
    | cons d y =>
        refine hedges.2 c ?_
        rw [Flow.rule, Option.mem_def.mp hy]
        dsimp only [Option.getD_some]
        rw [if_neg (List.cons_ne_nil d y), List.getLast?_append_cons, List.getLast?_cons_cons]
        exact hc
  · have hhost : flow.host = ((splitHostPort l'.destination).getD (l'.destination, [])).1 :=
      congrArg Record.host hrecord
    have hport : itoa flow.port = ((splitHostPort l'.destination).getD (l'.destination, [])).2 :=
      congrArg Record.port hrecord
    rw [hdest] at hhost hport
    exact (dest_eq_iff (n := flow.port)).mp (Prod.ext hhost.symm hport.symm)

end Exact

/-- A line of mihomo gives the record of its flow if and only if no closing parenthesis stands in the detail of the
process, no line break in the payload of the rule and no white space at its end, and no bracket in the host. -/
theorem mihomoRejectRecord_line_iff (flow : Flow) : mihomoRejectRecord flow.line = some flow.record ↔
    (∀ x ∈ flow.detail, ')' ∉ x) ∧ (∀ y ∈ flow.payload, '\n' ∉ y ∧ ∀ c ∈ y.getLast?, isSpace c = false) ∧
      '[' ∉ flow.host ∧ ']' ∉ flow.host := by
  constructor
  · intro h
    obtain ⟨l', hl', hline, -, hrecord⟩ := mihomoRejectRecord_eq_some h
    exact conditions_of_exact hl' hline hrecord
  · rintro ⟨hdetail, hpayload, hhost⟩
    have hsource : '(' ∉ flow.parts.source := not_mem_of_plain (plain_joinHostPort flow.source_plain) (by decide)
    have hruleType : '(' ∉ flow.parts.ruleType := not_mem_of_plain plain_ruleType (by decide)
    have hread := readable_parts hdetail fun y hy => (hpayload y hy).1
    rw [← record_parts hhost fun y hy => (hpayload y hy).2]
    exact mihomoRejectRecord_of_parts hread hsource hruleType flow.outbound_reject

example : (mihomoRejectRecord ("[UDP] 10.0.0.2:5353(app.exe, uid=10123) --> [2001:db8::1]:443 match " ++
      "AND((NETWORK,udp),(NOT,((DST-PORT,53)))) using REJECT-DROP").toList).map Record.rule =
    some "AND (NETWORK,udp),(NOT,((DST-PORT,53)))".toList := by decide +kernel

/-- A process with a parenthesis in its name: `app (x86).exe`. -/
def nested : Flow :=
  { network := .tcp
    source := "127.0.0.1".toList
    sourcePort := 50000
    detail := some "app (x86).exe".toList
    host := "ads.example".toList
    port := 443
    ruleType := "DomainSuffix".toList
    payload := some "ads.example".toList
    outbound := "REJECT".toList
    source_plain := by decide
    host_plain := by decide
    ruleType_plain := by decide
    ruleType_ne_nil := by decide
    outbound_reject := by decide }

theorem mihomoRejectRecord_nested : nested.line =
    "[TCP] 127.0.0.1:50000(app (x86).exe) --> ads.example:443 match DomainSuffix(ads.example) using REJECT".toList ∧
      mihomoRejectRecord nested.line = none := by
  refine ⟨by decide +kernel, by decide +kernel⟩

end Lines

end GlitchCore.Core.Rejected
