import GlitchCore.Base.GoText

/-!
# Addresses and prefixes

IPv4 and IPv6 addresses with their textual forms, following Go's `net.ParseIP` and `net.ParseCIDR`
(both read an address with `netip.ParseAddr` and refuse a zone). An IPv4 address written inside IPv6
stays an IPv6 address here, as the parsers leave it; `IP.unmap` is the reduction to IPv4 that a
matcher applies to the address of a flow.
-/

namespace NetAddr

open GoText

inductive IP where
  | v4 (bits : BitVec 32)
  | v6 (bits : BitVec 128)
  deriving DecidableEq, Repr

/-- `::ffff:0:0/96`, the addresses that carry an IPv4 address. -/
def IsMapped (bits : BitVec 128) : Prop := bits >>> 32 = 0xffff

instance (bits : BitVec 128) : Decidable (IsMapped bits) := inferInstanceAs (Decidable (_ = _))

def IP.unmap : IP → IP
  | .v4 bits => .v4 bits
  | .v6 bits => if IsMapped bits then .v4 (bits.setWidth 32) else .v6 bits

def IP.isIPv6 (x : IP) : Bool :=
  match x.unmap with
  | .v4 _ => false
  | .v6 _ => true

/-- `IP.To4() != nil`. -/
def IP.to4 : IP → Bool
  | .v4 _ => true
  | .v6 bits => decide (IsMapped bits)

def IP.bitLen : IP → Nat
  | .v4 _ => 32
  | .v6 _ => 128

/-! ### Reading an address -/

/-- The loop of `parseIPv4Fields`: the fields closed so far, the value and the number of digits of
the open one. -/
def parseIPv4Loop : Text → Nat → Nat → List Nat → Option (List Nat)
  | [], val, _, fields => if fields.length < 3 then none else some (fields ++ [val])
  | c :: rest, val, digits, fields =>
      if c.isDigit then
        if digits = 1 ∧ val = 0 then none
        else if 255 < 10 * val + (c.toNat - 48) then none
        else parseIPv4Loop rest (10 * val + (c.toNat - 48)) (digits + 1) fields
      else if c = '.' then
        -- a leading, a doubled and a trailing dot
        if digits = 0 ∨ rest = [] then none
        else if fields.length = 3 then none
        else parseIPv4Loop rest 0 0 (fields ++ [val])
      else none

def parseIPv4Fields (s : Text) : Option (List Nat) := parseIPv4Loop s 0 0 []

def hexValue (c : Char) : Nat :=
  if c.isDigit then c.toNat - 48 else if c.toNat ≤ 70 then c.toNat - 55 else c.toNat - 87

def isHexDigit (c : Char) : Bool :=
  c.isDigit || (97 ≤ c.toNat && c.toNat ≤ 102) || (65 ≤ c.toNat && c.toNat ≤ 70)

def hexNumber (digits : Text) : Nat := digits.foldl (fun acc c => 16 * acc + hexValue c) 0

/-- The loop of `parseIPv6`, one 16-bit group a round for as many rounds as the address has room for:
what is left of the text, the groups read and the position of the ellipsis among them. -/
def parseIPv6Loop : Nat → Text → List Nat → Option Nat → Option (Text × List Nat × Option Nat)
  | 0, s, groups, ellipsis => some (s, groups, ellipsis)
  | room + 1, s, groups, ellipsis =>
      let digits := s.takeWhile isHexDigit
      if digits = [] ∨ 4 < digits.length then none
      else
        match s.drop digits.length with
        | '.' :: _ =>
            -- an IPv4 address in the place of the last two groups
            if ellipsis = none ∧ groups.length ≠ 6 ∨ 6 < groups.length then none
            else
              match parseIPv4Fields s with
              | some [a, b, c, d] => some ([], groups ++ [256 * a + b, 256 * c + d], ellipsis)
              | _ => none
        | [] => some ([], groups ++ [hexNumber digits], ellipsis)
        | [':'] => none
        | ':' :: ':' :: rest =>
            if ellipsis.isSome then none
            else if rest = [] then some ([], groups ++ [hexNumber digits], some (groups.length + 1))
            else parseIPv6Loop room rest (groups ++ [hexNumber digits]) (some (groups.length + 1))
        | ':' :: rest => parseIPv6Loop room rest (groups ++ [hexNumber digits]) ellipsis
        | _ => none

def groupsValue (groups : List Nat) : Nat := groups.foldl (fun acc g => 65536 * acc + g) 0

def parseIPv6 (s : Text) : Option (BitVec 128) :=
  let read :=
    match s with
    | ':' :: ':' :: rest => if rest = [] then some ([], [], some 0) else parseIPv6Loop 8 rest [] (some 0)
    | _ => parseIPv6Loop 8 s [] none
  match read with
  | some ([], groups, none) => if groups.length = 8 then some (.ofNat 128 (groupsValue groups)) else none
  | some ([], groups, some at_) =>
      if groups.length < 8 then
        some (.ofNat 128 (groupsValue
          (groups.take at_ ++ List.replicate (8 - groups.length) 0 ++ groups.drop at_)))
      else none
  | _ => none

/-- `net.ParseIP`: `netip.ParseAddr` without a zone. The first dot or colon tells the families apart. -/
def parseIP (s : Text) : Option IP :=
  match s.find? fun c => c == '.' || c == ':' || c == '%' with
  | some '.' =>
      match parseIPv4Fields s with
      | some fields => some (.v4 (.ofNat 32 (fields.foldl (fun acc f => 256 * acc + f) 0)))
      | none => none
  | some ':' => if '%' ∈ s then none else (parseIPv6 s).map .v6
  | _ => none

/-! ### Prefixes -/

structure Prefix where
  addr : IP
  bits : Nat
  deriving DecidableEq, Repr

def parseCIDR (s : Text) : Option Prefix :=
  match cut '/' s with
  | none => none
  | some (addr, mask) =>
      match parseIP addr, decimal mask with
      | some ip, some n => if n ≤ ip.bitLen then some ⟨ip, n⟩ else none
      | _, _ => none

def Prefix.contains (p : Prefix) (x : IP) : Bool :=
  match p.addr, x with
  | .v4 net, .v4 bits => bits >>> (32 - p.bits) == net >>> (32 - p.bits)
  | .v6 net, .v6 bits => bits >>> (128 - p.bits) == net >>> (128 - p.bits)
  | _, _ => false

/-- A network with no fixed bit holds its whole family. -/
theorem Prefix.contains_zero (net x : IP) : (Prefix.mk net 0).contains x = (net.bitLen == x.bitLen) := by
  cases net <;> cases x <;>
    simp [Prefix.contains, IP.bitLen, BitVec.ushiftRight_eq_zero (Nat.le_refl 32),
      BitVec.ushiftRight_eq_zero (Nat.le_refl 128)]

theorem Prefix.contains_addr (p : Prefix) : p.contains p.addr = true := by
  obtain ⟨addr, bits⟩ := p
  cases addr <;> simp [Prefix.contains]

/-- A network with every bit fixed is one address. -/
theorem Prefix.contains_bitLen (ip x : IP) : (Prefix.mk ip ip.bitLen).contains x = true ↔ x = ip := by
  cases ip <;> cases x <;> simp [Prefix.contains, IP.bitLen]

theorem ushiftRight_eq_of_le {w m n : Nat} {x y : BitVec w} (h : x >>> m = y >>> m) (hmn : m ≤ n) :
    x >>> n = y >>> n := by
  rw [← Nat.add_sub_cancel' hmn, BitVec.shiftRight_add, BitVec.shiftRight_add, h]

/-- Of two networks that meet, the one with fewer bits fixed holds the other. -/
theorem Prefix.contains_of_le {p q : Prefix} (hbits : p.bits ≤ q.bits) (hmeet : q.contains p.addr = true) {x : IP}
    (hx : q.contains x = true) : p.contains x = true := by
  obtain ⟨addr, bits⟩ := p
  obtain ⟨addr', bits'⟩ := q
  cases addr <;> cases addr' <;> cases x <;> simp only [Prefix.contains, beq_iff_eq, Bool.false_eq_true] at hmeet hx ⊢
  · exact ushiftRight_eq_of_le (hx.trans hmeet.symm) (Nat.sub_le_sub_left hbits 32)
  · exact ushiftRight_eq_of_le (hx.trans hmeet.symm) (Nat.sub_le_sub_left hbits 128)

theorem Prefix.bitLen_eq_of_contains {p : Prefix} {x : IP} (hx : p.contains x = true) : x.bitLen = p.addr.bitLen := by
  obtain ⟨addr, bits⟩ := p
  cases addr <;> cases x <;> simp_all [Prefix.contains, IP.bitLen]

/-- A network strictly inside another is of its family and fixes more bits. -/
theorem Prefix.bits_lt_of_ssubset {p q : Prefix} (hsub : ∀ x, p.contains x = true → q.contains x = true) {y : IP}
    (hy : q.contains y = true) (hout : p.contains y ≠ true) : p.addr.bitLen = q.addr.bitLen ∧ q.bits < p.bits := by
  have hmeet := hsub p.addr p.contains_addr
  refine ⟨q.bitLen_eq_of_contains hmeet, ?_⟩
  by_contra hle
  exact hout (Prefix.contains_of_le (Nat.le_of_not_lt hle) hmeet hy)

example : parseIP "2001:db8::ff".toList = some (.v6 0x20010db80000000000000000000000ff) := by decide

example : parseIP "::ffff:192.0.2.7".toList = some (.v6 0xffffc0000207) := by decide

example : parseCIDR "10.0.0.0/8".toList = some ⟨.v4 0x0a000000, 8⟩ := by decide

example : ["1.2.3", "01.2.3.4", "1.2.3.256", "1::2::3", "1:2:3:4:5:6:7::8", "fe80::1%eth0"].map
    (fun s => parseIP s.toList) = List.replicate 6 none := by decide

/-! ### The runes of an address -/

/-- The runes an address or a prefix is written with. -/
def isAddressRune (c : Char) : Bool := isHexDigit c || c == '.' || c == ':' || c == '/'

theorem toNat_of_isAddressRune {c : Char} (hc : isAddressRune c = true) : 0x2d ≤ c.toNat ∧ c.toNat ≤ 0x7a := by
  simp only [isAddressRune, isHexDigit, Bool.or_eq_true, beq_iff_eq, Bool.and_eq_true, decide_eq_true_eq] at hc
  obtain (((((hdigit | hlow) | hup) | rfl) | rfl) | rfl) := hc
  · have := toNat_of_isDigit hdigit
    omega
  · omega
  · omega
  · decide
  · decide
  · decide

theorem isSpace_of_isAddressRune {c : Char} (hc : isAddressRune c = true) : isSpace c = false := by
  have hrange := toNat_of_isAddressRune hc
  exact isSpace_of_toNat (by omega)

theorem isAddressRune_digit {c : Char} (hc : c.isDigit = true) : isAddressRune c = true := by
  simp [isAddressRune, isHexDigit, hc]

theorem parseIPv4Loop_runes {s : Text} {val digits : Nat} {fields out : List Nat}
    (h : parseIPv4Loop s val digits fields = some out) : ∀ c ∈ s, isAddressRune c = true := by
  induction s generalizing val digits fields with
  | nil => simp
  | cons c s ih =>
      rw [parseIPv4Loop] at h
      split at h
      · rename_i hdigit
        repeat' split at h
        all_goals first
          | cases h
          | exact List.forall_mem_cons.mpr ⟨isAddressRune_digit hdigit, ih h⟩
      · split at h
        · rename_i hdot
          repeat' split at h
          all_goals first
            | cases h
            | exact List.forall_mem_cons.mpr ⟨by simp [hdot, isAddressRune], ih h⟩
        · cases h

theorem parseIPv6Loop_runes {room : Nat} {s rest : Text} {gs gs' : List Nat} {e e' : Option Nat}
    (h : parseIPv6Loop room s gs e = some (rest, gs', e')) : ∀ c ∈ s, isAddressRune c = true ∨ c ∈ rest := by
  induction room generalizing s gs e with
  | zero =>
      cases h
      exact fun c hc => .inr hc
  | succ room ih =>
      rw [parseIPv6Loop] at h
      have hs : s = s.takeWhile isHexDigit ++ s.drop (s.takeWhile isHexDigit).length :=
        (List.prefix_iff_eq_append.mp (List.takeWhile_prefix isHexDigit)).symm
      have hdigits : ∀ c ∈ s.takeWhile isHexDigit, isAddressRune c = true := fun c hc => by
        simp [isAddressRune, List.mem_takeWhile_imp hc]
      have hcolon : isAddressRune ':' = true := by decide
      split at h
      · cases h
      · split at h
        · rename_i hdot
          split at h
          · cases h
          · split at h
            · rename_i hv4
              intro c hc
              exact .inl (parseIPv4Loop_runes hv4 c hc)
            · cases h
        · rename_i hnil
          intro c hc
          rw [hs, hnil, List.append_nil] at hc
          exact .inl (hdigits c hc)
        · cases h
        · rename_i tail htail
          split at h
          · cases h
          · split at h
            · rename_i hrest
              intro c hc
              rw [hs, htail, hrest] at hc
              simp only [List.mem_append, List.mem_cons, List.not_mem_nil, or_false] at hc
              rcases hc with hc | rfl | rfl
              · exact .inl (hdigits c hc)
              · exact .inl hcolon
              · exact .inl hcolon
            · intro c hc
              rw [hs, htail] at hc
              simp only [List.mem_append, List.mem_cons] at hc
              rcases hc with hc | rfl | rfl | hc
              · exact .inl (hdigits c hc)
              · exact .inl hcolon
              · exact .inl hcolon
              · exact ih h c hc
        · rename_i tail _ _ htail
          intro c hc
          rw [hs, htail] at hc
          simp only [List.mem_append, List.mem_cons] at hc
          rcases hc with hc | rfl | hc
          · exact .inl (hdigits c hc)
          · exact .inl hcolon
          · exact ih h c hc
        · cases h

theorem parseIPv6_runes {s : Text} {bits : BitVec 128} (h : parseIPv6 s = some bits) :
    ∀ c ∈ s, isAddressRune c = true := by
  unfold parseIPv6 at h
  dsimp only at h
  -- the part of the text that the loop reads leaves nothing over
  have hread : ∀ t gs e gs' e', parseIPv6Loop 8 t gs e = some ([], gs', e') → ∀ c ∈ t, isAddressRune c = true :=
    fun t gs e gs' e' hloop c hc => (parseIPv6Loop_runes hloop c hc).resolve_right (by simp)
  split at h
  all_goals first | cases h | skip
  all_goals
    rename_i hparse
    split at hparse
    · split at hparse
      · rename_i hrest
        subst hrest
        intro c hc
        simp only [List.mem_cons, List.not_mem_nil, or_false, or_self] at hc
        rw [hc]
        decide
      · intro c hc
        simp only [List.mem_cons] at hc
        rcases hc with rfl | rfl | hc
        · decide
        · decide
        · exact hread _ _ _ _ _ hparse c hc
    · exact hread _ _ _ _ _ hparse

theorem parseIP_runes {s : Text} {ip : IP} (h : parseIP s = some ip) : ∀ c ∈ s, isAddressRune c = true := by
  unfold parseIP at h
  split at h
  · split at h
    · rename_i hv4
      exact parseIPv4Loop_runes hv4
    · cases h
  · split at h
    · cases h
    · obtain ⟨bits, hv6, -⟩ := Option.map_eq_some_iff.mp h
      exact parseIPv6_runes hv6
  · cases h

theorem parseCIDR_runes {s : Text} {net : Prefix} (h : parseCIDR s = some net) : ∀ c ∈ s, isAddressRune c = true := by
  unfold parseCIDR at h
  split at h
  · cases h
  · rename_i addr mask hcut
    split at h
    · rename_i ip n hip hn
      obtain ⟨rfl, -⟩ := cut_eq_some.mp hcut
      intro c hc
      rcases List.mem_append.mp hc with hc | hc
      · exact parseIP_runes hip c hc
      · rcases List.mem_cons.mp hc with rfl | hc
        · decide
        · exact isAddressRune_digit (isDigit_of_decimal hn c hc)
    · cases h

end NetAddr
