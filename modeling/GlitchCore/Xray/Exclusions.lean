import GlitchCore.Base.AddrBytes
import GlitchCore.Routing.Tier

/-!
# What content sniffing leaves alone

`prefixesWithout` covers a prefix except for a hole in it. It walks down from the prefix to the hole one bit at a time
and takes the half it does not enter; the halves are the sets where an address first leaves the hole's bits.
`localSniffExclusions` uses it to keep the fake-IP pool out of the local networks.
-/

namespace GlitchCore.Xray

open GoText NetAddr

/-- The other half of the prefix's parent. `none` is the zero prefix the code would go on with if the bytes were no
address. -/
def siblingOf (p : Prefix) : Option Prefix :=
  let bit := p.bits - 1
  (addrFromSlice (flipBit p.addr.asSlice bit)).map fun addr => Prefix.masked ⟨addr, p.bits⟩

/-- The prefixes covering `base` minus `hole`, which lies inside it. -/
def prefixesWithout (base hole : Prefix) : Option (List Prefix) :=
  if base.bits ≥ hole.bits then some []
  else
    (List.range' (base.bits + 1) (hole.bits - base.bits)).mapM fun bits =>
      siblingOf (Prefix.masked ⟨hole.addr, bits⟩)

/-- `Prefix.Overlaps`: of one family, and the same on the bits both fix. -/
def overlaps (p q : Prefix) : Bool := (Prefix.mk p.addr (min p.bits q.bits)).contains q.addr

def fakeIPv6Pool : Text := "fc00::/18".toList

/-- The local networks without the fake-IP pool, as prefixes; `none` is the panic of a constant that does not parse. -/
def localSniffExclusions : Option (List Prefix) :=
  (parseCIDR fakeIPv6Pool).bind fun hole =>
    (localNetworkCIDRs.mapM parseCIDR).bind fun nets =>
      (nets.mapM fun p => if overlaps p hole then prefixesWithout p hole else some [p]).map List.flatten

/-- A prefix fixes no more bits than its address has. -/
def Valid (p : Prefix) : Prop := p.bits ≤ p.addr.bitLen

instance (p : Prefix) : Decidable (Valid p) := inferInstanceAs (Decidable (_ ≤ _))

/-! ### One half -/

/-- The sibling of a prefix around an address holds the addresses that leave it at its last bit. -/
theorem contains_siblingOf (a : IP) {bits : Nat} (hpos : 0 < bits) (hbits : bits ≤ a.bitLen) :
    ∃ s, siblingOf (Prefix.masked ⟨a, bits⟩) = some s ∧
      ∀ x, s.contains x = true ↔ (Prefix.mk a (bits - 1)).contains x = true ∧ (Prefix.mk a bits).contains x ≠ true := by
  cases a with
  | v4 a =>
      have hbit : 32 - 1 - (bits - 1) = 32 - bits := by omega
      refine ⟨⟨.v4 (mask (mask a bits ^^^ BitVec.twoPow 32 (32 - bits)) bits), bits⟩, ?_, fun x => ?_⟩
      · simp only [siblingOf, Prefix.masked, IP.asSlice, addrFromSlice, length_flipBit, length_bytes, if_true,
          Option.map_some]
        rw [ofBytes_flipBit _ (by rfl) (show bits - 1 < 32 by simp only [IP.bitLen] at hbits; omega), hbit]
      · cases x with
        | v4 x =>
            simp only [Prefix.contains, beq_iff_eq, ne_eq]
            exact eq_sibling_iff a x hpos hbits
        | v6 x => simp [Prefix.contains]
  | v6 a =>
      have hbit : 128 - 1 - (bits - 1) = 128 - bits := by omega
      refine ⟨⟨.v6 (mask (mask a bits ^^^ BitVec.twoPow 128 (128 - bits)) bits), bits⟩, ?_, fun x => ?_⟩
      · simp only [siblingOf, Prefix.masked, IP.asSlice, addrFromSlice, length_flipBit, length_bytes, if_true,
          Option.map_some, show ¬ 16 = 4 by decide, if_false]
        rw [ofBytes_flipBit _ (by rfl) (show bits - 1 < 128 by simp only [IP.bitLen] at hbits; omega), hbit]
      · cases x with
        | v4 x => simp [Prefix.contains]
        | v6 x =>
            simp only [Prefix.contains, beq_iff_eq, ne_eq]
            exact eq_sibling_iff a x hpos hbits

/-! ### The partition -/

def Apart (p q : Prefix) : Prop := ∀ x, p.contains x = true → q.contains x ≠ true

/-- Around one address, fixing fewer bits keeps every address. -/
theorem contains_around {a x : IP} {m n : Nat} (hmn : m ≤ n) (hx : (Prefix.mk a n).contains x = true) :
    (Prefix.mk a m).contains x = true :=
  Prefix.contains_of_le (p := ⟨a, m⟩) (q := ⟨a, n⟩) hmn (Prefix.contains_addr ⟨a, n⟩) hx

/-- The siblings on the way from `m` fixed bits down to `m + n`. The induction takes the first of them off: it is what
the prefix of `m` bits holds beyond the one of `m + 1`, which the other siblings and the end share out. -/
theorem siblings_partition (a : IP) (m n : Nat) (hbits : m + n ≤ a.bitLen) :
    ∃ out, ((List.range' (m + 1) n).mapM fun bits => siblingOf (Prefix.masked ⟨a, bits⟩)) = some out ∧
      out.length = n ∧ out.Pairwise Apart ∧ (∀ p ∈ out, Apart p ⟨a, m + n⟩) ∧
      ∀ x, (Prefix.mk a m).contains x = true ↔
        (Prefix.mk a (m + n)).contains x = true ∨ ∃ p ∈ out, p.contains x = true := by
  induction n generalizing m with
  | zero => exact ⟨[], rfl, rfl, .nil, nofun, fun x => by simp⟩
  | succ n ih =>
      have hsum : m + 1 + n = m + (n + 1) := by omega
      obtain ⟨s, hs, hcontains⟩ := contains_siblingOf a (Nat.succ_pos m) (show m + 1 ≤ a.bitLen by omega)
      obtain ⟨out, hout, hlength, hpairwise, hapart, hcover⟩ := ih (m + 1) (by omega)
      rw [hsum] at hapart hcover
      refine ⟨s :: out, ?_, by rw [List.length_cons, hlength], ?_, ?_, fun x => ?_⟩
      · rw [List.range'_succ, List.mapM_cons, hs, hout]
        rfl
      · refine List.pairwise_cons.mpr ⟨fun p hp x hx hpx => ?_, hpairwise⟩
        exact ((hcontains x).mp hx).2 ((hcover x).mpr (.inr ⟨p, hp, hpx⟩))
      · refine List.forall_mem_cons.mpr ⟨fun x hx hend => ?_, hapart⟩
        exact ((hcontains x).mp hx).2 ((hcover x).mpr (.inl hend))
      · have hsplit : (Prefix.mk a m).contains x = true ↔
            (Prefix.mk a (m + 1)).contains x = true ∨ s.contains x = true := by
          rw [hcontains x]
          constructor
          · intro hx
            by_cases hnext : (Prefix.mk a (m + 1)).contains x = true
            · exact .inl hnext
            · exact .inr ⟨hx, hnext⟩
          · rintro (hnext | hhalf)
            · exact contains_around (Nat.le_succ m) hnext
            · exact hhalf.1
        rw [hsplit, hcover x, List.exists_mem_cons_iff, or_assoc]
        exact or_congr_right or_comm

/-- A prefix around an address of another one is that one, if both fix as many bits. -/
theorem contains_same {base : Prefix} {a : IP} (hbase : base.contains a = true) (x : IP) :
    base.contains x = true ↔ (Prefix.mk a base.bits).contains x = true := by
  have hback : (Prefix.mk a base.bits).contains base.addr = true := by
    obtain ⟨addr, bits⟩ := base
    cases addr <;> cases a <;> simp_all [Prefix.contains]
  exact ⟨Prefix.contains_of_le (p := ⟨a, base.bits⟩) (q := base) le_rfl hbase,
    Prefix.contains_of_le (p := base) (q := ⟨a, base.bits⟩) le_rfl hback⟩

/-- A prefix inside another one fixes as many bits at least: the sibling on the way would be inside as well. -/
theorem bits_le_of_inside {base hole : Prefix} (hbase : Valid base)
    (hinside : ∀ x, hole.contains x = true → base.contains x = true) : base.bits ≤ hole.bits := by
  by_contra hlt
  have hmeet := hinside _ hole.contains_addr
  have hfamily := base.bitLen_eq_of_contains hmeet
  have hpos : 0 < base.bits := by omega
  obtain ⟨s, -, hcontains⟩ := contains_siblingOf hole.addr hpos (hfamily ▸ hbase)
  obtain ⟨haround, hout⟩ := (hcontains s.addr).mp s.contains_addr
  have hhole : hole.contains s.addr = true := contains_around (a := hole.addr) (by omega) haround
  exact hout ((contains_same hmeet _).mp (hinside _ hhole))

/-- With the hole, the prefixes share out exactly the addresses of the base. -/
theorem prefixesWithout_partition {base hole : Prefix} (hbase : Valid base) (hhole : Valid hole)
    (hinside : ∀ x, hole.contains x = true → base.contains x = true) :
    ∃ out, prefixesWithout base hole = some out ∧ (out.length : Int) = hole.bits - base.bits ∧
      out.Pairwise Apart ∧ (∀ p ∈ out, Apart p hole) ∧
      ∀ x, base.contains x = true ↔ hole.contains x = true ∨ ∃ p ∈ out, p.contains x = true := by
  have hle := bits_le_of_inside hbase hinside
  have hsame := contains_same (hinside _ hole.contains_addr)
  have hsum : base.bits + (hole.bits - base.bits) = hole.bits := by omega
  obtain ⟨out, hout, hlength, hpairwise, hapart, hcover⟩ :=
    siblings_partition hole.addr base.bits (hole.bits - base.bits) (hsum.symm ▸ hhole)
  rw [hsum] at hapart hcover
  refine ⟨out, ?_, by omega, hpairwise, hapart, fun x => (hsame x).trans (hcover x)⟩
  rw [prefixesWithout]
  split
  next hge =>
    rw [show hole.bits - base.bits = 0 by omega] at hout
    exact hout
  next => exact hout

theorem prefixesWithout_partition_pool :
    ∃ out, prefixesWithout ⟨.v4 0x0a000000, 8⟩ ⟨.v4 0x0a400000, 10⟩ = some out ∧
      (out.length : Int) = (10 : Nat) - (8 : Nat) ∧ out.Pairwise Apart ∧ (∀ p ∈ out, Apart p ⟨.v4 0x0a400000, 10⟩) ∧
      ∀ x, (Prefix.mk (.v4 0x0a000000) 8).contains x = true ↔
        (Prefix.mk (.v4 0x0a400000) 10).contains x = true ∨ ∃ p ∈ out, p.contains x = true := by
  refine prefixesWithout_partition (by decide) (by decide) fun x hx => ?_
  exact Prefix.contains_of_le (p := ⟨.v4 0x0a000000, 8⟩) (q := ⟨.v4 0x0a400000, 8⟩) le_rfl (by decide)
    (contains_around (by decide) hx)

/-! ### The local networks -/

/-- Prefixes that overlap share an address, and the shorter one then holds the longer one. -/
theorem overlaps_eq_false {p q : Prefix} (h : overlaps p q = false) : Apart p q := by
  intro x hp hq
  have hbits : min p.bits q.bits ≤ p.bits ∧ min p.bits q.bits ≤ q.bits := ⟨Nat.min_le_left .., Nat.min_le_right ..⟩
  have hpx : (Prefix.mk p.addr (min p.bits q.bits)).contains x = true := contains_around (n := p.bits) hbits.1 hp
  have hqx : (Prefix.mk q.addr (min p.bits q.bits)).contains x = true := contains_around (n := q.bits) hbits.2 hq
  have hback := (contains_same hqx q.addr).mp (Prefix.contains_addr ⟨q.addr, min p.bits q.bits⟩)
  have hmeet : overlaps p q = true := (contains_same hpx q.addr).mpr hback
  rw [h] at hmeet
  cases hmeet

theorem inside_of_overlaps {p q : Prefix} (h : overlaps p q = true) (hbits : p.bits ≤ q.bits) (x : IP)
    (hx : q.contains x = true) : p.contains x = true := by
  have hmeet : p.contains q.addr = true := by
    rw [overlaps, Nat.min_eq_left hbits] at h
    exact h
  exact (contains_same hmeet x).mpr (contains_around hbits hx)

/-- What one local network contributes. -/
theorem exclusion_of_network {p hole : Prefix} (hp : Valid p) (hhole : Valid hole)
    (hbits : overlaps p hole = true → p.bits ≤ hole.bits) :
    ∃ out, (if overlaps p hole then prefixesWithout p hole else some [p]) = some out ∧
      ∀ x, (∃ q ∈ out, q.contains x = true) ↔ p.contains x = true ∧ hole.contains x ≠ true := by
  cases hover : overlaps p hole with
  | true =>
      obtain ⟨out, hout, -, -, hapart, hcover⟩ := prefixesWithout_partition hp hhole
        (inside_of_overlaps hover (hbits hover))
      refine ⟨out, by rw [if_pos rfl, hout], fun x => ?_⟩
      constructor
      · rintro ⟨q, hq, hx⟩
        exact ⟨(hcover x).mpr (.inr ⟨q, hq, hx⟩), hapart q hq x hx⟩
      · rintro ⟨hx, hout⟩
        exact ((hcover x).mp hx).resolve_left hout
  | false =>
      refine ⟨[p], rfl, fun x => ?_⟩
      simp only [List.mem_singleton, exists_eq_left]
      exact ⟨fun hx => ⟨hx, overlaps_eq_false hover x hx⟩, fun hx => hx.1⟩

theorem exclusions_of_networks {hole : Prefix} (hhole : Valid hole) {nets : List Prefix}
    (hnets : ∀ p ∈ nets, Valid p ∧ (overlaps p hole = true → p.bits ≤ hole.bits)) :
    ∃ parts, (nets.mapM fun p => if overlaps p hole then prefixesWithout p hole else some [p]) = some parts ∧
      ∀ x, (∃ q ∈ parts.flatten, q.contains x = true) ↔
        (∃ p ∈ nets, p.contains x = true) ∧ hole.contains x ≠ true := by
  induction nets with
  | nil => exact ⟨[], rfl, fun x => by simp⟩
  | cons p nets ih =>
      obtain ⟨hp, hrest⟩ := List.forall_mem_cons.mp hnets
      obtain ⟨out, hout, hcover⟩ := exclusion_of_network hp.1 hhole hp.2
      obtain ⟨parts, hparts, hcovers⟩ := ih hrest
      refine ⟨out :: parts, ?_, fun x => ?_⟩
      · rw [List.mapM_cons, hout, hparts]
        rfl
      · simp only [List.flatten_cons, List.mem_append, or_and_right, exists_or, hcover x, hcovers x,
          List.exists_mem_cons_iff]

/-- Sniffing leaves alone exactly the local networks outside the fake-IP pool. -/
theorem localSniffExclusions_cover {hole : Prefix} {nets : List Prefix} (hhole : parseCIDR fakeIPv6Pool = some hole)
    (hnets : localNetworkCIDRs.mapM parseCIDR = some nets) :
    ∃ out, localSniffExclusions = some out ∧
      ∀ x, (∃ q ∈ out, q.contains x = true) ↔ (∃ p ∈ nets, p.contains x = true) ∧ hole.contains x ≠ true := by
  have hall : ((parseCIDR fakeIPv6Pool).all fun hole => decide (Valid hole) &&
      (localNetworkCIDRs.mapM parseCIDR).all fun nets => nets.all fun p =>
        decide (Valid p) && decide (overlaps p hole = true → p.bits ≤ hole.bits)) = true := by decide
  simp only [hhole, hnets, Option.all_some, Bool.and_eq_true, decide_eq_true_eq, List.all_eq_true] at hall
  obtain ⟨parts, hparts, hcover⟩ := exclusions_of_networks hall.1 hall.2
  refine ⟨parts.flatten, ?_, hcover⟩
  rw [localSniffExclusions, hhole, Option.bind_some, hnets, Option.bind_some, hparts]
  rfl

theorem fakeIPv6Pool_sniffed : ∃ hole nets out, parseCIDR fakeIPv6Pool = some hole ∧
    localNetworkCIDRs.mapM parseCIDR = some nets ∧ localSniffExclusions = some out ∧
      ∀ x, hole.contains x = true → ¬ ∃ q ∈ out, q.contains x = true := by
  obtain ⟨hole, hhole⟩ : ∃ hole, parseCIDR fakeIPv6Pool = some hole := ⟨_, rfl⟩
  obtain ⟨nets, hnets⟩ : ∃ nets, localNetworkCIDRs.mapM parseCIDR = some nets := ⟨_, rfl⟩
  obtain ⟨out, hout, hcover⟩ := localSniffExclusions_cover hhole hnets
  exact ⟨hole, nets, out, hhole, hnets, hout, fun x hx hcovered => ((hcover x).mp hcovered).2 hx⟩

end GlitchCore.Xray
