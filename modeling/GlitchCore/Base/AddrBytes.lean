import GlitchCore.Base.NetAddr
import Mathlib.Data.List.GetD

/-!
# The bytes of an address

`Addr.AsSlice` and `netip.AddrFromSlice` take an address to its bytes and back, and `Prefix.Masked` clears what a
prefix leaves free. Flipping a bit among the bytes flips it in the address, which turns a prefix into the other half
of the one a bit shorter.
-/

namespace NetAddr

variable {w : Nat}

/-! ### Bytes -/

/-- The lowest `n` bytes, the highest of them first. -/
def bytes (n : Nat) (a : BitVec w) : List (BitVec 8) :=
  (List.range n).map fun k => (a >>> (8 * (n - 1 - k))).setWidth 8

def ofBytes (w : Nat) (bs : List (BitVec 8)) : BitVec w := bs.foldl (fun a b => a <<< 8 ||| b.setWidth w) 0

def IP.asSlice : IP → List (BitVec 8)
  | .v4 a => bytes 4 a
  | .v6 a => bytes 16 a

/-- The address of four or sixteen bytes, as `netip.AddrFromSlice` tells the families apart. -/
def addrFromSlice (bs : List (BitVec 8)) : Option IP :=
  if bs.length = 4 then some (.v4 (ofBytes 32 bs))
  else if bs.length = 16 then some (.v6 (ofBytes 128 bs))
  else none

/-- `b[bit/8] ^= 0x80 >> (bit % 8)`. -/
def flipBit (bs : List (BitVec 8)) (bit : Nat) : List (BitVec 8) :=
  bs.modify (bit / 8) fun b => b ^^^ (0x80#8 >>> (bit % 8))

theorem length_bytes (n : Nat) (a : BitVec w) : (bytes n a).length = n := by
  rw [bytes, List.length_map, List.length_range]

theorem length_flipBit (bs : List (BitVec 8)) (bit : Nat) : (flipBit bs bit).length = bs.length :=
  List.length_modify ..

theorem getLsbD_ofBytes (bs : List (BitVec 8)) {j : Nat} (hj : j < w) :
    (ofBytes w bs).getLsbD j = (decide (j / 8 < bs.length) && (bs.getD (bs.length - 1 - j / 8) 0).getLsbD (j % 8)) := by
  induction bs using List.reverseRecOn generalizing j with
  | nil => simp [ofBytes]
  | append_singleton bs b ih =>
      have hfold : ofBytes w (bs ++ [b]) = ofBytes w bs <<< 8 ||| b.setWidth w := by
        rw [ofBytes, List.foldl_append]
        rfl
      rw [hfold, BitVec.getLsbD_or, BitVec.getLsbD_shiftLeft, BitVec.getLsbD_setWidth, List.length_append,
        List.length_singleton]
      by_cases hlow : j < 8
      · have hzero : j / 8 = 0 := by omega
        have hmod : j % 8 = j := by omega
        simp [hj, hlow, hzero, hmod, List.getD]
      · have hhigh : b.getLsbD j = false := BitVec.getLsbD_of_ge _ _ (by omega)
        have hdiv : j / 8 = (j - 8) / 8 + 1 := by omega
        have hmod : j % 8 = (j - 8) % 8 := by omega
        simp only [hj, hlow, hhigh, decide_true, decide_false, Bool.not_false, Bool.true_and, Bool.and_false,
          Bool.or_false, hdiv, hmod, Nat.add_lt_add_iff_right]
        rw [ih (by omega)]
        by_cases hin : (j - 8) / 8 < bs.length
        · rw [List.getD_append _ _ _ _ (by omega)]
          simp only [hin, decide_true, Bool.true_and]
          congr 2
          omega
        · simp only [hin, decide_false, Bool.false_and]

theorem getD_bytes (n : Nat) (a : BitVec w) {k : Nat} (hk : k < n) :
    (bytes n a).getD k 0 = (a >>> (8 * (n - 1 - k))).setWidth 8 := by
  rw [List.getD_eq_getElem _ _ (by rw [length_bytes]; exact hk)]
  simp only [bytes, List.getElem_map, List.getElem_range]

theorem getLsbD_highBit (r i : Nat) : (0x80#8 >>> r).getLsbD i = decide (r + i = 7) := by
  rw [BitVec.getLsbD_ushiftRight, show 0x80#8 = BitVec.twoPow 8 7 from rfl, BitVec.getLsbD_twoPow]
  simp only [show 7 < 8 by omega, decide_true, Bool.true_and, eq_comm]

/-- Flipping a bit among the bytes of an address flips it in the address, counted from the top. -/
theorem ofBytes_flipBit {n bit : Nat} (a : BitVec w) (hw : w = 8 * n) (hbit : bit < w) :
    ofBytes w (flipBit (bytes n a) bit) = a ^^^ BitVec.twoPow w (w - 1 - bit) := by
  refine BitVec.eq_of_getLsbD_eq fun j hj => ?_
  rw [getLsbD_ofBytes _ hj, length_flipBit, length_bytes, BitVec.getLsbD_xor, BitVec.getLsbD_twoPow]
  have hindex : n - 1 - j / 8 < n := by omega
  have hbyte : ((bytes n a).getD (n - 1 - j / 8) 0).getLsbD (j % 8) = a.getLsbD j := by
    have hsum : 8 * (n - 1 - (n - 1 - j / 8)) + j % 8 = j := by omega
    have hsmall : j % 8 < 8 := by omega
    rw [getD_bytes n a hindex, BitVec.getLsbD_setWidth, BitVec.getLsbD_ushiftRight, hsum]
    simp only [hsmall, decide_true, Bool.true_and]
  have hin : j / 8 < n := by omega
  simp only [hin, decide_true, Bool.true_and]
  have hflip : (flipBit (bytes n a) bit).getD (n - 1 - j / 8) 0 =
      if bit / 8 = n - 1 - j / 8 then (bytes n a).getD (n - 1 - j / 8) 0 ^^^ (0x80#8 >>> (bit % 8))
      else (bytes n a).getD (n - 1 - j / 8) 0 := by
    rw [List.getD_eq_getElem _ _ (by rw [length_flipBit, length_bytes]; exact hindex),
      List.getD_eq_getElem _ _ (by rw [length_bytes]; exact hindex)]
    simp only [flipBit, List.getElem_modify]
  have hposition : w - 1 - bit = j ↔ bit / 8 = n - 1 - j / 8 ∧ bit % 8 + j % 8 = 7 := by omega
  rw [hflip]
  split
  next hsame =>
    rw [BitVec.getLsbD_xor, hbyte, getLsbD_highBit]
    simp only [hposition, hsame, true_and, show w - 1 - bit < w by omega, decide_true, Bool.true_and]
  next hother =>
    rw [hbyte]
    simp only [hposition, hother, false_and, decide_false, Bool.and_false, Bool.xor_false]

/-! ### The halves of a prefix -/

def mask (a : BitVec w) (bits : Nat) : BitVec w := a >>> (w - bits) <<< (w - bits)

/-- `Prefix.Masked`. -/
def Prefix.masked (p : Prefix) : Prefix :=
  match p.addr with
  | .v4 a => ⟨.v4 (mask a p.bits), p.bits⟩
  | .v6 a => ⟨.v6 (mask a p.bits), p.bits⟩

theorem mask_ushiftRight (a : BitVec w) (bits : Nat) : mask a bits >>> (w - bits) = a >>> (w - bits) := by
  refine BitVec.eq_of_getLsbD_eq fun j hj => ?_
  simp only [mask, BitVec.getLsbD_ushiftRight, BitVec.getLsbD_shiftLeft]
  by_cases hlt : w - bits + j < w
  · simp [hlt]
  · rw [BitVec.getLsbD_of_ge a (w - bits + j) (by omega)]
    simp [hlt]

/-- Two numbers that differ in their lowest bit only. -/
theorem eq_xor_one_iff (hw : 0 < w) (x y : BitVec w) : x = y ^^^ 1#w ↔ x >>> 1 = y >>> 1 ∧ x ≠ y := by
  have hone (j : Nat) : (1#w).getLsbD j = decide (j = 0) := by
    rw [show 1#w = BitVec.twoPow w 0 from BitVec.twoPow_zero.symm, BitVec.getLsbD_twoPow]
    simp [hw, eq_comm]
  constructor
  · rintro rfl
    constructor
    · refine BitVec.eq_of_getLsbD_eq fun j _ => ?_
      simp [BitVec.getLsbD_ushiftRight, BitVec.getLsbD_xor, hone]
    · intro heq
      have hbit := congrArg (fun z => z.getLsbD 0) heq
      simp [BitVec.getLsbD_xor, hone] at hbit
  · rintro ⟨hshift, hne⟩
    refine BitVec.eq_of_getLsbD_eq fun j hj => ?_
    have hhigh (k : Nat) : x.getLsbD (1 + k) = y.getLsbD (1 + k) := by
      have hbit := congrArg (fun z => z.getLsbD k) hshift
      simpa only [BitVec.getLsbD_ushiftRight] using hbit
    rw [BitVec.getLsbD_xor, hone]
    cases j with
    | succ k =>
        rw [Nat.add_comm, hhigh]
        simp
    | zero =>
        by_contra hlow
        refine hne (BitVec.eq_of_getLsbD_eq fun j _ => ?_)
        cases j with
        | zero => simpa using hlow
        | succ k => rw [Nat.add_comm, hhigh]

/-- The numbers that share all of the highest `bits` but the last of them with `a`. -/
theorem eq_sibling_iff (a x : BitVec w) {bits : Nat} (hpos : 0 < bits) (hbits : bits ≤ w) :
    x >>> (w - bits) = mask (mask a bits ^^^ BitVec.twoPow w (w - bits)) bits >>> (w - bits) ↔
      x >>> (w - (bits - 1)) = a >>> (w - (bits - 1)) ∧ x >>> (w - bits) ≠ a >>> (w - bits) := by
  have hflip : BitVec.twoPow w (w - bits) >>> (w - bits) = 1#w := by
    refine BitVec.eq_of_getLsbD_eq fun j _ => ?_
    rw [BitVec.getLsbD_ushiftRight, BitVec.getLsbD_twoPow, ← BitVec.twoPow_zero, BitVec.getLsbD_twoPow]
    simp [show w - bits < w by omega, show 0 < w by omega, eq_comm]
  have hshift : w - (bits - 1) = w - bits + 1 := by omega
  rw [mask_ushiftRight, BitVec.ushiftRight_xor_distrib, mask_ushiftRight, hflip, eq_xor_one_iff (by omega), hshift,
    BitVec.shiftRight_add, BitVec.shiftRight_add]

end NetAddr
