import GlitchCore.Base.Runs
import Mathlib.Algebra.Order.Group.Int
import Mathlib.Data.List.Pairwise
import Mathlib.Logic.Function.Basic

/-!
# Proxied traffic on mihomo

mihomo's totals count every connection. DIRECT counts its own bytes as well, a chunk first in its own counter and later in
the totals, and `proxied` takes one from the other. It loads the counters one by one while chunks are counted, so the
difference may be too small for a moment and is never too large; what was shown once is kept.
-/

namespace GlitchCore.Core.Proxied

inductive Dir where
  | up
  | down
  deriving DecidableEq, Repr

/-- The next statement of a `startSession` that has `mu`. -/
inductive StartPlace where
  | loadUp
  | loadDown (up : Int64)
  | storeDirectUp
  | storeDirectDown
  | clearShown
  deriving DecidableEq, Repr

/-- The next statement of a `proxied` that has `mu`, with its variables `up` and `down`. -/
inductive ReadPlace where
  | loadUp
  | loadDown (up : Int64)
  | takeUp (up down : Int64)
  | takeDown (up down : Int64)
  | mark (up down : Int64)
  deriving DecidableEq, Repr

inductive Place where
  | starting (p : StartPlace)
  | reading (p : ReadPlace)
  deriving DecidableEq, Repr

/-- A read that has returned: what it returned, the proxied bytes in the totals when it loaded them, and whether no
DIRECT chunk was between its two counts while it ran. -/
structure Returned where
  value : Dir → UInt64
  seen : Dir → Nat
  clean : Dir → Bool

/-- What the reads are measured against. No statement of the code looks at it. -/
structure Account where
  /-- The proxied bytes in the totals since `startSession` loaded them. -/
  proxied : Dir → Nat
  /-- The same when the read under way loaded the totals. -/
  seen : Dir → Nat
  clean : Dir → Bool
  /-- The reads of the session, in their order. -/
  reads : List Returned

/-- The counters and the chunks of DIRECT that are in its own counter and not in the totals yet. -/
structure State where
  total : Dir → Int64
  direct : Dir → Int64
  base : Dir → Int64
  shown : Dir → UInt64
  mu : Option Place
  pending : List (Dir × Nat)
  account : Account

inductive Act where
  /-- A DIRECT chunk is counted by its connection. -/
  | direct (d : Dir) (n : Nat)
  /-- A DIRECT chunk reaches the totals. -/
  | settle (i : Nat)
  /-- A proxied chunk reaches the totals. -/
  | proxied (d : Dir) (n : Nat)
  /-- `startSession` gets `mu`. -/
  | start
  /-- `proxied` gets `mu`. -/
  | read
  /-- The next statement of the call that has `mu`. -/
  | turn
  deriving DecidableEq, Repr

/-- Both directions of a counter. -/
def both {α : Type} (up down : α) : Dir → α
  | .up => up
  | .down => down

def add (f : Dir → Int64) (d : Dir) (n : Nat) : Dir → Int64 := Function.update f d (f d + Int64.ofNat n)

def State.advanceStart (s : State) : StartPlace → State
  | .loadUp =>
      { s with
        mu := some (.starting (.loadDown (s.total .up)))
        account := { s.account with proxied := Function.update s.account.proxied .up 0 } }
  | .loadDown up =>
      { s with
        base := both up (s.total .down)
        mu := some (.starting .storeDirectUp)
        account := { s.account with proxied := Function.update s.account.proxied .down 0 } }
  | .storeDirectUp => { s with direct := Function.update s.direct .up 0, mu := some (.starting .storeDirectDown) }
  | .storeDirectDown => { s with direct := Function.update s.direct .down 0, mu := some (.starting .clearShown) }
  | .clearShown => { s with shown := both 0 0, mu := none, account := { s.account with reads := [] } }

def State.advanceRead (s : State) : ReadPlace → State
  | .loadUp =>
      { s with
        mu := some (.reading (.loadDown (s.total .up)))
        account := { s.account with seen := Function.update s.account.seen .up (s.account.proxied .up) } }
  | .loadDown up =>
      { s with
        mu := some (.reading (.takeUp up (s.total .down)))
        account := { s.account with seen := Function.update s.account.seen .down (s.account.proxied .down) } }
  | .takeUp up down => { s with mu := some (.reading (.takeDown (up - (s.base .up + s.direct .up)) down)) }
  | .takeDown up down => { s with mu := some (.reading (.mark up (down - (s.base .down + s.direct .down)))) }
  | .mark up down =>
      let shown := both (max (s.shown .up) (max up 0).toUInt64) (max (s.shown .down) (max down 0).toUInt64)
      { s with
        shown
        mu := none
        account := { s.account with reads := s.account.reads ++ [⟨shown, s.account.seen, s.account.clean⟩] } }

def State.advance (s : State) : Place → State
  | .starting p => s.advanceStart p
  | .reading p => s.advanceRead p

/-- The first count of a DIRECT chunk. -/
def State.countDirect (s : State) (d : Dir) (n : Nat) : State :=
  { s with
    direct := add s.direct d n
    pending := s.pending ++ [(d, n)]
    account := { s.account with clean := Function.update s.account.clean d false } }

/-- Its second count. -/
def State.settle (s : State) (i : Nat) (c : Dir × Nat) : State :=
  { s with total := add s.total c.1 c.2, pending := s.pending.eraseIdx i }

def State.countProxied (s : State) (d : Dir) (n : Nat) : State :=
  { s with
    total := add s.total d n
    account := { s.account with proxied := Function.update s.account.proxied d (s.account.proxied d + n) } }

def State.beginRead (s : State) : State :=
  { s with
    mu := some (.reading .loadUp)
    account := { s.account with clean := fun d => s.pending.all fun c => c.1 != d } }

def step (s : State) : Act → Option State
  | .direct d n => some (s.countDirect d n)
  | .settle i => s.pending[i]?.map (s.settle i)
  | .proxied d n => some (s.countProxied d n)
  | .start => if s.mu = none then some { s with mu := some (.starting .loadUp) } else none
  | .read => if s.mu = none then some s.beginRead else none
  | .turn => s.mu.map s.advance

def State.starting (s : State) : Bool :=
  match s.mu with
  | some (.starting _) => true
  | _ => false

def counterLimit : Int := 4611686018427387904

/-- A count that is not negative and below `2^62`. -/
def Small (v : Int64) : Prop := 0 ≤ v.toInt ∧ v.toInt < counterLimit

instance (v : Int64) : Decidable (Small v) := inferInstanceAs (Decidable (_ ∧ _))

/-- No DIRECT chunk is between its two counts while a session starts, and the counters stay below `2^62`. -/
def Orderly (s : State) : Act → Prop
  | .start => s.pending = []
  | .direct d n => s.starting = false ∧ (s.direct d).toInt + n < counterLimit
  | .settle i => ∀ c ∈ s.pending[i]?, (s.total c.1).toInt + c.2 < counterLimit
  | .proxied d n => (s.total d).toInt + n < counterLimit
  | _ => True

instance (s : State) : DecidablePred (Orderly s)
  | .start => inferInstanceAs (Decidable (_ = _))
  | .direct _ _ => inferInstanceAs (Decidable (_ ∧ _))
  | .settle _ => inferInstanceAs (Decidable (∀ _ ∈ _, _))
  | .proxied _ _ => inferInstanceAs (Decidable (_ < _))
  | .read => inferInstanceAs (Decidable True)
  | .turn => inferInstanceAs (Decidable True)

/-- The states of the runs from `s₀` whose sessions start without a half-counted chunk. -/
def Reaches : State → State → Prop := Runs.Reaches (Runs.guarded Orderly step)

/-! ### What is half counted -/

/-- The bytes of one direction in DIRECT's counter and not in the totals. -/
def half (d : Dir) : List (Dir × Nat) → Nat
  | [] => 0
  | c :: pending => (if c.1 = d then c.2 else 0) + half d pending

theorem half_append (d : Dir) (pending : List (Dir × Nat)) (c : Dir × Nat) :
    half d (pending ++ [c]) = half d pending + if c.1 = d then c.2 else 0 := by
  induction pending with
  | nil => simp [half]
  | cons c' pending ih =>
      rw [List.cons_append, half, half, ih]
      omega

theorem half_eraseIdx (d : Dir) {pending : List (Dir × Nat)} {i : Nat} {c : Dir × Nat} (hc : pending[i]? = some c) :
    half d pending = half d (pending.eraseIdx i) + if c.1 = d then c.2 else 0 := by
  induction pending generalizing i with
  | nil => simp at hc
  | cons c' pending ih =>
      cases i with
      | zero =>
          obtain rfl := Option.some.inj hc
          rw [List.eraseIdx_cons_zero, half]
          omega
      | succ i =>
          rw [List.eraseIdx_cons_succ, half, half, ih hc]
          omega

theorem half_of_all {d : Dir} {pending : List (Dir × Nat)} (h : (pending.all fun c => c.1 != d) = true) :
    half d pending = 0 := by
  induction pending with
  | nil => rfl
  | cons c pending ih =>
      simp only [List.all_cons, Bool.and_eq_true, bne_iff_ne] at h
      rw [half, ih h.2, if_neg h.1]

/-! ### The invariant -/

/-- How far the read under way is in one direction. -/
inductive Progress where
  | waiting
  | loaded (v : Int64)
  | taken (v : Int64)

def ReadPlace.progress : ReadPlace → Dir → Progress
  | .loadUp => fun _ => .waiting
  | .loadDown up => both (.loaded up) .waiting
  | .takeUp up down => both (.loaded up) (.loaded down)
  | .takeDown up down => both (.taken up) (.loaded down)
  | .mark up down => both (.taken up) (.taken down)

/-- What the counters of one direction say in a session. -/
structure Balanced (s : State) (d : Dir) : Prop where
  total : Small (s.total d)
  base : Small (s.base d)
  direct : Small (s.direct d)
  balance : (s.total d).toInt + half d s.pending = (s.base d).toInt + s.account.proxied d + (s.direct d).toInt
  shown_le : (s.shown d).toNat ≤ s.account.proxied d
  le_shown : ∀ r ∈ s.account.reads, r.value d ≤ s.shown d
  sorted : s.account.reads.Pairwise fun r r' => r.value d ≤ r'.value d
  sound : ∀ r ∈ s.account.reads, (r.value d).toNat ≤ r.seen d ∧ r.seen d ≤ s.account.proxied d
  exact : ∀ r ∈ s.account.reads, r.clean d = true → (r.value d).toNat = r.seen d

/-- What the read under way knows of one direction. A chunk may be half counted when the totals are loaded, or be counted
before its own counter is; either makes the difference smaller. -/
def Fits (s : State) (d : Dir) : Progress → Prop
  | .waiting => s.account.clean d = true → half d s.pending = 0
  | .loaded v =>
      s.account.seen d ≤ s.account.proxied d ∧ (s.shown d).toNat ≤ s.account.seen d ∧ Small v ∧
        v.toInt ≤ (s.base d).toInt + s.account.seen d + (s.direct d).toInt ∧
        (s.account.clean d = true → v.toInt = (s.base d).toInt + s.account.seen d + (s.direct d).toInt)
  | .taken v =>
      s.account.seen d ≤ s.account.proxied d ∧ (s.shown d).toNat ≤ s.account.seen d ∧ v.toInt ≤ s.account.seen d ∧
        (s.account.clean d = true → v.toInt = s.account.seen d)

/-- The total as a start loaded it, and the proxied bytes since. -/
def Since (s : State) (loaded : Int64) (d : Dir) : Prop :=
  Small loaded ∧ (s.total d).toInt = loaded.toInt + s.account.proxied d

/-- What a start has done so far. -/
def Begun (s : State) : StartPlace → Prop
  | .loadUp => True
  | .loadDown up => Since s up .up
  | .storeDirectUp => ∀ d, Since s (s.base d) d
  | .storeDirectDown => (∀ d, Since s (s.base d) d) ∧ s.direct .up = 0
  | .clearShown => (∀ d, Since s (s.base d) d) ∧ ∀ d, s.direct d = 0

def InvAt (s : State) : Option Place → Prop
  | none => ∀ d, Balanced s d
  | some (.starting p) => s.pending = [] ∧ (∀ d, Small (s.total d)) ∧ Begun s p
  | some (.reading p) => ∀ d, Balanced s d ∧ Fits s d (p.progress d)

def Inv (s : State) : Prop := InvAt s s.mu

/-! ### Counters of 64 bits -/

theorem toInt_add {v : Int64} {n : Nat} (hv : Small v) (hn : v.toInt + n < counterLimit) :
    (v + Int64.ofNat n).toInt = v.toInt + n := by
  obtain ⟨hpos, -⟩ := hv
  unfold counterLimit at hn
  rw [Int64.toInt_add, Int64.toInt_ofNat_of_lt (by omega), Int.bmod_eq_of_le_mul_two (by omega) (by omega)]

theorem Small.add {v : Int64} {n : Nat} (hv : Small v) (hn : v.toInt + n < counterLimit) : Small (v + Int64.ofNat n) := by
  obtain ⟨hpos, -⟩ := id hv
  rw [Small, toInt_add hv hn]
  exact ⟨by omega, hn⟩

theorem toInt_taken {v base direct : Int64} (hv : Small v) (hbase : Small base) (hdirect : Small direct) :
    (v - (base + direct)).toInt = v.toInt - (base.toInt + direct.toInt) := by
  unfold Small counterLimit at hv hbase hdirect
  have hsum : (base + direct).toInt = base.toInt + direct.toInt := by
    rw [Int64.toInt_add, Int.bmod_eq_of_le_mul_two (by omega) (by omega)]
  rw [Int64.toInt_sub, hsum, Int.bmod_eq_of_le_mul_two (by omega) (by omega)]

/-- What `proxied` keeps: the larger of what was shown and of the difference, which may be negative. -/
theorem toNat_max (shown : UInt64) (v : Int64) :
    (max shown (max v 0).toUInt64).toNat = max shown.toNat v.toInt.toNat := by
  have hzero : (0 : Int64).toInt = 0 := by decide
  have hclamp : (max v 0).toUInt64.toNat = v.toInt.toNat := by
    have hmax : max v 0 = if v ≤ 0 then 0 else v := rfl
    rw [hmax]
    by_cases hv : v ≤ 0
    · rw [if_pos hv, Int.toNat_of_nonpos (hzero ▸ Int64.le_iff_toInt_le.mp hv)]
      rfl
    · have hpos : 0 ≤ v := by
        rw [Int64.le_iff_toInt_le, hzero] at hv ⊢
        omega
      rw [if_neg hv, Int64.toNat_toUInt64_of_le hpos]
      rfl
  rw [← hclamp]
  exact UInt64.toNat_max ..

/-! ### Chunks -/

/-- What a chunk does to one direction. -/
structure Moves (s s' : State) (d : Dir) : Prop where
  base : s'.base d = s.base d
  shown : s'.shown d = s.shown d
  reads : s'.account.reads = s.account.reads
  seen : s'.account.seen d = s.account.seen d
  proxied : s.account.proxied d ≤ s'.account.proxied d
  total : Small (s'.total d)
  small : Small (s'.direct d)
  direct : (s.direct d).toInt ≤ (s'.direct d).toInt
  balance : (s'.total d).toInt + half d s'.pending + (s.account.proxied d + (s.direct d).toInt) =
    (s.total d).toInt + half d s.pending + (s'.account.proxied d + (s'.direct d).toInt)
  clean : s'.account.clean d = true →
    s.account.clean d = true ∧ s'.direct d = s.direct d ∧ half d s'.pending ≤ half d s.pending

variable {s s' : State} {d : Dir}

theorem Balanced.moves (h : Balanced s d) (hmoves : Moves s s' d) : Balanced s' d := by
  have hproxied := hmoves.proxied
  refine ⟨hmoves.total, hmoves.base ▸ h.base, hmoves.small, ?_, ?_, ?_, ?_, ?_, ?_⟩
  · have hbalance := h.balance
    have hmove := hmoves.balance
    rw [hmoves.base]
    omega
  · rw [hmoves.shown]
    exact h.shown_le.trans hproxied
  · rw [hmoves.reads, hmoves.shown]
    exact h.le_shown
  · rw [hmoves.reads]
    exact h.sorted
  · rw [hmoves.reads]
    exact fun r hr => ⟨(h.sound r hr).1, (h.sound r hr).2.trans hproxied⟩
  · rw [hmoves.reads]
    exact h.exact

theorem Fits.moves {p : Progress} (h : Fits s d p) (hmoves : Moves s s' d) : Fits s' d p := by
  have hproxied := hmoves.proxied
  have hdirect := hmoves.direct
  cases p with
  | waiting =>
      intro hclean
      obtain ⟨hbefore, -, hle⟩ := hmoves.clean hclean
      exact Nat.le_zero.mp (h hbefore ▸ hle)
  | loaded v =>
      obtain ⟨hseen, hshown, hsmall, hle, hexact⟩ := h
      simp only [Fits, hmoves.base, hmoves.shown, hmoves.seen]
      refine ⟨hseen.trans hproxied, hshown, hsmall, by omega, fun hclean => ?_⟩
      obtain ⟨hbefore, hsame, -⟩ := hmoves.clean hclean
      rw [hsame]
      exact hexact hbefore
  | taken v =>
      obtain ⟨hseen, hshown, hle, hexact⟩ := h
      simp only [Fits, hmoves.shown, hmoves.seen]
      exact ⟨hseen.trans hproxied, hshown, hle, fun hclean => hexact (hmoves.clean hclean).1⟩

theorem moves_direct {e : Dir} {n : Nat} (hn : (s.direct e).toInt + n < counterLimit) (htotal : Small (s.total d))
    (hsmall : Small (s.direct d)) : Moves s (s.countDirect e n) d := by
  have hhalf : half d (s.countDirect e n).pending = half d s.pending + if e = d then n else 0 :=
    half_append d s.pending (e, n)
  have hsame : (s.countDirect e n).total d = s.total d := rfl
  have hproxied : (s.countDirect e n).account.proxied d = s.account.proxied d := rfl
  by_cases hd : d = e
  · subst hd
    have hdirect : (s.countDirect d n).direct d = s.direct d + Int64.ofNat n := Function.update_self ..
    have hclean : (s.countDirect d n).account.clean d = false := Function.update_self ..
    have hadd := toInt_add hsmall hn
    rw [if_pos rfl] at hhalf
    refine ⟨rfl, rfl, rfl, rfl, le_rfl, htotal, hdirect ▸ hsmall.add hn, ?_, ?_, fun h => ?_⟩
    · rw [hdirect]
      omega
    · rw [hdirect, hsame, hproxied]
      omega
    · rw [hclean] at h
      cases h
  · have hdirect : (s.countDirect e n).direct d = s.direct d := Function.update_of_ne hd ..
    have hclean : (s.countDirect e n).account.clean d = s.account.clean d := Function.update_of_ne hd ..
    rw [if_neg (Ne.symm hd), Nat.add_zero] at hhalf
    refine ⟨rfl, rfl, rfl, rfl, le_rfl, htotal, hdirect ▸ hsmall, by rw [hdirect], ?_, fun h =>
      ⟨hclean ▸ h, hdirect, hhalf.le⟩⟩
    rw [hdirect, hsame, hproxied, hhalf]

theorem moves_settle {i : Nat} {c : Dir × Nat} (hc : s.pending[i]? = some c)
    (hn : (s.total c.1).toInt + c.2 < counterLimit) (htotal : Small (s.total d)) (hsmall : Small (s.direct d)) :
    Moves s (s.settle i c) d := by
  have hhalf : half d s.pending = half d (s.settle i c).pending + if c.1 = d then c.2 else 0 := half_eraseIdx d hc
  have hdirect : (s.settle i c).direct d = s.direct d := rfl
  have hproxied : (s.settle i c).account.proxied d = s.account.proxied d := rfl
  by_cases hd : d = c.1
  · subst hd
    have hsum : (s.settle i c).total c.1 = s.total c.1 + Int64.ofNat c.2 := Function.update_self ..
    have hadd := toInt_add htotal hn
    rw [if_pos rfl] at hhalf
    refine ⟨rfl, rfl, rfl, rfl, le_rfl, hsum ▸ htotal.add hn, hsmall, le_rfl, ?_, fun hclean => ⟨hclean, rfl, by omega⟩⟩
    rw [hsum, hdirect, hproxied]
    omega
  · have hsame : (s.settle i c).total d = s.total d := Function.update_of_ne hd ..
    rw [if_neg (Ne.symm hd), Nat.add_zero] at hhalf
    refine ⟨rfl, rfl, rfl, rfl, le_rfl, hsame ▸ htotal, hsmall, le_rfl, ?_, fun hclean => ⟨hclean, rfl, hhalf.ge⟩⟩
    rw [hsame, hdirect, hproxied, hhalf]

theorem proxied_total {e : Dir} {n : Nat} (hn : (s.total e).toInt + n < counterLimit) (htotal : Small (s.total d)) :
    Small ((s.countProxied e n).total d) ∧ ((s.countProxied e n).total d).toInt + s.account.proxied d =
      (s.total d).toInt + (s.countProxied e n).account.proxied d ∧
      s.account.proxied d ≤ (s.countProxied e n).account.proxied d := by
  by_cases hd : d = e
  · subst hd
    have hsum : (s.countProxied d n).total d = s.total d + Int64.ofNat n := Function.update_self ..
    have hproxied : (s.countProxied d n).account.proxied d = s.account.proxied d + n := Function.update_self ..
    rw [hsum, hproxied, toInt_add htotal hn]
    exact ⟨htotal.add hn, by omega, by omega⟩
  · have hsame : (s.countProxied e n).total d = s.total d := Function.update_of_ne hd ..
    have hproxied : (s.countProxied e n).account.proxied d = s.account.proxied d := Function.update_of_ne hd ..
    rw [hsame, hproxied]
    exact ⟨htotal, rfl, le_rfl⟩

theorem moves_proxied {e : Dir} {n : Nat} (hn : (s.total e).toInt + n < counterLimit) (htotal : Small (s.total d))
    (hsmall : Small (s.direct d)) : Moves s (s.countProxied e n) d := by
  have hsame : (s.countProxied e n).direct d = s.direct d ∧ (s.countProxied e n).pending = s.pending := ⟨rfl, rfl⟩
  obtain ⟨hkept, hsum, hle⟩ := proxied_total hn htotal
  refine ⟨rfl, rfl, rfl, rfl, hle, hkept, hsmall, le_rfl, ?_, fun hclean => ⟨hclean, rfl, le_rfl⟩⟩
  rw [hsame.1, hsame.2]
  omega

theorem Inv.balanced (h : Inv s) (hstart : s.starting = false) (d : Dir) : Balanced s d := by
  rw [State.starting] at hstart
  rw [Inv] at h
  cases hplace : s.mu with
  | none =>
      rw [hplace] at h
      exact h d
  | some place =>
      rw [hplace] at h
      cases place with
      | starting p => simp [hplace] at hstart
      | reading p => exact (h d).1

/-- Outside a start, a chunk keeps the invariant. -/
theorem Inv.moves (h : Inv s) (hmu : s'.mu = s.mu) (hstart : s.starting = false)
    (hmoves : ∀ d, Balanced s d → Moves s s' d) : Inv s' := by
  have hbalanced := h.balanced hstart
  rw [State.starting] at hstart
  unfold Inv at h ⊢
  rw [hmu]
  cases hplace : s.mu with
  | none =>
      rw [hplace] at h
      exact fun d => (h d).moves (hmoves d (hbalanced d))
  | some place =>
      rw [hplace] at h
      cases place with
      | starting p => simp [hplace] at hstart
      | reading p =>
          exact fun d => ⟨(h d).1.moves (hmoves d (hbalanced d)), (h d).2.moves (hmoves d (hbalanced d))⟩

/-- A proxied chunk while a session starts. -/
theorem Begun.proxied {p : StartPlace} (h : Begun s p) (htotal : ∀ d, Small (s.total d)) {e : Dir} {n : Nat}
    (hn : (s.total e).toInt + n < counterLimit) : Begun (s.countProxied e n) p := by
  have hsince (loaded : Int64) (d : Dir) (hd : Since s loaded d) : Since (s.countProxied e n) loaded d := by
    obtain ⟨-, hsum, -⟩ := proxied_total hn (htotal d)
    have hloaded := hd.2
    exact ⟨hd.1, by omega⟩
  cases p with
  | loadUp => trivial
  | loadDown up => exact hsince up .up h
  | storeDirectUp => exact fun d => hsince _ d (h d)
  | storeDirectDown => exact ⟨fun d => hsince _ d (h.1 d), h.2⟩
  | clearShown => exact ⟨fun d => hsince _ d (h.1 d), h.2⟩

/-! ### The statements under the lock -/

theorem Begun.advance {p : StartPlace} (hpending : s.pending = []) (htotal : ∀ d, Small (s.total d)) (h : Begun s p) :
    Inv (s.advanceStart p) := by
  cases p with
  | loadUp =>
      refine ⟨hpending, htotal, htotal .up, ?_⟩
      show (s.total .up).toInt = (s.total .up).toInt + (Function.update s.account.proxied .up 0 .up : Nat)
      rw [Function.update_self, Int.natCast_zero, Int.add_zero]
  | loadDown up =>
      refine ⟨hpending, htotal, fun d => ?_⟩
      cases d with
      | up =>
          refine ⟨h.1, ?_⟩
          show (s.total .up).toInt = up.toInt + (Function.update s.account.proxied .down 0 .up : Nat)
          rw [Function.update_of_ne (by decide)]
          exact h.2
      | down =>
          refine ⟨htotal .down, ?_⟩
          show (s.total .down).toInt = (s.total .down).toInt + (Function.update s.account.proxied .down 0 .down : Nat)
          rw [Function.update_self, Int.natCast_zero, Int.add_zero]
  | storeDirectUp =>
      refine ⟨hpending, htotal, h, ?_⟩
      show Function.update s.direct .up 0 .up = 0
      exact Function.update_self ..
  | storeDirectDown =>
      refine ⟨hpending, htotal, h.1, fun d => ?_⟩
      show Function.update s.direct .down 0 d = 0
      cases d with
      | up => rw [Function.update_of_ne (by decide), h.2]
      | down => exact Function.update_self ..
  | clearShown =>
      intro d
      have hdirect : (s.direct d).toInt = 0 := by
        rw [h.2 d]
        decide
      have hshown : (both 0 0 d : UInt64).toNat ≤ s.account.proxied d := by cases d <;> exact Nat.zero_le _
      have hlimit : Small (s.direct d) := by
        rw [Small, hdirect]
        decide
      refine ⟨htotal d, (h.1 d).1, hlimit, ?_, hshown, nofun, .nil, nofun, nofun⟩
      have hsince := (h.1 d).2
      have hhalf : half d s.pending = 0 := by rw [hpending]; rfl
      show (s.total d).toInt + half d s.pending = (s.base d).toInt + s.account.proxied d + (s.direct d).toInt
      omega

/-- A read that goes on, and may remember the proxied bytes of one direction. -/
def State.remember (s : State) (mu : Option Place) (seen : Dir → Nat) : State :=
  { s with mu, account := { s.account with seen } }

theorem Balanced.remember (h : Balanced s d) (mu : Option Place) (seen : Dir → Nat) : Balanced (s.remember mu seen) d :=
  ⟨h.total, h.base, h.direct, h.balance, h.shown_le, h.le_shown, h.sorted, h.sound, h.exact⟩

theorem Fits.remember {p : Progress} (h : Fits s d p) (mu : Option Place) {seen : Dir → Nat}
    (hseen : seen d = s.account.seen d) : Fits (s.remember mu seen) d p := by
  cases p with
  | waiting => exact h
  | loaded v =>
      have hsame : (s.remember mu seen).account.seen d = s.account.seen d := hseen
      simp only [Fits, hsame]
      exact h
  | taken v =>
      have hsame : (s.remember mu seen).account.seen d = s.account.seen d := hseen
      simp only [Fits, hsame]
      exact h

theorem Fits.load (h : Fits s d .waiting) (hbalanced : Balanced s d) (mu : Option Place) {seen : Dir → Nat}
    (hseen : seen d = s.account.proxied d) : Fits (s.remember mu seen) d (.loaded (s.total d)) := by
  have hsame : (s.remember mu seen).account.seen d = s.account.proxied d := hseen
  have hbalance := hbalanced.balance
  simp only [Fits, hsame]
  refine ⟨le_rfl, hbalanced.shown_le, hbalanced.total, ?_, fun hclean => ?_⟩
  · show (s.total d).toInt ≤ (s.base d).toInt + s.account.proxied d + (s.direct d).toInt
    omega
  · have hhalf := h hclean
    show (s.total d).toInt = (s.base d).toInt + s.account.proxied d + (s.direct d).toInt
    omega

theorem Fits.take {v : Int64} (h : Fits s d (.loaded v)) (hbalanced : Balanced s d) (mu : Option Place) :
    Fits { s with mu } d (.taken (v - (s.base d + s.direct d))) := by
  obtain ⟨hseen, hshown, hsmall, hle, hexact⟩ := h
  have htaken := toInt_taken hsmall hbalanced.base hbalanced.direct
  refine ⟨hseen, hshown, ?_, fun hclean => ?_⟩
  · show (v - (s.base d + s.direct d)).toInt ≤ s.account.seen d
    omega
  · have hv := hexact hclean
    show (v - (s.base d + s.direct d)).toInt = s.account.seen d
    omega

/-- The end of a read, in one direction: what it shows is the larger of what was shown and what it found. -/
theorem Balanced.mark {v : Int64} {shown : Dir → UInt64} (h : Balanced s d) (hfits : Fits s d (.taken v))
    (hshown : shown d = max (s.shown d) (max v 0).toUInt64) :
    Balanced { s with
      shown
      mu := none
      account := { s.account with reads := s.account.reads ++ [⟨shown, s.account.seen, s.account.clean⟩] } } d := by
  obtain ⟨hseen, hbefore, hle, hexact⟩ := hfits
  have hmax : (shown d).toNat = max (s.shown d).toNat v.toInt.toNat := by rw [hshown, toNat_max]
  have hvalue : (shown d).toNat ≤ s.account.seen d := by omega
  have hgrows : s.shown d ≤ shown d := UInt64.le_iff_toNat_le.mpr (by omega)
  refine ⟨h.total, h.base, h.direct, h.balance, hvalue.trans hseen, ?_, ?_, ?_, ?_⟩
  · intro r hr
    obtain hr | hr := List.mem_append.mp hr
    · exact UInt64.le_trans (h.le_shown r hr) hgrows
    · obtain rfl := List.mem_singleton.mp hr
      exact UInt64.le_refl _
  · refine List.pairwise_append.mpr ⟨h.sorted, List.pairwise_singleton .., fun r hr r' hr' => ?_⟩
    obtain rfl := List.mem_singleton.mp hr'
    exact UInt64.le_trans (h.le_shown r hr) hgrows
  · intro r hr
    obtain hr | hr := List.mem_append.mp hr
    · exact h.sound r hr
    · obtain rfl := List.mem_singleton.mp hr
      exact ⟨hvalue, hseen⟩
  · intro r hr hclean
    obtain hr | hr := List.mem_append.mp hr
    · exact h.exact r hr hclean
    · obtain rfl := List.mem_singleton.mp hr
      have hv := hexact hclean
      show (shown d).toNat = s.account.seen d
      omega

theorem inv_advanceRead {p : ReadPlace} (h : ∀ d, Balanced s d ∧ Fits s d (p.progress d)) : Inv (s.advanceRead p) := by
  cases p with
  | loadUp =>
      intro d
      refine ⟨(h d).1.remember .., ?_⟩
      cases d with
      | up => exact (h .up).2.load (h .up).1 _ (Function.update_self ..)
      | down => exact (h .down).2.remember _ (Function.update_of_ne (by decide) ..)
  | loadDown up =>
      intro d
      refine ⟨(h d).1.remember .., ?_⟩
      cases d with
      | up => exact (h .up).2.remember _ (Function.update_of_ne (by decide) ..)
      | down => exact (h .down).2.load (h .down).1 _ (Function.update_self ..)
  | takeUp up down =>
      intro d
      refine ⟨(h d).1.remember _ s.account.seen, ?_⟩
      cases d with
      | up => exact (h .up).2.take (h .up).1 _
      | down => exact (h .down).2.remember _ rfl
  | takeDown up down =>
      intro d
      refine ⟨(h d).1.remember _ s.account.seen, ?_⟩
      cases d with
      | up => exact (h .up).2.remember _ rfl
      | down => exact (h .down).2.take (h .down).1 _
  | mark up down =>
      intro d
      cases d with
      | up => exact (h .up).1.mark (h .up).2 rfl
      | down => exact (h .down).1.mark (h .down).2 rfl

/-! ### Runs -/

theorem exists_starting (h : s.starting = true) : ∃ p, s.mu = some (.starting p) := by
  unfold State.starting at h
  split at h
  next p hp => exact ⟨p, hp⟩
  next => cases h

theorem Inv.step (h : Inv s) {a : Act} (horderly : Orderly s a) (hstep : step s a = some s') : Inv s' := by
  cases a with
  | direct d n =>
      obtain rfl := Option.some.inj hstep
      exact h.moves rfl horderly.1 fun d hd => moves_direct horderly.2 hd.total hd.direct
  | settle i =>
      obtain ⟨c, hc, rfl⟩ := Option.map_eq_some_iff.mp hstep
      cases hstarting : s.starting with
      | true =>
          obtain ⟨p, hp⟩ := exists_starting hstarting
          rw [Inv, hp] at h
          rw [h.1] at hc
          cases hc
      | false => exact h.moves rfl hstarting fun d hd => moves_settle hc (horderly c hc) hd.total hd.direct
  | proxied d n =>
      obtain rfl := Option.some.inj hstep
      cases hstarting : s.starting with
      | true =>
          obtain ⟨p, hp⟩ := exists_starting hstarting
          have hmu : (s.countProxied d n).mu = some (.starting p) := hp
          rw [Inv, hp] at h
          rw [Inv, hmu]
          exact ⟨h.1, fun e => (proxied_total horderly (h.2.1 e)).1, h.2.2.proxied h.2.1 horderly⟩
      | false => exact h.moves rfl hstarting fun d hd => moves_proxied horderly hd.total hd.direct
  | start =>
      simp only [Proxied.step] at hstep
      split at hstep
      next hfree =>
        obtain rfl := Option.some.inj hstep
        rw [Inv, hfree] at h
        exact ⟨horderly, fun d => (h d).total, trivial⟩
      next => cases hstep
  | read =>
      simp only [Proxied.step] at hstep
      split at hstep
      next hfree =>
        obtain rfl := Option.some.inj hstep
        rw [Inv, hfree] at h
        intro d
        have hd := h d
        exact ⟨⟨hd.total, hd.base, hd.direct, hd.balance, hd.shown_le, hd.le_shown, hd.sorted, hd.sound, hd.exact⟩,
          half_of_all⟩
      next => cases hstep
  | turn =>
      obtain ⟨place, hplace, rfl⟩ := Option.map_eq_some_iff.mp hstep
      rw [Inv, hplace] at h
      cases place with
      | starting p => exact h.2.2.advance h.1 h.2.1
      | reading p => exact inv_advanceRead h

/-- What the reads of a session return. From a start without a half-counted chunk on, through any order of chunks, reads
and later such starts, the counters staying below `2^62`: they never decrease, each is at most the proxied bytes that were
in the totals when it loaded them, and exactly those if no chunk was between its two counts during the read. -/
theorem reads_of_session {s₀ s : State} (hstart : s₀.mu = some (.starting .loadUp)) (hpending : s₀.pending = [])
    (htotal : ∀ d, Small (s₀.total d)) (hreach : Reaches s₀ s) (hsession : s.starting = false) (d : Dir) :
    (s.account.reads.Pairwise fun r r' => r.value d ≤ r'.value d) ∧
      ∀ r ∈ s.account.reads, (r.value d).toNat ≤ r.seen d ∧ r.seen d ≤ s.account.proxied d ∧
        (r.clean d = true → (r.value d).toNat = r.seen d) := by
  have hinit : Inv s₀ := by
    rw [Inv, hstart]
    exact ⟨hpending, htotal, trivial⟩
  have hinv : Inv s := hreach.invariant hinit fun _ _ _ hinv hstep =>
    hinv.step (Runs.guarded_eq_some.mp hstep).1 (Runs.guarded_eq_some.mp hstep).2
  have hbalanced := hinv.balanced hsession d
  refine ⟨hbalanced.sorted, fun r hr => ?_⟩
  exact ⟨(hbalanced.sound r hr).1, (hbalanced.sound r hr).2, hbalanced.exact r hr⟩

/-- A session that starts over old counters. -/
def restarted : State where
  total := both 500 900
  direct := both 20 30
  base := both 1 2
  shown := both 400 800
  mu := some (.starting .loadUp)
  pending := []
  account := ⟨both 7 7, both 7 7, both true true, []⟩

/-- A read, a chunk half counted across the next one, and a read after it has settled. -/
def threeReads : List Act :=
  List.replicate 5 .turn ++ [.proxied .down 100, .read] ++ List.replicate 5 .turn ++
    [.read, .turn, .turn, .direct .down 60, .turn, .turn, .turn, .proxied .down 40, .settle 0, .read] ++
      List.replicate 5 .turn

theorem reads_of_session_threeReads : ∃ s, Runs.exec (Runs.guarded Orderly step) restarted threeReads = some s ∧
    s.account.reads.map (fun r => (r.value .down, r.seen .down, r.clean .down)) =
      [(100, 100, true), (100, 100, false), (140, 140, true)] ∧
    ∀ r ∈ s.account.reads, (r.value .down).toNat ≤ r.seen .down ∧ r.seen .down ≤ s.account.proxied .down ∧
      (r.clean .down = true → (r.value .down).toNat = r.seen .down) := by
  have hrun : ((Runs.exec (Runs.guarded Orderly step) restarted threeReads).map fun s =>
      (s.account.reads.map (fun r => (r.value .down, r.seen .down, r.clean .down)), s.starting)) =
        some ([(100, 100, true), (100, 100, false), (140, 140, true)], false) := by decide
  obtain ⟨s, hs, heq⟩ := Option.map_eq_some_iff.mp hrun
  obtain ⟨hreads, hsession⟩ := Prod.mk.inj heq
  have htotal : ∀ d, Small (restarted.total d) := fun d => by cases d <;> decide
  exact ⟨s, hs, hreads, (reads_of_session rfl rfl htotal (Runs.reaches_of_exec hs) hsession .down).2⟩

end GlitchCore.Core.Proxied
