import GlitchCore.Base.GoText
import Mathlib.Data.List.GetD

/-!
# The balancer's pick, read off traffic

`tagTrafficPickerFrom` names the outbound whose counters grew most since the last poll. One pass keeps the best growth
and the runner-up, and the pick stands if the best clears a floor and leads the runner-up. The theorem says it stands
exactly if it leads every other tag, on every poll of any sequence.
-/

namespace GlitchCore.Core.Traffic

open GoText

def minTagTrafficDelta : UInt64 := 32 * 1024

def tagTrafficLead : UInt64 := 2

/-- What the counters of a source read at a poll; `none` is a counter that is not there. -/
abbrev StatsSource := Text → Option Int64

def counterName (tag direction : Text) : Text := "outbound>>>".toList ++ tag ++ ">>>traffic>>>".toList ++ direction

/-- `uint64(c.Value())`, 0 without a counter. -/
def counterValue (src : StatsSource) (name : Text) : UInt64 :=
  match src name with
  | some v => v.toUInt64
  | none => 0

def outboundTraffic (src : StatsSource) (tag : Text) : UInt64 × UInt64 :=
  (counterValue src (counterName tag "uplink".toList), counterValue src (counterName tag "downlink".toList))

/-- A source that is not there reads 0 for every tag. -/
def tagTraffic (src : Option StatsSource) (tags : List Text) : List UInt64 :=
  match src with
  | none => List.replicate tags.length 0
  | some src => tags.map fun tag => (outboundTraffic src tag).1 + (outboundTraffic src tag).2

/-- The growth of one counter, 0 if it fell. -/
def delta (cur prev : UInt64) : UInt64 := if cur ≥ prev then cur - prev else 0

/-- What the loop over the tags keeps. -/
structure Lead where
  best : Int := -1
  bestDelta : UInt64 := 0
  runnerUp : UInt64 := 0
  deriving DecidableEq, Repr

def Lead.count (l : Lead) (i : Nat) (delta : UInt64) : Lead :=
  if delta > l.bestDelta then ⟨i, delta, l.bestDelta⟩
  else if delta > l.runnerUp then { l with runnerUp := delta }
  else l

/-- The loop over the first `n` tags. -/
def leadOf (deltas : Nat → UInt64) (n : Nat) : Lead := (List.range n).foldl (fun l i => l.count i (deltas i)) {}

def Lead.verdict (l : Lead) : Int :=
  if l.bestDelta < minTagTrafficDelta ∨ l.bestDelta < l.runnerUp * tagTrafficLead then -1 else l.best

/-- What the closure keeps between its calls. -/
structure Picker where
  prev : List UInt64
  seeded : Bool := false
  deriving DecidableEq, Repr

def tagTrafficPickerFrom (tags : List Text) : Picker := { prev := List.replicate tags.length 0 }

/-- One call of the closure. -/
def Picker.pick (tags : List Text) (p : Picker) (src : Option StatsSource) : Int × Picker :=
  let cur := tagTraffic src tags
  if p.seeded then
    ((leadOf (fun i => delta (cur.getD i 0) (p.prev.getD i 0)) tags.length).verdict, { p with prev := cur })
  else (-1, ⟨cur, true⟩)

/-- The results of a sequence of polls. -/
def Picker.picks (tags : List Text) : Picker → List (Option StatsSource) → List Int
  | _, [] => []
  | p, src :: polls => (p.pick tags src).1 :: (p.pick tags src).2.picks tags polls

/-! ### The purpose -/

/-- The bytes a tag's counters hold, as a number. -/
def total (src : Option StatsSource) (tag : Text) : Nat :=
  src.elim 0 fun src => (outboundTraffic src tag).1.toNat + (outboundTraffic src tag).2.toNat

/-- What the tag numbered `i` grew by between two polls. The subtraction leaves 0 for a tag that fell. -/
def growth (tags : List Text) (last now : Option StatsSource) (i : Nat) : Nat :=
  total now (tags.getD i []) - total last (tags.getD i [])

/-- Among `n` tags the one numbered `i` grew by the floor at least, and by the lead over every other one. -/
structure StandsOut (n : Nat) (growth : Nat → Nat) (i : Nat) : Prop where
  lt : i < n
  floor : minTagTrafficDelta.toNat ≤ growth i
  lead : ∀ j < n, j ≠ i → tagTrafficLead.toNat * growth j ≤ growth i

/-- Every counter of the tags is below `2^62`. -/
def Bounded (tags : List Text) (src : Option StatsSource) : Prop :=
  ∀ s ∈ src, ∀ tag ∈ tags, ∀ direction ∈ ["uplink".toList, "downlink".toList],
    (counterValue s (counterName tag direction)).toNat < 4611686018427387904

/-! ### The loop -/

/-- The loop holds the tag numbered `i`: no other grew more, and the runner-up is the largest of the others. -/
structure Lead.Holds (deltas : Nat → UInt64) (n : Nat) (l : Lead) (i : Nat) : Prop where
  lt : i < n
  best : l.best = i
  bestDelta : l.bestDelta = deltas i
  most : ∀ j < n, (deltas j).toNat ≤ (deltas i).toNat
  others : ∀ j < n, j ≠ i → (deltas j).toNat ≤ l.runnerUp.toNat
  runnerUp : l.runnerUp.toNat = 0 ∨ ∃ j < n, j ≠ i ∧ deltas j = l.runnerUp

/-- Either nothing grew yet, or the loop holds a tag. -/
def Lead.Fits (deltas : Nat → UInt64) (n : Nat) (l : Lead) : Prop :=
  (l = {} ∧ ∀ j < n, (deltas j).toNat = 0) ∨ ∃ i, l.Holds deltas n i

variable {deltas : Nat → UInt64} {n i : Nat} {l : Lead}

theorem Lead.Holds.overtaken (h : l.Holds deltas n i) (hgreater : (deltas i).toNat < (deltas n).toNat) :
    Lead.Holds deltas (n + 1) ⟨n, deltas n, l.bestDelta⟩ n := by
  have hlt := h.lt
  refine ⟨Nat.lt_succ_self n, rfl, rfl, fun j hj => ?_, fun j hj hne => ?_, .inr ⟨i, by omega, by omega, h.bestDelta.symm⟩⟩
  · obtain hj | rfl := Nat.lt_succ_iff_lt_or_eq.mp hj
    · have := h.most j hj
      omega
    · exact le_rfl
  · rw [h.bestDelta]
    exact h.most j (by omega)

theorem Lead.Holds.followed (h : l.Holds deltas n i) (hle : (deltas n).toNat ≤ (deltas i).toNat)
    (hgreater : l.runnerUp.toNat < (deltas n).toNat) :
    Lead.Holds deltas (n + 1) { l with runnerUp := deltas n } i := by
  have hlt := h.lt
  refine ⟨by omega, h.best, h.bestDelta, fun j hj => ?_, fun j hj hne => ?_, .inr ⟨n, by omega, by omega, rfl⟩⟩
  · obtain hj | rfl := Nat.lt_succ_iff_lt_or_eq.mp hj
    · exact h.most j hj
    · exact hle
  · show (deltas j).toNat ≤ (deltas n).toNat
    obtain hj | rfl := Nat.lt_succ_iff_lt_or_eq.mp hj
    · have := h.others j hj hne
      omega
    · exact le_rfl

theorem Lead.Holds.kept (h : l.Holds deltas n i) (hle : (deltas n).toNat ≤ (deltas i).toNat)
    (hrunner : (deltas n).toNat ≤ l.runnerUp.toNat) : Lead.Holds deltas (n + 1) l i := by
  have hlt := h.lt
  refine ⟨by omega, h.best, h.bestDelta, fun j hj => ?_, fun j hj hne => ?_, ?_⟩
  · obtain hj | rfl := Nat.lt_succ_iff_lt_or_eq.mp hj
    · exact h.most j hj
    · exact hle
  · obtain hj | rfl := Nat.lt_succ_iff_lt_or_eq.mp hj
    · exact h.others j hj hne
    · exact hrunner
  · obtain hzero | ⟨j, hj, hne, heq⟩ := h.runnerUp
    · exact .inl hzero
    · exact .inr ⟨j, by omega, hne, heq⟩

/-- One turn of the loop. -/
theorem Lead.Fits.count (h : l.Fits deltas n) : (l.count n (deltas n)).Fits deltas (n + 1) := by
  unfold Lead.count
  simp only [gt_iff_lt, UInt64.lt_iff_toNat_lt]
  obtain ⟨rfl, hzero⟩ | ⟨i, h⟩ := h
  · split
    next hgreater =>
      refine .inr ⟨n, Nat.lt_succ_self n, rfl, rfl, fun j hj => ?_, fun j hj hne => ?_, .inl rfl⟩
      · obtain hj | rfl := Nat.lt_succ_iff_lt_or_eq.mp hj
        · have := hzero j hj
          omega
        · exact le_rfl
      · have := hzero j (by omega)
        omega
    next hle =>
      have hnone : (deltas n).toNat = 0 := Nat.eq_zero_of_not_pos hle
      refine .inl ⟨rfl, fun j hj => ?_⟩
      obtain hj | rfl := Nat.lt_succ_iff_lt_or_eq.mp hj
      · exact hzero j hj
      · exact hnone
  · have hbest : l.bestDelta.toNat = (deltas i).toNat := by rw [h.bestDelta]
    split
    next hgreater => exact .inr ⟨n, h.overtaken (by omega)⟩
    next hle =>
      split
      next hrunner => exact .inr ⟨i, h.followed (by omega) hrunner⟩
      next hrunner => exact .inr ⟨i, h.kept (by omega) (by omega)⟩

theorem fits_leadOf (deltas : Nat → UInt64) (n : Nat) : (leadOf deltas n).Fits deltas n := by
  induction n with
  | zero => exact .inl ⟨rfl, fun j hj => absurd hj (Nat.not_lt_zero j)⟩
  | succ n ih =>
      rw [leadOf, List.range_succ, List.foldl_append]
      exact ih.count

theorem StandsOut.unique {growth : Nat → Nat} {i' : Nat} (h : StandsOut n growth i) (h' : StandsOut n growth i') :
    i = i' := by
  by_contra hne
  have hlead := h.lead i' h'.lt (Ne.symm hne)
  have hlead' := h'.lead i h.lt hne
  have hfloor := h.floor
  have hvalues : minTagTrafficDelta.toNat = 32768 ∧ tagTrafficLead.toNat = 2 := by decide
  rw [hvalues.2] at hlead hlead'
  omega

/-- The verdict of a loop that holds a tag: it names the tag if it stands out, and none otherwise. -/
theorem Lead.Holds.verdict (h : l.Holds deltas n i) (hbound : ∀ j < n, (deltas j).toNat < 9223372036854775808) :
    (StandsOut n (fun j => (deltas j).toNat) i ∧ l.verdict = i) ∨
      ((∀ j, ¬ StandsOut n (fun j => (deltas j).toNat) j) ∧ l.verdict = -1) := by
  have hvalues : minTagTrafficDelta.toNat = 32768 ∧ tagTrafficLead.toNat = 2 := by decide
  have hrunner : (l.runnerUp * tagTrafficLead).toNat = l.runnerUp.toNat * 2 := by
    have hlt : l.runnerUp.toNat < 9223372036854775808 := by
      obtain hzero | ⟨j, hj, -, heq⟩ := h.runnerUp
      · omega
      · exact heq ▸ hbound j hj
    rw [UInt64.toNat_mul, hvalues.2]
    omega
  unfold Lead.verdict
  simp only [UInt64.lt_iff_toNat_lt, hrunner, h.bestDelta, hvalues.1]
  split
  next hshort =>
    refine .inr ⟨fun k hk => ?_, rfl⟩
    -- Whoever stands out is the tag the loop holds, for no other grew more.
    have hfloor := hk.floor
    have hki : k = i := by
      by_contra hne
      have hlead := hk.lead i h.lt (Ne.symm hne)
      have hmost := h.most k hk.lt
      simp only [hvalues] at hlead hfloor
      omega
    subst hki
    simp only [hvalues] at hfloor
    obtain hzero | ⟨j, hj, hne, heq⟩ := h.runnerUp
    · omega
    · have hlead := hk.lead j hj hne
      simp only [hvalues, heq] at hlead
      omega
  next hlong =>
    refine .inl ⟨⟨h.lt, ?_, fun j hj hne => ?_⟩, h.best⟩
    · simp only [hvalues]
      omega
    · have hother := h.others j hj hne
      simp only [hvalues]
      omega

theorem verdict_leadOf (hbound : ∀ j < n, (deltas j).toNat < 9223372036854775808) :
    (∃ i, StandsOut n (fun j => (deltas j).toNat) i ∧ (leadOf deltas n).verdict = i) ∨
      ((∀ j, ¬ StandsOut n (fun j => (deltas j).toNat) j) ∧ (leadOf deltas n).verdict = -1) := by
  obtain ⟨hlead, hzero⟩ | ⟨i, h⟩ := fits_leadOf deltas n
  · refine .inr ⟨fun j hj => ?_, by rw [hlead]; decide⟩
    have hfloor := hj.floor
    have hnone := hzero j hj.lt
    have hvalue : minTagTrafficDelta.toNat = 32768 := by decide
    omega
  · obtain h | h := h.verdict hbound
    · exact .inl ⟨i, h⟩
    · exact .inr h

/-! ### The polls -/

variable {tags : List Text} {src last now : Option StatsSource}

theorem toNat_delta (cur prev : UInt64) : (delta cur prev).toNat = cur.toNat - prev.toNat := by
  unfold delta
  split
  next hle => exact UInt64.toNat_sub_of_le _ _ hle
  next hlt =>
    simp only [ge_iff_le, UInt64.le_iff_toNat_le] at hlt
    show 0 = _
    omega

/-- Below the bound the two directions of a tag add up without wrapping. -/
theorem toNat_tagTraffic (hbound : Bounded tags src) (hi : i < tags.length) :
    ((tagTraffic src tags).getD i 0).toNat = total src (tags.getD i []) ∧
      total src (tags.getD i []) < 9223372036854775808 := by
  cases src with
  | none => simp [tagTraffic, total, hi]
  | some src =>
      have hmem : tags.getD i [] ∈ tags := by
        rw [List.getD_eq_getElem _ _ hi]
        exact List.getElem_mem hi
      have hup := hbound src rfl _ hmem _ (List.mem_cons_self ..)
      have hdown := hbound src rfl _ hmem _ (List.mem_cons_of_mem _ (List.mem_singleton_self _))
      have htotal : total (some src) (tags.getD i []) = (outboundTraffic src (tags.getD i [])).1.toNat +
          (outboundTraffic src (tags.getD i [])).2.toNat := rfl
      have hvalue : (tagTraffic (some src) tags).getD i 0 =
          (outboundTraffic src (tags.getD i [])).1 + (outboundTraffic src (tags.getD i [])).2 := by
        simp [tagTraffic, hi]
      rw [hvalue, htotal, UInt64.toNat_add]
      simp only [outboundTraffic] at hup hdown ⊢
      omega

/-- What one call answers for the growth between two polls. -/
structure Answers (tags : List Text) (last now : Option StatsSource) (r : Int) : Prop where
  named : ∀ i : Nat, r = i ↔ StandsOut tags.length (growth tags last now) i
  none : (∀ i, ¬ StandsOut tags.length (growth tags last now) i) → r = -1

/-- A call that knows the last poll's traffic. -/
theorem answers_pick (hlast : Bounded tags last) (hnow : Bounded tags now) :
    Answers tags last now (Picker.pick tags ⟨tagTraffic last tags, true⟩ now).1 := by
  have hgrowth : ∀ j < tags.length,
      (delta ((tagTraffic now tags).getD j 0) ((tagTraffic last tags).getD j 0)).toNat = growth tags last now j := by
    intro j hj
    rw [toNat_delta, (toNat_tagTraffic hnow hj).1, (toNat_tagTraffic hlast hj).1, growth]
  have hsame (i : Nat) : StandsOut tags.length (fun j =>
      (delta ((tagTraffic now tags).getD j 0) ((tagTraffic last tags).getD j 0)).toNat) i ↔
        StandsOut tags.length (growth tags last now) i := by
    constructor
    · rintro ⟨hlt, hfloor, hlead⟩
      refine ⟨hlt, hgrowth i hlt ▸ hfloor, fun j hj hne => ?_⟩
      rw [← hgrowth j hj, ← hgrowth i hlt]
      exact hlead j hj hne
    · rintro ⟨hlt, hfloor, hlead⟩
      refine ⟨hlt, (hgrowth i hlt).symm ▸ hfloor, fun j hj hne => ?_⟩
      rw [hgrowth j hj, hgrowth i hlt]
      exact hlead j hj hne
  have hbound : ∀ j < tags.length,
      (delta ((tagTraffic now tags).getD j 0) ((tagTraffic last tags).getD j 0)).toNat < 9223372036854775808 := by
    intro j hj
    have hnow := toNat_tagTraffic hnow hj
    rw [toNat_delta]
    omega
  simp only [Picker.pick, if_true]
  obtain ⟨i, hstands, hverdict⟩ | ⟨hnone, hverdict⟩ := verdict_leadOf hbound
  · rw [hsame] at hstands
    rw [hverdict]
    refine ⟨fun k => ⟨fun hk => ?_, fun hk => ?_⟩, fun hnone => absurd hstands (hnone i)⟩
    · exact Int.ofNat_inj.mp hk ▸ hstands
    · rw [hstands.unique hk]
  · simp only [hsame] at hnone
    rw [hverdict]
    refine ⟨fun k => ⟨fun hk => ?_, fun hk => absurd hk (hnone k)⟩, fun _ => rfl⟩
    omega

theorem picks_seeded {polls : List (Option StatsSource)} (hlast : Bounded tags last)
    (hbound : ∀ src ∈ polls, Bounded tags src) {k : Nat} {before : Option StatsSource}
    (hbefore : (last :: polls)[k]? = some before) (hnow : polls[k]? = some now) :
    ∃ r, (Picker.picks tags ⟨tagTraffic last tags, true⟩ polls)[k]? = some r ∧ Answers tags before now r := by
  induction polls generalizing last k with
  | nil => simp at hnow
  | cons src polls ih =>
      have hsrc := hbound src (List.mem_cons_self ..)
      cases k with
      | zero =>
          obtain rfl := Option.some.inj hbefore
          obtain rfl := Option.some.inj hnow
          exact ⟨_, rfl, answers_pick hlast hsrc⟩
      | succ k => exact ih hsrc (fun s hs => hbound s (List.mem_cons_of_mem _ hs)) hbefore hnow

theorem length_picks (tags : List Text) (p : Picker) (polls : List (Option StatsSource)) :
    (p.picks tags polls).length = polls.length := by
  induction polls generalizing p with
  | nil => rfl
  | cons src polls ih =>
      rw [Picker.picks, List.length_cons, List.length_cons, ih]

/-- Every call answers, the first with -1 and each later one with the tag that stands out against the call before it,
of which there is at most one. -/
theorem picks_answer (tags : List Text) (polls : List (Option StatsSource)) (hbound : ∀ src ∈ polls, Bounded tags src) :
    ((tagTrafficPickerFrom tags).picks tags polls).length = polls.length ∧
      (0 < polls.length → ((tagTrafficPickerFrom tags).picks tags polls)[0]? = some (-1)) ∧
      ∀ k last now, polls[k]? = some last → polls[k + 1]? = some now →
        (∃ r, ((tagTrafficPickerFrom tags).picks tags polls)[k + 1]? = some r ∧ Answers tags last now r) ∧
          ∀ i i', StandsOut tags.length (growth tags last now) i → StandsOut tags.length (growth tags last now) i' →
            i = i' := by
  refine ⟨length_picks tags _ polls, fun hpos => ?_, fun k last now hlast hnow => ⟨?_, fun i i' h h' => h.unique h'⟩⟩
  · cases polls with
    | nil => exact absurd hpos (Nat.lt_irrefl 0)
    | cons first polls => rfl
  · cases polls with
    | nil => simp at hnow
    | cons first polls =>
        exact picks_seeded (hbound first (List.mem_cons_self ..)) (fun s hs => hbound s (List.mem_cons_of_mem _ hs))
          hlast hnow

/-- Two tags, one of which carries the traffic of the second poll. -/
def carrying (bytes : Int64) : StatsSource := fun name =>
  if name = counterName "b".toList "downlink".toList then some bytes else some 10

theorem picks_answer_carrying :
    ((tagTrafficPickerFrom ["a".toList, "b".toList]).picks ["a".toList, "b".toList]
        [some (carrying 0), some (carrying 40000)])[1]? = some 1 ∧
      Answers ["a".toList, "b".toList] (some (carrying 0)) (some (carrying 40000)) 1 := by
  have hbound : ∀ src ∈ [some (carrying 0), some (carrying 40000)], Bounded ["a".toList, "b".toList] src := by
    simp only [List.forall_mem_cons, List.not_mem_nil, false_imp_iff, implies_true, and_true, Bounded, Option.mem_def,
      Option.some.injEq, forall_eq']
    decide
  have hpick : ((tagTrafficPickerFrom ["a".toList, "b".toList]).picks ["a".toList, "b".toList]
      [some (carrying 0), some (carrying 40000)])[1]? = some 1 := by decide
  obtain ⟨r, hr, hanswers⟩ := ((picks_answer _ _ hbound).2.2 0 _ _ rfl rfl).1
  obtain rfl := Option.some.inj (hpick.symm.trans hr)
  exact ⟨hpick, hanswers⟩

end GlitchCore.Core.Traffic
