import GlitchCore.Xray.Build

/-!
# Mux on the proxy outbounds

`ApplyMux` reads the sign of two numbers: a positive one switches a multiplexer on, a negative one off. It decides on
machine integers and stores sixteen bits of them, so an outbound keeps the meaning of what was asked only where the
lower half keeps its sign.
-/

namespace GlitchCore.Xray

open GoText

/-- A number among the options; what is no number counts as absent. -/
def intOpt (s : Text) : Int := (atoi (trimSpace s)).getD 0

structure MuxConfig where
  enabled : Bool
  concurrency : Int16
  xudpConcurrency : Int16
  deriving DecidableEq, Repr

/-- An outbound with its mux settings, which the rest of the build does not touch. -/
structure MuxedOutbound extends Outbound where
  muxSettings : Option MuxConfig := none
  deriving DecidableEq, Repr

section

variable (proxyTags visionTags : List Text) (concurrency xudpConcurrency : Int)

/-- What is asked of one outbound: Vision carries TCP, and the server tears mux over it down. -/
def tcpConcurrency (tag : Text) : Int := if tag ∈ visionTags ∧ 0 < concurrency then -1 else concurrency

/-- One round of the loop of `ApplyMux`. -/
def setMux (ob : MuxedOutbound) : MuxedOutbound :=
  if ob.tag ∉ proxyTags then ob
  else { ob with
    muxSettings := some
      { enabled := true
        concurrency := Int16.ofInt (tcpConcurrency visionTags concurrency ob.tag)
        xudpConcurrency := Int16.ofInt xudpConcurrency } }

def applyMux (outbounds : List MuxedOutbound) : List MuxedOutbound :=
  if concurrency = 0 then outbounds else outbounds.map (setMux proxyTags visionTags concurrency xudpConcurrency)

/-! ### What the switches mean -/

def SameSign (stored asked : Int) : Prop := (0 < stored ↔ 0 < asked) ∧ (stored < 0 ↔ asked < 0)

/-- The settings say what was asked of an outbound. -/
structure MuxConfig.Means (m : MuxConfig) (tag : Text) : Prop where
  positive : 0 < m.concurrency.toInt ↔ 0 < concurrency ∧ tag ∉ visionTags
  negative : m.concurrency.toInt < 0 ↔ ¬ (0 < concurrency ∧ tag ∉ visionTags)
  xudp : SameSign m.xudpConcurrency.toInt xudpConcurrency

/-- What becomes of one outbound when the master switch is on. -/
structure KeepsMeaning (before after : MuxedOutbound) : Prop where
  other : before.tag ∉ proxyTags → after = before
  proxy : before.tag ∈ proxyTags → ∃ m, after = { before with muxSettings := some m } ∧
    m.Means visionTags concurrency xudpConcurrency before.tag
  vision : before.tag ∈ visionTags → after = before ∨ ∃ m, after.muxSettings = some m ∧ m.concurrency.toInt < 0

/-- The whole call: a master switch of zero leaves everything as it was. -/
structure MuxKept (before : List MuxedOutbound) : Prop where
  off : concurrency = 0 → applyMux proxyTags visionTags concurrency xudpConcurrency before = before
  on : concurrency ≠ 0 → List.Forall₂ (KeepsMeaning proxyTags visionTags concurrency xudpConcurrency) before
    (applyMux proxyTags visionTags concurrency xudpConcurrency before)

end

/-- The lower sixteen bits have the sign of the number. -/
def KeepsSign (n : Int) : Prop := (0 < n → 0 < n % 65536 ∧ n % 65536 < 32768) ∧ (n < 0 → 32768 ≤ n % 65536)

theorem toInt_ofInt_bounds (n : Int) :
    (0 < (Int16.ofInt n).toInt ↔ 0 < n % 65536 ∧ n % 65536 < 32768) ∧
      ((Int16.ofInt n).toInt < 0 ↔ 32768 ≤ n % 65536) := by
  have hsize : (Int16.size : Int) = 65536 := rfl
  rw [Int16.toInt_ofInt, Int.bmod_def, hsize]
  split <;> omega

theorem sameSign_iff (n : Int) : SameSign (Int16.ofInt n).toInt n ↔ KeepsSign n := by
  obtain ⟨hpos, hneg⟩ := toInt_ofInt_bounds n
  rw [SameSign, KeepsSign, hpos, hneg]
  omega

theorem tcpConcurrency_vision {visionTags : List Text} {tag : Text} {n : Int} (htag : tag ∈ visionTags) (hn : 0 < n) :
    tcpConcurrency visionTags n tag = -1 := if_pos ⟨htag, hn⟩

theorem tcpConcurrency_plain {visionTags : List Text} {tag : Text} {n : Int} (h : ¬ (tag ∈ visionTags ∧ 0 < n)) :
    tcpConcurrency visionTags n tag = n := if_neg h

section

variable {proxyTags visionTags : List Text} {concurrency xudpConcurrency : Int}

/-- The stored numbers mean what was asked exactly if the lower halves keep the signs that are stored. -/
theorem means_iff (hon : concurrency ≠ 0) (tag : Text) (enabled : Bool) :
    (MuxConfig.mk enabled (Int16.ofInt (tcpConcurrency visionTags concurrency tag))
        (Int16.ofInt xudpConcurrency)).Means visionTags concurrency xudpConcurrency tag ↔
      ((tag ∈ visionTags ∧ 0 < concurrency) ∨ KeepsSign concurrency) ∧ KeepsSign xudpConcurrency := by
  by_cases hforced : tag ∈ visionTags ∧ 0 < concurrency
  · have hstored : (Int16.ofInt (tcpConcurrency visionTags concurrency tag)).toInt = -1 := by
      rw [tcpConcurrency_vision hforced.1 hforced.2]
      rfl
    constructor
    · intro hmeans
      exact ⟨.inl hforced, (sameSign_iff _).mp hmeans.xudp⟩
    · rintro ⟨-, hx⟩
      refine ⟨?_, ?_, (sameSign_iff _).mpr hx⟩
      · rw [hstored]
        exact ⟨fun h => absurd h (by decide), fun h => absurd hforced.1 h.2⟩
      · rw [hstored]
        exact ⟨fun _ h => h.2 hforced.1, fun _ => by decide⟩
  · have hstored : Int16.ofInt (tcpConcurrency visionTags concurrency tag) = Int16.ofInt concurrency := by
      rw [tcpConcurrency_plain hforced]
    have hasked : 0 < concurrency ∧ tag ∉ visionTags ↔ 0 < concurrency :=
      ⟨fun h => h.1, fun h => ⟨h, fun htag => hforced ⟨htag, h⟩⟩⟩
    obtain ⟨hpos, hneg⟩ := toInt_ofInt_bounds concurrency
    rw [hstored]
    constructor
    · rintro ⟨hp, hn, hx⟩
      rw [hasked] at hp hn
      refine ⟨.inr ((sameSign_iff _).mp ⟨hp, ?_⟩), (sameSign_iff _).mp hx⟩
      rw [hn]
      omega
    · rintro ⟨hkeep, hx⟩
      obtain ⟨hp, hn⟩ := (sameSign_iff _).mpr (hkeep.resolve_left hforced)
      refine ⟨?_, ?_, (sameSign_iff _).mpr hx⟩
      · rw [hasked]
        exact hp
      · rw [hasked]
        rw [hn]
        omega

theorem keepsMeaning_setMux_iff (hon : concurrency ≠ 0) (ob : MuxedOutbound) :
    KeepsMeaning proxyTags visionTags concurrency xudpConcurrency ob
        (setMux proxyTags visionTags concurrency xudpConcurrency ob) ↔
      (ob.tag ∈ proxyTags →
        ((ob.tag ∈ visionTags ∧ 0 < concurrency) ∨ KeepsSign concurrency) ∧ KeepsSign xudpConcurrency) := by
  by_cases hproxy : ob.tag ∈ proxyTags
  · rw [setMux, if_neg (not_not.mpr hproxy)]
    constructor
    · intro hkept _
      obtain ⟨m, hm, hmeans⟩ := hkept.proxy hproxy
      obtain rfl := Option.some.inj (congrArg MuxedOutbound.muxSettings hm)
      exact (means_iff hon ob.tag true).mp hmeans
    · intro h
      have hmeans := (means_iff hon ob.tag true).mpr (h hproxy)
      refine ⟨fun hother => absurd hproxy hother, fun _ => ⟨_, rfl, hmeans⟩, fun hvision => .inr ⟨_, rfl, ?_⟩⟩
      exact hmeans.negative.mpr fun hasked => hasked.2 hvision
  · rw [setMux, if_pos hproxy]
    exact ⟨fun _ hmem => absurd hmem hproxy,
      fun _ => ⟨fun _ => rfl, fun hmem => absurd hmem hproxy, fun _ => .inl rfl⟩⟩

end

/-- The switches keep their meaning on every outbound exactly if the sixteen bits stored keep each sign that decides:
that of the concurrency, where Vision does not replace it, and that of the XUDP concurrency. -/
theorem applyMux_kept_iff (proxyTags visionTags : List Text) (concurrency xudpConcurrency : Int)
    (outbounds : List MuxedOutbound) :
    MuxKept proxyTags visionTags concurrency xudpConcurrency outbounds ↔
      (concurrency ≠ 0 → ∀ ob ∈ outbounds, ob.tag ∈ proxyTags →
        ((ob.tag ∈ visionTags ∧ 0 < concurrency) ∨ KeepsSign concurrency) ∧ KeepsSign xudpConcurrency) := by
  constructor
  · intro hkept hon ob hob
    have hall := hkept.on hon
    rw [applyMux, if_neg hon, List.forall₂_map_right_iff, List.forall₂_same] at hall
    exact (keepsMeaning_setMux_iff hon ob).mp (hall ob hob)
  · intro h
    refine ⟨fun hoff => if_pos hoff, fun hon => ?_⟩
    rw [applyMux, if_neg hon, List.forall₂_map_right_iff, List.forall₂_same]
    exact fun ob hob => (keepsMeaning_setMux_iff hon ob).mpr (h hon ob hob)

def visionOutbound : MuxedOutbound := { protocol := "vless".toList, tag := outboundTag }

/-- A negative concurrency whose lower half is one: the Vision outbound gets TCP mux. -/
theorem visionOutbound_muxed :
    (applyMux [outboundTag] [outboundTag] (intOpt "-65535".toList) 0 [visionOutbound]).map (·.muxSettings) =
        [some ⟨true, 1, 0⟩] ∧
      ¬ MuxKept [outboundTag] [outboundTag] (intOpt "-65535".toList) 0 [visionOutbound] := by
  have hopt : intOpt "-65535".toList = -65535 := by decide
  rw [hopt]
  refine ⟨by decide, fun hkept => ?_⟩
  have hall := hkept.on (by decide)
  rw [applyMux, if_neg (by decide), List.forall₂_map_right_iff, List.forall₂_same] at hall
  obtain ⟨m, hm, hmeans⟩ := (hall visionOutbound List.mem_cons_self).proxy List.mem_cons_self
  obtain rfl := Option.some.inj (congrArg MuxedOutbound.muxSettings hm)
  exact absurd (hmeans.positive.mp (by decide)).1 (by decide)

end GlitchCore.Xray
