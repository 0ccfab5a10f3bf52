import GlitchCore.Base.GoText

/-!
# Host and port texts

`net.SplitHostPort`: the port stands after the last colon, and a host with colons of its own is bracketed.
`net.JoinHostPort` writes such a text, and splitting it gives the two back unless the host holds a bracket.
-/

namespace HostPort

open GoText

def splitHostPort (s : Text) : Option (Text × Text) :=
  (cutLast ':' s).bind fun (front, port) =>
    match s with
    | '[' :: rest =>
        (cut ']' rest).bind fun (host, after) =>
          if after = ':' :: port ∧ '[' ∉ host ++ port ∧ ']' ∉ port then some (host, port) else none
    | _ => if ':' ∈ front ∨ '[' ∈ s ∨ ']' ∈ s then none else some (front, port)

def joinHostPort (host port : Text) : Text :=
  if ':' ∈ host then '[' :: host ++ ']' :: ':' :: port else host ++ ':' :: port

example : splitHostPort "[2001:db8::1]:53".toList = some ("2001:db8::1".toList, "53".toList) ∧
    splitHostPort "10.0.0.1:5353".toList = some ("10.0.0.1".toList, "5353".toList) ∧
    splitHostPort "2001:db8::1".toList = none ∧ splitHostPort "10.0.0.1".toList = none := by decide

/-- The two forms of a text with a host and a port. -/
theorem splitHostPort_eq_some {s host port : Text} (h : splitHostPort s = some (host, port)) :
    ':' ∉ port ∧
      (s = '[' :: host ++ ']' :: ':' :: port ∨ s = host ++ ':' :: port ∧ ':' ∉ host ∧ '[' ∉ s) := by
  obtain ⟨⟨front, port'⟩, hcut, h⟩ := Option.bind_eq_some_iff.mp h
  obtain ⟨hs, hport'⟩ := cutLast_eq_some.mp hcut
  simp only at h
  split at h
  · obtain ⟨⟨host', after⟩, hcut', hform⟩ := Option.bind_eq_some_iff.mp h
    obtain ⟨rfl, -⟩ := cut_eq_some.mp hcut'
    simp only at hform
    split at hform
    · rename_i hafter
      obtain ⟨rfl, rfl⟩ := Prod.mk.inj (Option.some.inj hform)
      exact ⟨hport', .inl (by rw [hafter.1]; simp)⟩
    · cases hform
  · split at h
    · cases h
    · rename_i hplain
      rw [not_or, not_or] at hplain
      obtain ⟨rfl, rfl⟩ := Prod.mk.inj (Option.some.inj h)
      exact ⟨hport', .inr ⟨hs, hplain.1, hplain.2.1⟩⟩

section Join

variable {host port : Text} (hcolon : ':' ∉ port) (hopen : '[' ∉ port) (hclose : ']' ∉ port)

include hcolon hopen hclose

theorem splitHostPort_bracketed :
    splitHostPort ('[' :: host ++ ']' :: ':' :: port) = some (host, port) ↔ '[' ∉ host ∧ ']' ∉ host := by
  have hcut : cutLast ':' ('[' :: host ++ ']' :: ':' :: port) = some ('[' :: host ++ [']'], port) :=
    cutLast_eq_some.mpr ⟨by rw [List.append_assoc]; rfl, hcolon⟩
  rw [splitHostPort, hcut]
  dsimp only [List.cons_append, Option.bind_some]
  constructor
  · intro h
    obtain ⟨⟨host', after⟩, hfirst, hform⟩ := Option.bind_eq_some_iff.mp h
    dsimp only at hform
    split at hform
    next hcond =>
      obtain ⟨rfl, -⟩ := Prod.mk.inj (Option.some.inj hform)
      exact ⟨fun hmem => hcond.2.1 (List.mem_append_left _ hmem), (cut_eq_some.mp hfirst).2⟩
    next => cases hform
  · rintro ⟨hopen', hclose'⟩
    have hfirst : cut ']' (host ++ ']' :: ':' :: port) = some (host, ':' :: port) := cut_eq_some.mpr ⟨rfl, hclose'⟩
    refine (congrArg (Option.bind · _) hfirst).trans (if_pos ?_)
    exact ⟨rfl, fun hmem => (List.mem_append.mp hmem).elim hopen' hopen, hclose⟩

theorem splitHostPort_bare (hhost : ':' ∉ host) :
    splitHostPort (host ++ ':' :: port) = some (host, port) ↔ '[' ∉ host ∧ ']' ∉ host := by
  have hcut : cutLast ':' (host ++ ':' :: port) = some (host, port) := cutLast_eq_some.mpr ⟨rfl, hcolon⟩
  have hmem {c : Char} (hc : c ∉ port) (hne : c ≠ ':') : c ∈ host ++ ':' :: port ↔ c ∈ host := by
    rw [List.mem_append, List.mem_cons, or_iff_left (not_or.mpr ⟨hne, hc⟩)]
  rw [splitHostPort, hcut, Option.bind_some]
  dsimp only
  split
  next rest hs =>
    have hbracket : '[' ∈ host := (hmem hopen (by decide)).mp (hs ▸ List.mem_cons_self)
    constructor
    · intro h
      obtain ⟨⟨host', after⟩, -, hform⟩ := Option.bind_eq_some_iff.mp h
      dsimp only at hform
      split at hform
      next hcond =>
        obtain ⟨rfl, -⟩ := Prod.mk.inj (Option.some.inj hform)
        exact absurd (List.mem_append_left _ hbracket) hcond.2.1
      next => cases hform
    · exact fun h => absurd hbracket h.1
  next =>
    have hcond : ':' ∈ host ∨ '[' ∈ host ++ ':' :: port ∨ ']' ∈ host ++ ':' :: port ↔ '[' ∈ host ∨ ']' ∈ host := by
      rw [hmem hopen (by decide), hmem hclose (by decide), or_iff_right hhost]
    rw [← not_or, ← hcond]
    split
    next hbad => exact ⟨fun h => absurd h.symm (Option.some_ne_none _), fun h => absurd hbad h⟩
    next hgood => exact iff_of_true rfl hgood

theorem splitHostPort_joinHostPort :
    splitHostPort (joinHostPort host port) = some (host, port) ↔ '[' ∉ host ∧ ']' ∉ host := by
  rw [joinHostPort]
  split
  next => exact splitHostPort_bracketed hcolon hopen hclose
  next hhost => exact splitHostPort_bare hcolon hopen hclose hhost

end Join

/-- The port a text names, in the range a socket has. -/
def portOf (s : Text) : Option Nat := ((atoi s).filter fun p => decide (0 < p ∧ p ≤ 65535)).map Int.toNat

end HostPort
