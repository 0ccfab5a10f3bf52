import GlitchCore.Base.Fields

/-!
# The level of a log line

`Warnf` and `Errorf` write their level as the first token of the line and `SplitLine` reads it back. It takes severity
tokens off the front as long as it finds one and the last one counts, so a message that begins with such a word
replaces the level its writer gave.
-/

namespace GlitchCore.Logfmt

open GoText

inductive Level where
  | debug
  | info
  | warn
  | error
  | fatal
  deriving DecidableEq, Repr

def Level.name : Level → Text
  | .debug => "debug".toList
  | .info => "info".toList
  | .warn => "warn".toList
  | .error => "error".toList
  | .fatal => "fatal".toList

/-- Whether the line travels as an error. -/
def Level.isError (l : Level) : Bool := l == .error || l == .fatal

/-- The verbosity gate. -/
def passes (verbosity : Int) (l : Level) : Bool :=
  if verbosity < 0 then false
  else if verbosity = 0 then l.isError
  else if verbosity = 1 then l != .debug
  else true

def severityTokens : List (Text × Level) :=
  [("trace".toList, .debug), ("debug".toList, .debug), ("info".toList, .info), ("warn".toList, .warn),
   ("warning".toList, .warn), ("error".toList, .error), ("fatal".toList, .fatal), ("panic".toList, .fatal)]

/-! ### Reading a line -/

/-- A loop that takes pieces off the front of a text. -/
def peel {α : Type} (next : Text → Option (α × Text)) : Nat → Text → List α × Text
  | 0, s => ([], s)
  | n + 1, s =>
      match next s with
      | none => ([], s)
      | some (piece, rest) => (piece :: (peel next n rest).1, (peel next n rest).2)

/-- The severity token in front of the first colon. -/
def leadingToken (s : Text) : Option (Level × Text) :=
  match cut ':' s with
  | none => none
  | some (before, after) =>
      if before = [] then none
      else (severityTokens.lookup (toLower (trimSpace before))).map fun level => (level, trimSpace after)

/-- The component between the brackets a text begins with. -/
def leadingComponent (s : Text) : Option (Text × Text) :=
  if s.head? ≠ some '[' then none
  else match cut ']' s with
    | none => none
    | some (before, after) =>
        if before.length ≤ 1 then none else some (trimSpace (before.drop 1), trimSpace after)

/-- What stands in front of the first bracket is dropped. -/
def fromBracket (s : Text) : Text :=
  if s.head? = some '[' then s
  else match cut '[' s with
    | none => s
    | some (_, after) => trimSpace ('[' :: after)

def splitLine (raw : Text) : Level × Text × Text :=
  let s := trimSpace raw
  let (levels, s) := peel leadingToken s.length s
  let s := fromBracket s
  let (parts, s) := peel leadingComponent s.length s
  (levels.getLast?.getD .info, if parts = [] then "core".toList else join "/".toList parts, s)

/-! ### Writing one -/

/-- `log.Output` with no flags: a newline ends the line if none does. -/
def output (s : Text) : Text := if s.getLast? = some '\n' then s else s ++ "\n".toList

/-- The line `Warnf` and `Errorf` write for a formatted message. -/
def written (level : Level) (message : Text) : Text := output (level.name ++ ": ".toList ++ message)

/-! ### The loop ends -/

section

variable {α : Type} {next : Text → Option (α × Text)}

theorem peel_of_none {s : Text} (h : next s = none) (n : Nat) : peel next n s = ([], s) := by
  cases n with
  | zero => rfl
  | succ n => rw [peel, h]

theorem peel_of_some {s rest : Text} {piece : α} (h : next s = some (piece, rest)) (n : Nat) :
    peel next (n + 1) s = (piece :: (peel next n rest).1, (peel next n rest).2) := by
  rw [peel, h]

/-- As many rounds as there are runes are enough: more change nothing. -/
theorem peel_eq (hshorter : ∀ s piece rest, next s = some (piece, rest) → rest.length < s.length) {n k : Nat} {s : Text}
    (hn : s.length ≤ n) (hk : s.length ≤ k) : peel next n s = peel next k s := by
  induction n generalizing k s with
  | zero =>
      cases hnext : next s with
      | none => rw [peel_of_none hnext, peel_of_none hnext]
      | some found => exact absurd (hshorter s found.1 found.2 hnext) (by omega)
  | succ n ih =>
      cases hnext : next s with
      | none => rw [peel_of_none hnext, peel_of_none hnext]
      | some found =>
          have hlt := hshorter s found.1 found.2 hnext
          obtain ⟨k, rfl⟩ : ∃ j, k = j + 1 := ⟨k - 1, by omega⟩
          rw [peel_of_some hnext, peel_of_some hnext, ih (k := k) (by omega) (by omega)]

end

theorem length_leadingToken_lt (s : Text) (level : Level) (rest : Text) (h : leadingToken s = some (level, rest)) :
    rest.length < s.length := by
  unfold leadingToken at h
  split at h
  · cases h
  · rename_i before after hcut
    split at h
    · cases h
    · obtain ⟨_, _, heq⟩ := Option.map_eq_some_iff.mp h
      obtain ⟨-, rfl⟩ := Prod.mk.inj heq
      have hle := length_trim_le isSpace after
      rw [(cut_eq_some.mp hcut).1, List.length_append, List.length_cons, trimSpace]
      omega

/-! ### The level read back -/

/-- The severity tokens a text begins with. -/
def leadingLevels (s : Text) : List Level := (peel leadingToken s.length s).1

theorem level_splitLine (raw : Text) : (splitLine raw).1 = (leadingLevels (trimSpace raw)).getLast?.getD .info := rfl

theorem leadingLevels_eq_nil {s : Text} : leadingLevels s = [] ↔ leadingToken s = none := by
  constructor
  · intro h
    cases hnext : leadingToken s with
    | none => rfl
    | some found =>
        have hlt := length_leadingToken_lt s found.1 found.2 hnext
        obtain ⟨n, hn⟩ : ∃ n, s.length = n + 1 := ⟨s.length - 1, by omega⟩
        rw [leadingLevels, hn, peel_of_some hnext] at h
        cases h
  · intro h
    rw [leadingLevels, peel_of_none h]

theorem leadingLevels_of_some {s rest : Text} {level : Level} (h : leadingToken s = some (level, rest)) :
    leadingLevels s = level :: leadingLevels rest := by
  have hlt := length_leadingToken_lt s level rest h
  obtain ⟨n, hn⟩ : ∃ n, s.length = n + 1 := ⟨s.length - 1, by omega⟩
  rw [leadingLevels, hn, peel_of_some h, leadingLevels, peel_eq length_leadingToken_lt (k := rest.length) (by omega) le_rfl]

theorem trimSpace_output (s : Text) : trimSpace (output s) = trimSpace s := by
  rw [output]
  split
  · rfl
  · exact trim_append_of_forall_right (List.all_eq_true.mp (by decide))

theorem lookup_name (level : Level) : severityTokens.lookup (toLower (trimSpace level.name)) = some level := by
  cases level <;> decide

/-- A level's name is a token of its own, and the message follows it. -/
theorem leadingToken_written (level : Level) (message : Text) :
    leadingToken (trimSpace (written level message)) = some (level, trimSpace message) := by
  have hedges : Edges isSpace (level.name ++ [':']) := by cases level <;> decide
  have hne : level.name ≠ [] := by cases level <;> decide
  have hcolon : ':' ∉ level.name := by cases level <;> decide
  have htrim : trimSpace (written level message) = level.name ++ ':' :: (' ' :: message).rdropWhile isSpace := by
    rw [written, trimSpace_output, trimSpace, trim]
    have hline : level.name ++ ": ".toList ++ message = (level.name ++ [':']) ++ ' ' :: message := by simp
    rw [hline, dropWhile_append_of_head (by simp) hedges.1, rdropWhile_append_of_last hedges.2, List.append_assoc]
    rfl
  have hblank : ∀ c ∈ [' '], isSpace c = true := List.all_eq_true.mp (by decide)
  have hrest : trimSpace ((' ' :: message).rdropWhile isSpace) = trimSpace message :=
    (trim_rdropWhile fun _ h => h).trans (trim_append_of_forall_left hblank)
  rw [leadingToken, htrim, cut_eq_some.mpr ⟨rfl, hcolon⟩]
  dsimp only
  rw [if_neg hne, lookup_name, hrest]
  rfl

/-- The last token of the message counts, and the writer's level if it has none. -/
theorem level_written (level : Level) (message : Text) :
    (splitLine (written level message)).1 = (leadingLevels (trimSpace message)).getLast?.getD level := by
  rw [level_splitLine, leadingLevels_of_some (leadingToken_written level message), List.getLast?_cons, Option.getD_some]

/-- Both writers' levels are read back exactly from the messages that begin with no severity token. -/
theorem levels_read_back_iff (message : Text) :
    ((splitLine (written .warn message)).1 = .warn ∧ (splitLine (written .error message)).1 = .error) ↔
      leadingToken (trimSpace message) = none := by
  rw [level_written, level_written, ← leadingLevels_eq_nil]
  constructor
  · rintro ⟨hwarn, herror⟩
    cases hlast : (leadingLevels (trimSpace message)).getLast? with
    | none => exact List.getLast?_eq_none_iff.mp hlast
    | some level =>
        -- one last token cannot be both levels
        rw [hlast] at hwarn herror
        cases hwarn.symm.trans herror
  · intro hnone
    rw [hnone]
    exact ⟨rfl, rfl⟩

/-- An error whose text begins with a word of an engine's own is read as debug and does not pass at verbosity zero. -/
theorem errorLine_downgraded :
    splitLine (written .error "debug: handshake failed".toList) =
        (.debug, "core".toList, "handshake failed".toList) ∧
      passes 0 .error = true ∧ passes 0 .debug = false := by
  decide

end GlitchCore.Logfmt
