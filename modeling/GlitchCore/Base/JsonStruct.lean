import GlitchCore.Base.JsonWrite

/-!
# The fields of a struct

`encoding/json` between JSON values and what a struct's fields hold: texts, booleans, integers of a width, lists of
texts and maps by text. A struct is read from the members of an object one after another: a member sets the field its
key names without regard to case, `null` leaves a text, a boolean or an integer as it is, and a value of another kind
is an error. An array is read into the slice that is there, element by element. `null` alone is a struct nothing sets.
-/

namespace GoJson

open GoText JsonDecode

variable {α : Type}

/-- The values the members of an object set a field to, in their order. -/
def fieldValues (name : Text) (ms : List (Text × Json)) : List Json :=
  (ms.filter fun m => equalFold m.1 (toLower name)).map (·.2)

def readField (read : α → Json → Option α) (zero : α) (name : Text) (ms : List (Text × Json)) : Option α :=
  (fieldValues name ms).foldlM read zero

theorem readField_eq {read : α → Json → Option α} {zero a : α} {name : Text} {ms : List (Text × Json)} {v : Json}
    (hvalues : fieldValues name ms = [v]) (hread : read zero v = some a) : readField read zero name ms = some a := by
  rw [readField, hvalues, List.foldlM_cons, hread]
  rfl

theorem readField_absent {read : α → Json → Option α} {zero : α} {name : Text} {ms : List (Text × Json)}
    (hvalues : fieldValues name ms = []) : readField read zero name ms = some zero := by
  rw [readField, hvalues]
  rfl

/-- A member that is left out when it is empty. -/
def omitEmpty (empty : Bool) (key : Text) (v : Json) : List (Text × Json) := if empty then [] else [(key, v)]

/-- A field that is left out when it holds what it starts as. -/
theorem readField_omitEmpty {read : α → Json → Option α} {zero a : α} {name : Text} {ms : List (Text × Json)} {v : Json}
    {empty : Bool} (hvalues : fieldValues name ms = if empty then [] else [v]) (hempty : empty = true → a = zero)
    (hread : read zero v = some a) : readField read zero name ms = some a := by
  cases empty with
  | true =>
      rw [hempty rfl]
      exact readField_absent hvalues
  | false => exact readField_eq hvalues hread

/-! ### Texts, booleans and integers -/

def readText (old : Text) : Json → Option Text
  | .null => some old
  | .string s => some s
  | _ => none

def readBool (old : Bool) : Json → Option Bool
  | .null => some old
  | .bool b => some b
  | _ => none

/-- A field of type `int` or `int64`. -/
def readInt64 (old : Int64) : Json → Option Int64
  | .null => some old
  | .number literal => (atoi literal).map Int64.ofInt
  | _ => none

def readInt32 (old : Int32) : Json → Option Int32
  | .null => some old
  | .number literal =>
      ((atoi literal).filter fun n => decide (-2147483648 ≤ n ∧ n ≤ 2147483647)).map Int32.ofInt
  | _ => none

def int64 (n : Int64) : Json := .number (formatInt n.toInt)

def int32 (n : Int32) : Json := .number (formatInt n.toInt)

theorem readInt64_int64 (old n : Int64) : readInt64 old (int64 n) = some n := by
  have hlow := n.le_toInt
  have hhigh := n.toInt_lt
  rw [int64, readInt64, atoi_formatInt (by omega) (by omega), Option.map_some, Int64.ofInt_toInt]

theorem readInt32_int32 (old n : Int32) : readInt32 old (int32 n) = some n := by
  have hlow := n.le_toInt
  have hhigh := n.toInt_lt
  have hrange : (some n.toInt).filter (fun n : Int => decide (-2147483648 ≤ n ∧ n ≤ 2147483647)) = some n.toInt :=
    Option.filter_eq_some_iff.mpr ⟨rfl, decide_eq_true ⟨by omega, by omega⟩⟩
  rw [int32, readInt32, atoi_formatInt (by omega) (by omega), hrange, Option.map_some, Int32.ofInt_toInt]

/-! ### Lists and maps -/

/-- A slice of texts: its elements, and what its array holds behind them. -/
structure Slice where
  items : List Text := []
  behind : List Text := []

/-- An element is read into what the array holds at its place, past whose end it is empty. -/
def readItems : List Text → List Json → Option Slice
  | array, [] => some ⟨[], array⟩
  | array, v :: vs => do
      let s ← readText (array.headD []) v
      let rest ← readItems array.tail vs
      return { rest with items := s :: rest.items }

/-- `null` and an empty array leave a new slice. -/
def readTexts (old : Slice) : Json → Option Slice
  | .null | .array [] => some {}
  | .array vs => readItems (old.items ++ old.behind) vs
  | _ => none

def texts (l : List Text) : Json := .array (l.map .string)

theorem readItems_strings (l : List Text) : readItems [] (l.map .string) = some ⟨l, []⟩ := by
  induction l with
  | nil => rfl
  | cons s l ih =>
      rw [List.map_cons, readItems, List.tail_nil, ih]
      rfl

theorem readTexts_texts (l : List Text) : readTexts {} (texts l) = some ⟨l, []⟩ := by
  cases l with
  | nil => rfl
  | cons s l => exact readItems_strings (s :: l)

/-- The text of a value, if it is one. -/
def stringOf : Json → Option Text
  | .string s => some s
  | _ => none

/-- What is read is one element for each value: the value's text, or what was there where the value is `null`. -/
theorem readItems_spec {array : List Text} {vs : List Json} {new : Slice} (h : readItems array vs = some new) :
    new.items.length = vs.length ∧ (∀ v ∈ vs, v = .null ∨ ∃ s, v = .string s) ∧
      ∀ i, (new.items ++ new.behind).getD i [] = (vs[i]?.bind stringOf).getD (array.getD i []) := by
  induction vs generalizing array new with
  | nil =>
      cases h
      exact ⟨rfl, List.forall_mem_nil _, fun i => rfl⟩
  | cons v vs ih =>
      obtain ⟨s, hs, h⟩ := Option.bind_eq_some_iff.mp h
      obtain ⟨rest, hrest, h⟩ := Option.bind_eq_some_iff.mp h
      cases h
      obtain ⟨hlength, hkinds, hplaces⟩ := ih hrest
      have hv : (v = .null ∨ ∃ s, v = .string s) ∧ s = (stringOf v).getD (array.headD []) := by
        cases v with
        | null => exact ⟨.inl rfl, (Option.some.inj hs).symm⟩
        | string t => exact ⟨.inr ⟨t, rfl⟩, (Option.some.inj hs).symm⟩
        | bool | number | array | object => cases hs
      refine ⟨congrArg (· + 1) hlength, List.forall_mem_cons.mpr ⟨hv.1, hkinds⟩, fun i => ?_⟩
      cases i with
      | zero =>
          rw [hv.2]
          cases array <;> rfl
      | succ i =>
          refine (hplaces i).trans ?_
          cases array <;> rfl

/-- A map with an entry set. -/
def setEntry (m : List (Text × α)) (key : Text) (v : α) : List (Text × α) := m.filter (fun e => e.1 ≠ key) ++ [(key, v)]

def readMap (read : Json → Option α) (old : List (Text × α)) : Json → Option (List (Text × α))
  | .null => some []
  | .object ms => ms.foldlM (fun m e => (read e.2).map (setEntry m e.1)) old
  | _ => none

theorem setEntry_of_not_mem {m : List (Text × α)} {key : Text} (h : key ∉ m.map Prod.fst) (v : α) :
    setEntry m key v = m ++ [(key, v)] := by
  rw [setEntry, List.filter_eq_self.mpr]
  intro e he
  exact decide_eq_true fun heq => h (heq ▸ List.mem_map_of_mem he)

/-- A map whose keys differ is read back in the order it is written. -/
theorem readMap_object {read : Json → Option α} {put : α → Json} (hread : ∀ v, read (put v) = some v)
    (m : List (Text × α)) (hkeys : (m.map Prod.fst).Nodup) :
    readMap read [] (.object (m.map fun e => (e.1, put e.2))) = some m := by
  have hfold : ∀ front back : List (Text × α), ((front ++ back).map Prod.fst).Nodup →
      (back.map fun e => (e.1, put e.2)).foldlM (fun m e => (read e.2).map (setEntry m e.1)) front = some (front ++ back) := by
    intro front back hnodup
    induction back generalizing front with
    | nil => rw [List.append_nil]; rfl
    | cons e back ih =>
        have hnot : e.1 ∉ front.map Prod.fst := by
          rw [List.map_append, List.map_cons] at hnodup
          exact fun hmem => (List.nodup_append.mp hnodup).2.2 _ hmem _ (List.mem_cons_self ..) rfl
        rw [List.map_cons, List.foldlM_cons, hread, Option.map_some, setEntry_of_not_mem hnot]
        have hrest := ih (front ++ [e]) (by rwa [List.append_assoc])
        rwa [List.append_assoc] at hrest
  exact hfold [] m hkeys

/-! ### What is written fits the reader -/

theorem fits_texts {d : Nat} (l : List Text) : Fits (texts l) (d + 1) := by
  refine fits_array fun v hv => ?_
  obtain ⟨s, -, rfl⟩ := List.mem_map.mp hv
  exact trivial

theorem fits_map {put : α → Json} {d : Nat} (hput : ∀ v, Fits (put v) d) (m : List (Text × α)) :
    Fits (.object (m.map fun e => (e.1, put e.2))) (d + 1) := by
  refine fits_object fun e he => ?_
  obtain ⟨e', -, rfl⟩ := List.mem_map.mp he
  exact hput e'.2

theorem unmarshalObject_write {ms : List (Text × Json)} (hfits : ∀ m ∈ ms, Fits m.2 9999) :
    unmarshalObject (write (.object ms)) = some ms := by
  rw [unmarshalObject, unmarshal_write (fits_object hfits)]

end GoJson
