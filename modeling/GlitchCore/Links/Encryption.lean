import GlitchCore.Base.Fallible
import GlitchCore.Base.Fields
import GlitchCore.Links.Share

/-!
# What a vless encryption value is

A value that `Normalize` accepts has the fields of the scheme, its paddings before its keys and a first padding the
engines take. The total of its paddings is a machine integer: the bound it is held against says something of the true
sum only as long as that sum fits.
-/

namespace GlitchCore.Links.VlessEncryption

open GoText

/-! ### The fields of a value -/

/-- What follows scheme, mode and round-trip time. -/
def fieldsOf (value : Text) : List Text := (split '.' value).drop 3

def isPadding (field : Text) : Bool := field ≠ [] && byteLength field < paddingLimit

def isKey (field : Text) : Bool := paddingLimit ≤ byteLength field

def paddingsOf (value : Text) : List Text := (fieldsOf value).filter isPadding

/-- The larger of a padding's two lengths. -/
def larger (segment : Text) : Int :=
  match paddingNumbers segment with
  | .ok (_, low, high) => max low high
  | .error _ => 0

/-- The sum of the larger lengths at even places, counted from a place on. -/
def evenTotal : Nat → List Text → Int
  | _, [] => 0
  | i, segment :: rest => (if i % 2 = 0 then larger segment else 0) + evenTotal (i + 1) rest

/-- The engines take a padding in the first place. -/
def FirstPadding (segment : Text) : Prop :=
  ∃ chance low high, paddingNumbers segment = .ok (chance, low, high) ∧ 100 ≤ chance ∧ 35 ≤ low ∧ 35 ≤ high

structure WellFormed (value : Text) : Prop where
  head : ∃ mode rtt rest, split '.' value = scheme :: mode :: rtt :: rest ∧
    mode ∈ ["native".toList, "xorpub".toList, "random".toList] ∧ rtt ∈ ["0rtt".toList, "1rtt".toList]
  key : ∃ field ∈ fieldsOf value, isKey field = true
  keys : ∀ field ∈ fieldsOf value, isKey field = true → checkKey field = .ok ()
  order : (fieldsOf value).Pairwise fun field later => isKey field = true → isPadding later = false
  first : ∀ segment, (paddingsOf value).head? = some segment → FirstPadding segment
  total : evenTotal 0 (paddingsOf value) ≤ maxTotalPadding

/-! ### The loop over the paddings -/

theorem wrap64_wrap64_add (a b : Int) : wrap64 (wrap64 a + b) = wrap64 (a + b) := by
  unfold wrap64
  omega

theorem wrap64_of_lt {n : Int} (hlow : -9223372036854775808 ≤ n) (hhigh : n < 9223372036854775808) : wrap64 n = n := by
  unfold wrap64
  omega

theorem larger_eq {segment : Text} {chance low high : Int} (h : paddingNumbers segment = .ok (chance, low, high)) :
    larger segment = max low high := by
  rw [larger, h]

/-- One round: the numbers read, the first padding is one the engines take, and an even place adds. -/
theorem addPadding_ok {total total' : Int} {segment : Text} {i : Nat} (h : addPadding total (segment, i) = .ok total') :
    (i = 0 → FirstPadding segment) ∧ (paddingNumbers segment).isOk = true ∧
      total' = if i % 2 = 0 then wrap64 (total + larger segment) else total := by
  unfold addPadding at h
  obtain ⟨⟨chance, low, high⟩, hnumbers, h⟩ := Fallible.bind_eq_ok h
  dsimp only at hnumbers h
  split at h
  · cases h
  rename_i hfirst
  obtain rfl := Except.ok.inj h
  refine ⟨fun hi => ?_, by rw [hnumbers]; rfl, by rw [larger_eq hnumbers]⟩
  rw [not_and_or, not_or, not_or] at hfirst
  obtain ⟨hchance, hlow, hhigh⟩ := hfirst.resolve_left (not_not.mpr hi)
  exact ⟨chance, low, high, hnumbers, by omega, by omega, by omega⟩

/-- The rounds from a place on: the total is the true sum, wrapped. -/
theorem foldlM_addPadding {paddings : List Text} {i : Nat} {total total' : Int}
    (h : (paddings.zipIdx i).foldlM addPadding (wrap64 total) = .ok total') :
    total' = wrap64 (total + evenTotal i paddings) ∧ (∀ segment ∈ paddings, (paddingNumbers segment).isOk = true) ∧
      (i = 0 → ∀ segment, paddings.head? = some segment → FirstPadding segment) := by
  induction paddings generalizing i total with
  | nil =>
      obtain rfl := Except.ok.inj h
      exact ⟨by rw [evenTotal, Int.add_zero], by simp, by simp⟩
  | cons segment rest ih =>
      rw [List.zipIdx_cons, List.foldlM_cons] at h
      obtain ⟨next, hnext, h⟩ := Fallible.bind_eq_ok h
      obtain ⟨hfirst, hnumbers, hvalue⟩ := addPadding_ok hnext
      have hnext' : next = wrap64 (total + if i % 2 = 0 then larger segment else 0) := by
        rw [hvalue]
        split
        · exact wrap64_wrap64_add ..
        · rw [Int.add_zero]
      rw [hnext'] at h
      obtain ⟨htotal, hrest, -⟩ := ih h
      refine ⟨by rw [htotal, evenTotal, Int.add_assoc], ?_, fun hi segment' hsegment => ?_⟩
      · intro segment' hmem
        obtain rfl | hmem := List.mem_cons.mp hmem
        · exact hnumbers
        · exact hrest segment' hmem
      · obtain rfl := Option.some.inj hsegment
        exact hfirst hi

theorem checkPadding_ok {paddings : List Text} (h : checkPadding paddings = .ok ()) :
    wrap64 (evenTotal 0 paddings) ≤ maxTotalPadding ∧ (∀ segment ∈ paddings, (paddingNumbers segment).isOk = true) ∧
      ∀ segment, paddings.head? = some segment → FirstPadding segment := by
  unfold checkPadding at h
  obtain ⟨total, htotal, h⟩ := Fallible.bind_eq_ok h
  have hzero : wrap64 0 = 0 := by decide
  rw [← hzero] at htotal
  obtain ⟨rfl, hnumbers, hfirst⟩ := foldlM_addPadding htotal
  rw [Int.zero_add] at h
  split at h
  · cases h
  · rename_i hbound
    exact ⟨by omega, hnumbers, hfirst rfl⟩

/-- The lengths stand between dashes, so neither is negative. -/
theorem larger_nonneg (segment : Text) : 0 ≤ larger segment := by
  unfold larger
  split
  · rename_i chance low high hnumbers
    unfold paddingNumbers at hnumbers
    split at hnumbers
    · rename_i first second third rest hsplit
      split at hnumbers
      · cases hnumbers
      split at hnumbers
      · rename_i c l h hc hl hh
        obtain ⟨rfl, rfl, rfl⟩ : c = chance ∧ l = low ∧ h = high := by simpa using hnumbers
        have hdash : '-' ∉ second := not_mem_of_mem_split (s := segment) (by rw [hsplit]; simp)
        have hle := atoi_nonneg hl hdash
        omega
      · cases hnumbers
    · cases hnumbers
  · exact Int.le_refl 0

theorem evenTotal_nonneg (i : Nat) (paddings : List Text) : 0 ≤ evenTotal i paddings := by
  induction paddings generalizing i with
  | nil => exact Int.le_refl 0
  | cons segment rest ih =>
      have hrest := ih (i + 1)
      have hsegment := larger_nonneg segment
      rw [evenTotal]
      split <;> omega

/-! ### The loop over the fields -/

theorem readField_ok {acc acc' : List Text × Nat} {field : Text} (h : readField acc field = .ok acc') :
    (field = [] ∧ acc' = acc) ∨ (isPadding field = true ∧ acc.2 = 0 ∧ acc' = (acc.1 ++ [field], acc.2)) ∨
      (isKey field = true ∧ checkKey field = .ok () ∧ acc' = (acc.1, acc.2 + 1)) := by
  unfold readField at h
  split at h
  · rename_i hempty
    exact .inl ⟨hempty, (Except.ok.inj h).symm⟩
  rename_i hempty
  split at h
  · rename_i hshort
    split at h
    · cases h
    · refine .inr (.inl ⟨?_, by omega, (Except.ok.inj h).symm⟩)
      simp [isPadding, hempty, hshort]
  · rename_i hlong
    obtain ⟨_, hkey, h⟩ := Fallible.bind_eq_ok h
    refine .inr (.inr ⟨?_, hkey, (Except.ok.inj h).symm⟩)
    rw [isKey, decide_eq_true_eq]
    omega

theorem not_isPadding_of_isKey {field : Text} (h : isKey field = true) : isPadding field = false := by
  rw [isKey, decide_eq_true_eq] at h
  rw [isPadding, Bool.and_eq_false_iff]
  exact .inr (decide_eq_false (by omega))

theorem not_isKey_of_isPadding {field : Text} (h : isPadding field = true) : isKey field = false := by
  by_contra hkey
  rw [not_isPadding_of_isKey (Bool.not_eq_false _ ▸ hkey)] at h
  cases h

/-- The rounds over the fields: the paddings in order, the number of keys, and no padding behind a key. -/
theorem foldlM_readField {fields : List Text} {acc acc' : List Text × Nat} (h : fields.foldlM readField acc = .ok acc') :
    acc'.1 = acc.1 ++ fields.filter isPadding ∧ acc'.2 = acc.2 + (fields.filter isKey).length ∧
      (0 < acc.2 → ∀ field ∈ fields, isPadding field = false) ∧
      (fields.Pairwise fun field later => isKey field = true → isPadding later = false) ∧
      ∀ field ∈ fields, isKey field = true → checkKey field = .ok () := by
  induction fields generalizing acc with
  | nil =>
      obtain rfl := Except.ok.inj h
      simp
  | cons field rest ih =>
      rw [List.foldlM_cons] at h
      obtain ⟨next, hnext, h⟩ := Fallible.bind_eq_ok h
      obtain ⟨hpaddings, hkeys, hnone, horder, hvalid⟩ := ih h
      obtain ⟨rfl, rfl⟩ | ⟨hpadding, hzero, rfl⟩ | ⟨hkey, hcheck, rfl⟩ := readField_ok hnext
      · have hempty : isPadding [] = false ∧ isKey [] = false := by decide
        rw [List.filter_cons_of_neg (by simp [hempty.1]), List.filter_cons_of_neg (by simp [hempty.2])]
        refine ⟨hpaddings, hkeys, fun hpos field hmem => ?_, ?_, fun field hmem hkey => ?_⟩
        · obtain rfl | hmem := List.mem_cons.mp hmem
          · exact hempty.1
          · exact hnone hpos field hmem
        · refine List.pairwise_cons.mpr ⟨fun later _ hkey => ?_, horder⟩
          rw [hempty.2] at hkey
          cases hkey
        · obtain rfl | hmem := List.mem_cons.mp hmem
          · rw [hempty.2] at hkey
            cases hkey
          · exact hvalid field hmem hkey
      · have hnotkey := not_isKey_of_isPadding hpadding
        rw [List.filter_cons_of_pos hpadding, List.filter_cons_of_neg (by simp [hnotkey])]
        refine ⟨by rw [hpaddings]; simp, hkeys, fun hpos => absurd hzero (by omega), ?_, fun field' hmem hkey => ?_⟩
        · refine List.pairwise_cons.mpr ⟨fun later _ hkey => ?_, horder⟩
          rw [hnotkey] at hkey
          cases hkey
        · obtain rfl | hmem := List.mem_cons.mp hmem
          · rw [hnotkey] at hkey
            cases hkey
          · exact hvalid field' hmem hkey
      · have hnotpadding := not_isPadding_of_isKey hkey
        have hlater := hnone (Nat.succ_pos _)
        rw [List.filter_cons_of_neg (by simp [hnotpadding]), List.filter_cons_of_pos hkey]
        refine ⟨hpaddings, by rw [hkeys, List.length_cons]; omega, fun _ field' hmem => ?_,
          List.pairwise_cons.mpr ⟨fun later hmem _ => hlater later hmem, horder⟩, fun field' hmem hkey' => ?_⟩
        · obtain rfl | hmem := List.mem_cons.mp hmem
          · exact hnotpadding
          · exact hlater field' hmem
        · obtain rfl | hmem := List.mem_cons.mp hmem
          · exact hcheck
          · exact hvalid field' hmem hkey'

/-- What an accepted value is like, up to the machine's arithmetic. -/
theorem normalize_ok {raw value : Text} (h : normalize raw = .ok value) (hne : value ≠ noneValue) :
    (wrap64 (evenTotal 0 (paddingsOf value)) ≤ maxTotalPadding) ∧
      (evenTotal 0 (paddingsOf value) ≤ maxTotalPadding → WellFormed value) := by
  unfold normalize at h
  dsimp only at h
  split at h
  · exact absurd (Except.ok.inj h).symm hne
  split at h
  · rename_i head mode rtt field fields hsplit
    split at h
    · cases h
    rename_i hhead
    split at h
    · cases h
    rename_i hmode
    split at h
    · cases h
    rename_i hrtt
    cases hread : readFields (field :: fields) with
    | error e =>
        rw [hread] at h
        cases h
    | ok _ =>
        rw [hread] at h
        obtain rfl := Except.ok.inj h
        obtain ⟨⟨paddings, keys⟩, hfold, hread⟩ := Fallible.bind_eq_ok hread
        dsimp only at hread
        split at hread
        · cases hread
        rename_i hkeys
        obtain ⟨hpaddings, hcount, -, horder, hvalid⟩ := foldlM_readField hfold
        have hfields : fieldsOf (trimSpace raw) = field :: fields := by
          rw [fieldsOf, hsplit]
          rfl
        have hall : paddings = paddingsOf (trimSpace raw) := by
          rw [paddingsOf, hfields]
          exact hpaddings
        rw [hall] at hread
        obtain ⟨htotal, -, hfirst⟩ := checkPadding_ok hread
        refine ⟨htotal, fun hsum => ?_⟩
        refine ⟨⟨mode, rtt, field :: fields, by rw [hsplit, not_not.mp hhead], not_not.mp hmode, not_not.mp hrtt⟩, ?_, ?_,
          ?_, hfirst, hsum⟩
        · rw [hfields]
          have hpos : 0 < ((field :: fields).filter isKey).length := by omega
          obtain ⟨key, hkey⟩ := List.exists_mem_of_length_pos hpos
          exact ⟨key, (List.mem_filter.mp hkey).1, (List.mem_filter.mp hkey).2⟩
        · rw [hfields]
          exact hvalid
        · rw [hfields]
          exact horder
  · cases h

/-- A value that is accepted is well formed as long as the sum of its paddings fits a machine integer. -/
theorem normalize_wellFormed_iff (raw value : Text) (h : normalize raw = .ok value) (hne : value ≠ noneValue) :
    WellFormed value ↔ evenTotal 0 (paddingsOf value) < 9223372036854775808 := by
  obtain ⟨hbound, hwellFormed⟩ := normalize_ok h hne
  constructor
  · intro hvalue
    have htotal := hvalue.total
    unfold maxTotalPadding at htotal
    omega
  · intro hfits
    rw [wrap64_of_lt (by have := evenTotal_nonneg 0 (paddingsOf value); omega) hfits] at hbound
    exact hwellFormed hbound

def sampleKey : Text := "AAECAwQFBgcICQoLDA0ODxAREhMUFRYXGBkaGxwdHh8".toList

def sampleValue : Text :=
  "mlkem768x25519plus.native.0rtt.100-111-1111.75-0-111.50-0-3333.".toList ++ sampleKey

theorem normalize_wellFormed_iff_sample :
    normalize sampleValue = .ok sampleValue ∧
      (WellFormed sampleValue ↔ evenTotal 0 (paddingsOf sampleValue) < 9223372036854775808) :=
  have hok : normalize sampleValue = .ok sampleValue := by decide +kernel
  ⟨hok, normalize_wellFormed_iff sampleValue sampleValue hok (by decide +kernel)⟩

/-! ### A sum that does not fit -/

theorem readField_padding {field : Text} (h : isPadding field = true) (paddings : List Text) :
    readField (paddings, 0) field = .ok (paddings ++ [field], 0) := by
  rw [isPadding, Bool.and_eq_true, decide_eq_true_eq, decide_eq_true_eq] at h
  rw [readField, if_neg h.1, if_pos h.2, if_neg (Nat.lt_irrefl 0)]

theorem readField_key {field : Text} (h : isKey field = true) (hcheck : checkKey field = .ok ()) (acc : List Text × Nat) :
    readField acc field = .ok (acc.1, acc.2 + 1) := by
  rw [isKey, decide_eq_true_eq] at h
  have hne : field ≠ [] := by
    rintro rfl
    exact absurd h (by decide)
  rw [readField, if_neg hne, if_neg (by omega), hcheck]
  rfl

theorem foldlM_readField_paddings {fields : List Text} (h : ∀ field ∈ fields, isPadding field = true)
    (paddings : List Text) : fields.foldlM readField (paddings, 0) = .ok (paddings ++ fields, 0) := by
  induction fields generalizing paddings with
  | nil => rw [List.append_nil]; rfl
  | cons field rest ih =>
      rw [List.foldlM_cons, readField_padding (h field (by simp))]
      have hrest := ih (fun f hf => h f (by simp [hf])) (paddings ++ [field])
      rw [List.append_assoc] at hrest
      exact hrest

theorem addPadding_eq {segment : Text} {i : Nat} (hnumbers : (paddingNumbers segment).isOk = true)
    (hfirst : i = 0 → FirstPadding segment) (total : Int) :
    addPadding total (segment, i) = .ok (if i % 2 = 0 then wrap64 (total + larger segment) else total) := by
  cases hread : paddingNumbers segment with
  | error e =>
      rw [hread] at hnumbers
      cases hnumbers
  | ok numbers =>
      obtain ⟨chance, low, high⟩ := numbers
      have hpass : ¬ (i = 0 ∧ (chance < 100 ∨ low < 35 ∨ high < 35)) := by
        rintro ⟨hi, hsmall⟩
        obtain ⟨chance', low', high', hread', hchance, hlow, hhigh⟩ := hfirst hi
        rw [hread] at hread'
        obtain ⟨rfl, rfl, rfl⟩ : chance = chance' ∧ low = low' ∧ high = high' := by simpa using hread'
        omega
      rw [addPadding, hread, larger_eq hread]
      exact if_neg hpass

theorem foldlM_addPadding_eq {paddings : List Text} {i : Nat}
    (hnumbers : ∀ segment ∈ paddings, (paddingNumbers segment).isOk = true)
    (hfirst : i = 0 → ∀ segment, paddings.head? = some segment → FirstPadding segment) (total : Int) :
    (paddings.zipIdx i).foldlM addPadding (wrap64 total) = .ok (wrap64 (total + evenTotal i paddings)) := by
  induction paddings generalizing i total with
  | nil => rw [evenTotal, Int.add_zero]; rfl
  | cons segment rest ih =>
      have hnext : addPadding (wrap64 total) (segment, i) =
          .ok (wrap64 (total + if i % 2 = 0 then larger segment else 0)) := by
        rw [addPadding_eq (hnumbers segment (by simp)) (fun hi => hfirst hi segment rfl)]
        split
        · rw [wrap64_wrap64_add]
        · rw [Int.add_zero]
      have hrest := ih (i := i + 1) (fun s hs => hnumbers s (by simp [hs])) (fun hi => absurd hi (by omega))
        (total + if i % 2 = 0 then larger segment else 0)
      rw [List.zipIdx_cons, List.foldlM_cons, hnext, evenTotal, ← Int.add_assoc]
      exact hrest

theorem checkPadding_eq {paddings : List Text} (hnumbers : ∀ segment ∈ paddings, (paddingNumbers segment).isOk = true)
    (hfirst : ∀ segment, paddings.head? = some segment → FirstPadding segment)
    (htotal : wrap64 (evenTotal 0 paddings) ≤ maxTotalPadding) : checkPadding paddings = .ok () := by
  have hfold := foldlM_addPadding_eq (i := 0) hnumbers (fun _ => hfirst) 0
  have hzero : wrap64 0 = 0 := by decide
  rw [hzero, Int.zero_add] at hfold
  rw [checkPadding, hfold]
  exact if_neg (by omega)

/-- A part of a value: no dot and no white space. -/
def isPart (s : Text) : Bool := s.all fun c => c != '.' && !isSpace c

theorem isPart_iff {s : Text} : isPart s = true ↔ ∀ c ∈ s, c ≠ '.' ∧ isSpace c = false := by
  simp [isPart, List.all_eq_true]

/-- Parts joined by dots are read back as they were. -/
theorem split_join_parts {parts : List Text} (hne : parts ≠ []) (hparts : ∀ part ∈ parts, isPart part = true) :
    split '.' (join ['.'] parts) = parts ∧ trimSpace (join ['.'] parts) = join ['.'] parts := by
  have hsplit : split '.' (join ['.'] parts) = parts :=
    split_join hne fun part hpart hdot => (isPart_iff.mp (hparts part hpart) '.' hdot).1 rfl
  refine ⟨hsplit, trim_eq_self.mpr (edges_of_forall fun c hc => ?_)⟩
  obtain rfl | ⟨part, hpart, hmem⟩ := mem_split_or '.' hc
  · decide
  · rw [hsplit] at hpart
    exact (isPart_iff.mp (hparts part hpart) c hmem).2

theorem not_none_of_dot {value : Text} (h : '.' ∈ value) : ¬ (value = [] ∨ equalFold value noneValue = true) := by
  rintro (rfl | hfold)
  · cases h
  · rw [equalFold, beq_iff_eq] at hfold
    have hdot : foldRune '.' ∈ value.map foldRune := List.mem_map_of_mem h
    rw [hfold] at hdot
    exact absurd hdot (by decide)

theorem readFields_append_key {paddings : List Text} {key : Text}
    (hpaddings : ∀ segment ∈ paddings, isPadding segment = true) (hpad : checkPadding paddings = .ok ())
    (hkey : isKey key = true) (hcheck : checkKey key = .ok ()) : readFields (paddings ++ [key]) = .ok () := by
  have hfold : (paddings ++ [key]).foldlM readField ([], 0) = .ok (paddings, 1) := by
    rw [List.foldlM_append, foldlM_readField_paddings hpaddings, List.nil_append]
    change ([key].foldlM readField (paddings, 0) : Except EncryptionError _) = _
    rw [List.foldlM_cons, readField_key hkey hcheck]
    rfl
  rw [readFields, hfold]
  exact hpad

/-- Paddings that pass one by one, and a key, make a value that is accepted. -/
theorem normalize_join {first key : Text} {rest : List Text}
    (hparts : ∀ segment ∈ first :: rest, isPart segment = true ∧ isPadding segment = true) (hkeyPart : isPart key = true)
    (hpad : checkPadding (first :: rest) = .ok ()) (hkey : isKey key = true) (hcheck : checkKey key = .ok ())
    {parts : List Text} (hlist : parts = scheme :: "native".toList :: "0rtt".toList :: first :: (rest ++ [key])) :
    split '.' (join ['.'] parts) = parts ∧ normalize (join ['.'] parts) = .ok (join ['.'] parts) := by
  have hall : ∀ part ∈ parts, isPart part = true := by
    intro part hpart
    rw [hlist] at hpart
    simp only [List.mem_cons, List.mem_append, List.not_mem_nil, or_false] at hpart
    obtain rfl | rfl | rfl | rfl | hpart | rfl := hpart
    · decide
    · decide
    · decide
    · exact (hparts _ List.mem_cons_self).1
    · exact (hparts part (List.mem_cons_of_mem _ hpart)).1
    · exact hkeyPart
  obtain ⟨hsplit, htrim⟩ := split_join_parts (by rw [hlist]; exact List.cons_ne_nil _ _) hall
  have hdot : '.' ∈ join ['.'] parts := by
    by_contra habs
    have hsingle := congrArg List.length (split_of_not_mem habs)
    rw [hsplit, hlist] at hsingle
    simp at hsingle
  have hread := readFields_append_key (fun segment hs => (hparts segment hs).2) hpad hkey hcheck
  refine ⟨hsplit, ?_⟩
  have hparsed := hsplit.trans hlist
  rw [normalize, htrim, if_neg (not_none_of_dot hdot), hparsed]
  dsimp only
  rw [if_neg (by simp), if_neg (by simp), if_neg (by simp)]
  rw [List.cons_append] at hread
  rw [hread]
  rfl

def firstSegment : Text := "100-35-999999999999".toList

/-- A gap that adds nothing and a padding near the longest a field can say. -/
def gapAndPadding : List Text := ["0-0-0".toList, "0-0-999999999999999".toList]

def longPaddings : List Text := firstSegment :: (List.replicate 9224 gapAndPadding).flatten

def overflowingParts : List Text :=
  scheme :: "native".toList :: "0rtt".toList :: (longPaddings ++ [sampleKey])

def overflowingValue : Text := join ['.'] overflowingParts

theorem mem_longPaddings {p : Text → Bool} (h : (firstSegment :: gapAndPadding).all p = true) {segment : Text}
    (hmem : segment ∈ longPaddings) : p segment = true := by
  rw [List.all_eq_true] at h
  obtain rfl | hmem := List.mem_cons.mp hmem
  · exact h firstSegment List.mem_cons_self
  · obtain ⟨pair, hpair, hin⟩ := List.mem_flatten.mp hmem
    rw [List.eq_of_mem_replicate hpair] at hin
    exact h segment (List.mem_cons_of_mem _ hin)

/-- From an odd place on, only the second of each pair counts. -/
theorem evenTotal_replicate (n : Nat) {i : Nat} (hi : i % 2 = 1) :
    evenTotal i (List.replicate n gapAndPadding).flatten = n * 999999999999999 := by
  induction n generalizing i with
  | zero => rfl
  | succ n ih =>
      have hpadding : larger "0-0-999999999999999".toList = 999999999999999 := by decide
      have hrest := ih (i := i + 1 + 1) (by omega)
      rw [List.replicate_succ, List.flatten_cons, gapAndPadding, List.cons_append, List.cons_append, List.nil_append,
        evenTotal, evenTotal, if_neg (by omega), if_pos (by omega), hpadding, ← gapAndPadding, hrest]
      omega

theorem evenTotal_longPaddings : evenTotal 0 longPaddings = 9224000999999990775 := by
  have hfirst : larger firstSegment = 999999999999 := by decide
  rw [longPaddings, evenTotal, if_pos rfl, hfirst, Nat.zero_add, evenTotal_replicate 9224 rfl]
  rfl

theorem checkPadding_longPaddings : checkPadding longPaddings = .ok () := by
  refine checkPadding_eq (fun segment hmem => mem_longPaddings (p := fun s => (paddingNumbers s).isOk) (by decide) hmem)
    (fun segment hhead => ?_) ?_
  · obtain rfl : firstSegment = segment := Option.some.inj hhead
    exact ⟨100, 35, 999999999999, by decide, by decide, by decide, by decide⟩
  · rw [evenTotal_longPaddings]
    decide

theorem split_overflowingValue :
    split '.' overflowingValue = overflowingParts ∧ normalize overflowingValue = .ok overflowingValue :=
  normalize_join
    (fun segment hmem => Bool.and_eq_true_iff.mp
      (mem_longPaddings (p := fun s => isPart s && isPadding s) (by decide) hmem))
    (by decide) checkPadding_longPaddings (by decide) (by decide +kernel) rfl

theorem paddingsOf_overflowingValue : paddingsOf overflowingValue = longPaddings := by
  have hkey : ¬ isPadding sampleKey = true := by decide
  have hfilter : longPaddings.filter isPadding = longPaddings :=
    List.filter_eq_self.mpr fun segment hmem => mem_longPaddings (p := isPadding) (by decide) hmem
  rw [paddingsOf, fieldsOf, split_overflowingValue.1, overflowingParts, List.drop_succ_cons, List.drop_succ_cons,
    List.drop_succ_cons, List.drop_zero, List.filter_append, hfilter, List.filter_cons_of_neg hkey, List.filter_nil,
    List.append_nil]

/-- The sum of the paddings passes the largest machine integer, comes out negative and is let through. -/
theorem overflowingValue_accepted :
    normalize overflowingValue = .ok overflowingValue ∧ ¬ WellFormed overflowingValue := by
  refine ⟨split_overflowingValue.2, fun hwell => ?_⟩
  have htotal := hwell.total
  rw [paddingsOf_overflowingValue, evenTotal_longPaddings] at htotal
  exact absurd htotal (by decide)

end GlitchCore.Links.VlessEncryption
