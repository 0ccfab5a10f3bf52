import GlitchCore.Base.GoText

/-!
# Separated fields

A text cut at a separator, each field trimmed, and the fields joined again: what the trip leaves as it was. A
text is tidy when none of its fields begins or ends with a rune that trimming takes.
-/

namespace GoText

variable {p : Char → Bool} {sep : Char} {s t : Text}

/-! ### Trimming -/

/-- Neither end of the text is in the set. -/
def Edges (p : Char → Bool) (s : Text) : Prop := (∀ c ∈ s.head?, p c = false) ∧ ∀ c ∈ s.getLast?, p c = false

instance (p : Char → Bool) (s : Text) : Decidable (Edges p s) :=
  decidable_of_iff (s.head?.all (fun c => !p c) = true ∧ s.getLast?.all (fun c => !p c) = true)
    (by simp [Edges, Option.all_eq_true])

theorem rdropWhile_eq_self : s.rdropWhile p = s ↔ ∀ c ∈ s.getLast?, p c = false := by
  rw [List.rdropWhile_eq_self_iff]
  constructor
  · intro h c hc
    obtain ⟨hne, rfl⟩ := List.mem_getLast?_eq_getLast hc
    exact Bool.eq_false_iff.mpr (h hne)
  · intro h hne
    exact Bool.eq_false_iff.mp (h _ (List.getLast_mem_getLast? hne))

theorem dropWhile_eq_self : s.dropWhile p = s ↔ ∀ c ∈ s.head?, p c = false := by
  cases s with
  | nil => simp
  | cons c s =>
      rw [List.dropWhile_eq_self_iff]
      simp

theorem trim_eq_self : trim p s = s ↔ Edges p s := by
  constructor
  · intro h
    have hle : s.length ≤ (s.dropWhile p).length := by
      conv_lhs => rw [← h]
      exact (List.rdropWhile_prefix p (s.dropWhile p)).length_le
    have hdrop : s.dropWhile p = s := (List.dropWhile_suffix p).eq_of_length_le hle
    rw [trim, hdrop] at h
    exact ⟨dropWhile_eq_self.mp hdrop, rdropWhile_eq_self.mp h⟩
  · rintro ⟨hhead, hlast⟩
    rw [trim, dropWhile_eq_self.mpr hhead, rdropWhile_eq_self.mpr hlast]

theorem edges_trim (p : Char → Bool) (s : Text) : Edges p (trim p s) := by
  constructor
  · intro c hc
    obtain ⟨rest, hrest⟩ := List.rdropWhile_prefix p (s.dropWhile p)
    refine dropWhile_eq_self.mp (List.dropWhile_idempotent p s) c ?_
    have hhead : (s.dropWhile p).head? = some c := by
      rw [← hrest, List.head?_append, ← trim, Option.mem_def.mp hc]
      rfl
    exact hhead
  · exact rdropWhile_eq_self.mp (List.rdropWhile_idempotent p _)

theorem Edges.append (hs : Edges p s) (ht : Edges p t) : Edges p (s ++ t) := by
  constructor
  · rw [List.head?_append]
    cases s with
    | nil => exact ht.1
    | cons c s => exact hs.1
  · rw [List.getLast?_append]
    cases hlast : t.getLast? with
    | none => exact hs.2
    | some c =>
        intro c' hc'
        exact ht.2 c' (hlast ▸ hc')

theorem edges_of_forall (h : ∀ c ∈ s, p c = false) : Edges p s :=
  ⟨fun c hc => h c (List.mem_of_mem_head? hc), fun c hc => h c (List.mem_of_mem_getLast? hc)⟩

theorem Edges.mono {q : Char → Bool} (hpq : ∀ c, q c = true → p c = true) (hs : Edges p s) : Edges q s :=
  ⟨fun c hc => Bool.eq_false_iff.mpr fun h => Bool.eq_false_iff.mp (hs.1 c hc) (hpq c h),
    fun c hc => Bool.eq_false_iff.mpr fun h => Bool.eq_false_iff.mp (hs.2 c hc) (hpq c h)⟩

theorem mem_of_mem_trim {c : Char} (hc : c ∈ trim p s) : c ∈ s :=
  (List.dropWhile_sublist p).subset ((List.rdropWhile_prefix p _).subset hc)

theorem mem_trim_or {c : Char} (hc : c ∈ s) : p c = true ∨ c ∈ trim p s := by
  rw [← List.takeWhile_append_dropWhile (p := p) (l := s), List.mem_append] at hc
  obtain hc | hc := hc
  · exact .inl (List.mem_takeWhile_imp hc)
  · rw [← List.rdropWhile_append_rtakeWhile (p := p) (l := s.dropWhile p), List.mem_append] at hc
    exact hc.symm.imp List.mem_rtakeWhile_imp id

theorem length_trim_le (p : Char → Bool) (s : Text) : (trim p s).length ≤ s.length :=
  (List.rdropWhile_prefix p _).length_le.trans (List.dropWhile_suffix p).length_le

theorem trim_append_of_forall_right {after : Text} (h : ∀ c ∈ after, p c = true) : trim p (s ++ after) = trim p s := by
  have hback (t : Text) : (t ++ after).rdropWhile p = t.rdropWhile p := by
    induction after using List.reverseRecOn with
    | nil => rw [List.append_nil]
    | append_singleton after c ih =>
        rw [← List.append_assoc, List.rdropWhile_concat_pos _ _ _ (h c (by simp)), ih fun d hd => h d (by simp [hd])]
  rw [trim, trim, List.dropWhile_append]
  split
  · rename_i hnil
    rw [List.isEmpty_iff.mp hnil, List.dropWhile_eq_nil_iff.mpr h]
  · exact hback _

theorem trim_append_of_forall_left {before : Text} (h : ∀ c ∈ before, p c = true) : trim p (before ++ s) = trim p s := by
  rw [trim, trim, List.dropWhile_append_of_pos h]

/-- Trimming takes what was put around a text. -/
theorem trim_surrounded {before after : Text} (hbefore : ∀ c ∈ before, p c = true) (hafter : ∀ c ∈ after, p c = true)
    (hs : Edges p s) : trim p (before ++ s ++ after) = s := by
  rw [trim_append_of_forall_right hafter, trim_append_of_forall_left hbefore, trim_eq_self.mpr hs]

theorem trim_rdropWhile {q : Char → Bool} (hq : ∀ c, q c = true → p c = true) : trim p (s.rdropWhile q) = trim p s := by
  conv_rhs => rw [← List.rdropWhile_append_rtakeWhile (p := q) (l := s)]
  exact (trim_append_of_forall_right fun c hc => hq c (List.mem_rtakeWhile_imp hc)).symm

/-- Trimming takes nothing that a filter keeps. -/
theorem filter_trim {q : Char → Bool} (h : ∀ c ∈ s, p c = true → q c = false) : (trim p s).filter q = s.filter q := by
  have hfront : (s.takeWhile p).filter q = [] :=
    List.filter_eq_nil_iff.mpr fun c hc =>
      Bool.eq_false_iff.mp (h c ((List.takeWhile_sublist p).subset hc) (List.mem_takeWhile_imp hc))
  have hback : ((s.dropWhile p).rtakeWhile p).filter q = [] :=
    List.filter_eq_nil_iff.mpr fun c hc =>
      Bool.eq_false_iff.mp (h c ((List.dropWhile_sublist p).subset ((List.rtakeWhile_suffix p _).subset hc))
        (List.mem_rtakeWhile_imp hc))
  conv_rhs =>
    rw [← List.takeWhile_append_dropWhile (p := p) (l := s), List.filter_append, hfront, List.nil_append,
      ← List.rdropWhile_append_rtakeWhile (p := p) (l := s.dropWhile p), List.filter_append, hback, List.append_nil]
  rfl

/-! ### Splitting -/

theorem split_append_sep (s t : Text) : split sep (s ++ sep :: t) = split sep s ++ split sep t :=
  List.splitOn_append_cons_self ..

theorem split_of_not_mem (h : sep ∉ s) : split sep s = [s] := List.splitOn_eq_singleton h

theorem exists_split_cons (sep : Char) (s : Text) : ∃ first rest, split sep s = first :: rest :=
  List.exists_cons_of_ne_nil (List.splitOn_ne_nil sep s)

theorem not_mem_of_mem_split (ht : t ∈ split sep s) : sep ∉ t := by
  induction s generalizing t with
  | nil =>
      simp only [split, List.splitOn_nil, List.mem_singleton] at ht
      simp [ht]
  | cons c s ih =>
      rw [split, List.splitOn_cons_eq_if_modifyHead] at ht
      split at ht
      · obtain rfl | ht := List.mem_cons.mp ht
        · simp
        · exact ih ht
      · rename_i hc
        obtain ⟨first, rest, hsplit⟩ := exists_split_cons sep s
        rw [split] at hsplit
        rw [hsplit, List.modifyHead_cons] at ht
        obtain rfl | ht := List.mem_cons.mp ht
        · have hfirst : sep ∉ first := ih (by rw [split, hsplit]; simp)
          have hne : c ≠ sep := by simpa using hc
          simp [hfirst, Ne.symm hne]
        · exact ih (by rw [split, hsplit]; simp [ht])

theorem join_split (sep : Char) (s : Text) : join [sep] (split sep s) = s := List.intercalate_splitOn sep

theorem mem_join_of_mem {parts : List Text} {part w : Text} {c : Char} (hpart : part ∈ parts) (hc : c ∈ part) :
    c ∈ join w parts := by
  induction parts with
  | nil => cases hpart
  | cons first rest ih =>
      cases rest with
      | nil =>
          obtain rfl := List.mem_singleton.mp hpart
          simpa [join] using hc
      | cons second rest =>
          rw [join, List.intercalate_cons_cons, List.mem_append, List.mem_append]
          obtain rfl | hpart := List.mem_cons.mp hpart
          · exact .inl (.inl hc)
          · exact .inr (ih hpart)

theorem mem_of_mem_split {c : Char} (ht : t ∈ split sep s) (hc : c ∈ t) : c ∈ s := by
  rw [← join_split sep s]
  exact mem_join_of_mem ht hc

theorem split_join {parts : List Text} (hne : parts ≠ []) (h : ∀ t ∈ parts, sep ∉ t) :
    split sep (join [sep] parts) = parts :=
  List.splitOn_intercalate sep h hne

/-- No field begins or ends with a rune of the set. -/
def Tidy (sep : Char) (p : Char → Bool) (s : Text) : Prop := ∀ t ∈ split sep s, Edges p t

instance (sep : Char) (p : Char → Bool) (s : Text) : Decidable (Tidy sep p s) := List.decidableBAll ..

/-- The trip of a text whose fields are trimmed on the way. -/
def retrim (sep : Char) (p : Char → Bool) (s : Text) : Text := join [sep] ((split sep s).map (trim p))

theorem not_mem_trim (h : sep ∉ s) : sep ∉ trim p s := fun hmem => h (mem_of_mem_trim hmem)

theorem retrim_eq_self : retrim sep p s = s ↔ Tidy sep p s := by
  constructor
  · intro h
    have hparts : (split sep s).map (trim p) = split sep s := by
      have hsplit := congrArg (split sep) h
      rwa [retrim, split_join] at hsplit
      · obtain ⟨first, rest, hfirst⟩ := exists_split_cons sep s
        simp [hfirst]
      · intro t ht
        obtain ⟨t', ht', rfl⟩ := List.mem_map.mp ht
        exact not_mem_trim (not_mem_of_mem_split ht')
    intro t ht
    rw [← trim_eq_self]
    exact List.map_inj_left.mp (hparts.trans (List.map_id' _).symm) t ht
  · intro h
    rw [retrim, List.map_congr_left fun t ht => trim_eq_self.mpr (h t ht), List.map_id']
    exact join_split sep s

theorem tidy_append_sep : Tidy sep p (s ++ sep :: t) ↔ Tidy sep p s ∧ Tidy sep p t := by
  simp only [Tidy, split_append_sep, List.mem_append]
  exact ⟨fun h => ⟨fun u hu => h u (.inl hu), fun u hu => h u (.inr hu)⟩,
    fun h u hu => hu.elim (h.1 u) (h.2 u)⟩

theorem tidy_of_not_mem (h : sep ∉ s) : Tidy sep p s ↔ Edges p s := by
  rw [Tidy, split_of_not_mem h]
  simp

/-- The last part of the first text and the first one of the second are one part of both. -/
theorem split_append (sep : Char) (s t : Text) : ∃ front last first rest, split sep s = front ++ [last] ∧
    split sep t = first :: rest ∧ split sep (s ++ t) = front ++ (last ++ first) :: rest := by
  induction s with
  | nil =>
      obtain ⟨first, rest, ht⟩ := exists_split_cons sep t
      exact ⟨[], [], first, rest, by simp [split], ht, ht⟩
  | cons c s ih =>
      obtain ⟨front, last, first, rest, hs, ht, hst⟩ := ih
      rw [split] at hs hst
      simp only [List.cons_append, split, List.splitOn_cons_eq_if_modifyHead, hs, hst]
      by_cases hc : c = sep
      · exact ⟨[] :: front, last, first, rest, by simp [hc], ht, by simp [hc]⟩
      · cases front with
        | nil => exact ⟨[], c :: last, first, rest, by simp [hc], ht, by simp [hc]⟩
        | cons line front => exact ⟨(c :: line) :: front, last, first, rest, by simp [hc], ht, by simp [hc]⟩

theorem split_append_left {w : Text} (hw : sep ∉ w) (s : Text) :
    ∃ first rest, split sep s = first :: rest ∧ split sep (w ++ s) = (w ++ first) :: rest := by
  obtain ⟨front, last, first, rest, hone, hs, hws⟩ := split_append sep w s
  rw [split_of_not_mem hw, ← List.nil_append [w]] at hone
  obtain ⟨rfl, hlast⟩ := List.append_inj' hone rfl
  obtain rfl := List.singleton_inj.mp hlast
  exact ⟨first, rest, hs, hws⟩

theorem mem_split_or (sep : Char) {c : Char} (hc : c ∈ s) : c = sep ∨ ∃ t ∈ split sep s, c ∈ t := by
  induction s with
  | nil => cases hc
  | cons d s ih =>
      by_cases hd : d = sep
      · rw [hd, ← List.nil_append (sep :: s), split_append_sep]
        obtain rfl | hc := List.mem_cons.mp hc
        · exact .inl hd
        · exact (ih hc).imp id fun ⟨t, ht, hct⟩ => ⟨t, List.mem_append_right _ ht, hct⟩
      · have hnot : sep ∉ [d] := by simpa using Ne.symm hd
        obtain ⟨first, rest, hsplit, hleft⟩ := split_append_left hnot s
        rw [List.singleton_append] at hleft
        rw [hleft]
        obtain rfl | hc := List.mem_cons.mp hc
        · exact .inr ⟨c :: first, by simp, by simp⟩
        · refine (ih hc).imp id fun ⟨t, ht, hct⟩ => ?_
          rw [hsplit] at ht
          obtain rfl | ht := List.mem_cons.mp ht
          · exact ⟨d :: t, by simp, by simp [hct]⟩
          · exact ⟨t, by simp [ht], hct⟩

theorem split_append_right {w : Text} (hw : sep ∉ w) (s : Text) :
    ∃ front last, split sep s = front ++ [last] ∧ split sep (s ++ w) = front ++ [last ++ w] := by
  obtain ⟨front, last, first, rest, hs, hone, hsw⟩ := split_append sep s w
  obtain ⟨rfl, rfl⟩ : w = first ∧ [] = rest := List.cons.inj ((split_of_not_mem hw).symm.trans hone)
  exact ⟨front, last, hs, hsw⟩

theorem Tidy.wrap {w w' : Text} (hs : Tidy sep p s) (hw : sep ∉ w) (hedges : Edges p w) (hw' : sep ∉ w')
    (hedges' : Edges p w') : Tidy sep p (w ++ s ++ w') := by
  obtain ⟨first, rest, hsplit, hleft⟩ := split_append_left hw s
  have hws : Tidy sep p (w ++ s) := by
    intro t ht
    rw [hleft] at ht
    obtain rfl | ht := List.mem_cons.mp ht
    · exact hedges.append (hs first (by simp [hsplit]))
    · exact hs t (by simp [hsplit, ht])
  obtain ⟨front, last, hsplit', hright⟩ := split_append_right hw' (w ++ s)
  intro t ht
  rw [hright] at ht
  obtain ht | ht := List.mem_append.mp ht
  · exact hws t (by simp [hsplit', ht])
  · rw [List.mem_singleton.mp ht]
    exact (hws last (by simp [hsplit'])).append hedges'

/-! ### A text between two words, and a text spelled rune by rune -/

theorem dropWhile_append_of_head {w : Text} (hne : w ≠ []) (hw : ∀ c ∈ w.head?, p c = false) :
    (w ++ s).dropWhile p = w ++ s := by
  obtain ⟨c, w, rfl⟩ := List.exists_cons_of_ne_nil hne
  exact List.dropWhile_cons_of_neg (by simp [hw c (by simp)])

theorem rdropWhile_append_of_last {w : Text} (hw : ∀ c ∈ w.getLast?, p c = false) :
    (w ++ s).rdropWhile p = w ++ s.rdropWhile p := by
  induction s using List.reverseRecOn with
  | nil =>
      rw [List.append_nil, List.rdropWhile_nil, List.append_nil]
      exact rdropWhile_eq_self.mpr hw
  | append_singleton s c ih =>
      rw [← List.append_assoc]
      by_cases hc : p c = true
      · rw [List.rdropWhile_concat_pos _ _ _ hc, List.rdropWhile_concat_pos _ _ _ hc, ih]
      · rw [List.rdropWhile_concat_neg _ _ _ hc, List.rdropWhile_concat_neg _ _ _ hc, List.append_assoc]

/-- Trimming takes no part of a text that begins and ends with runes it keeps. -/
theorem infix_trim_iff (hne : t ≠ []) (ht : Edges p t) : t <:+: trim p s ↔ t <:+: s := by
  constructor
  · intro h
    exact (h.trans (List.rdropWhile_prefix p _).isInfix).trans (List.dropWhile_suffix p).isInfix
  · rintro ⟨before, after, rfl⟩
    have hdrop : ∃ rest, (before ++ t ++ after).dropWhile p = rest ++ t ++ after := by
      rw [List.append_assoc, List.dropWhile_append]
      split
      · exact ⟨[], by rw [List.nil_append, dropWhile_append_of_head hne ht.1]⟩
      · exact ⟨_, (List.append_assoc ..).symm⟩
    obtain ⟨rest, hrest⟩ := hdrop
    have hlast : ∀ c ∈ (rest ++ t).getLast?, p c = false := by
      rw [List.getLast?_append_of_ne_nil _ hne]
      exact ht.2
    rw [trim, hrest, rdropWhile_append_of_last hlast]
    exact ⟨rest, _, rfl⟩

theorem trim_append_left {w : Text} (hne : w ≠ []) (hw : Edges p w) (hs : ∀ c ∈ s.head?, p c = false) :
    trim p (w ++ s) = w ++ trim p s := by
  rw [trim, dropWhile_append_of_head hne hw.1, rdropWhile_append_of_last hw.2, trim, dropWhile_eq_self.mpr hs]

theorem trim_append_right {w : Text} (hw : Edges p w) (hs : ∀ c ∈ s.getLast?, p c = false) :
    trim p (s ++ w) = trim p s ++ w := by
  have hdrop : (s ++ w).dropWhile p = s.dropWhile p ++ w := by
    rw [List.dropWhile_append]
    split
    · rename_i hnil
      rw [List.isEmpty_iff.mp hnil, dropWhile_eq_self.mpr hw.1, List.nil_append]
    · rfl
  have hlast : ∀ c ∈ (s.dropWhile p).getLast?, p c = false := by
    intro c hc
    refine hs c ?_
    obtain ⟨front, hfront⟩ := List.dropWhile_suffix p (l := s)
    rw [← hfront, List.getLast?_append, Option.mem_def.mp hc]
    rfl
  rw [trim, hdrop, rdropWhile_append_of_last hlast, rdropWhile_eq_self.mpr hw.2, trim, rdropWhile_eq_self.mpr hlast]

theorem join_cons_append (w t : Text) (rest : List Text) :
    join [sep] ((w ++ t) :: rest) = w ++ join [sep] (t :: rest) := by
  cases rest <;> simp [join, List.intercalate]

theorem join_concat_append (front : List Text) (t w : Text) :
    join [sep] (front ++ [t ++ w]) = join [sep] (front ++ [t]) ++ w := by
  induction front with
  | nil => simp [join, List.intercalate]
  | cons f front ih =>
      have hcons : ∀ last : Text, join [sep] (f :: (front ++ [last])) = f ++ sep :: join [sep] (front ++ [last]) := by
        intro last
        cases front <;> simp [join, List.intercalate]
      rw [List.cons_append, List.cons_append, hcons, hcons, ih]
      simp

theorem head_of_split {first : Text} {rest : List Text} (hsplit : split sep s = first :: rest) :
    ∀ c ∈ first.head?, c ∈ s.head? := by
  intro c hc
  rw [← join_split sep s, hsplit, ← List.append_nil first, join_cons_append, List.head?_append,
    Option.mem_def.mp hc]
  rfl

theorem last_of_split {front : List Text} {last : Text} (hsplit : split sep s = front ++ [last]) :
    ∀ c ∈ last.getLast?, c ∈ s.getLast? := by
  intro c hc
  rw [← join_split sep s, hsplit, ← List.nil_append last, join_concat_append, List.getLast?_append,
    Option.mem_def.mp hc]
  rfl

theorem retrim_append_left {w : Text} (hne : w ≠ []) (hmem : sep ∉ w) (hw : Edges p w)
    (hs : ∀ c ∈ s.head?, p c = false) : retrim sep p (w ++ s) = w ++ retrim sep p s := by
  obtain ⟨first, rest, hsplit, hleft⟩ := split_append_left hmem s
  have hfirst : ∀ c ∈ first.head?, p c = false := fun c hc => hs c (head_of_split hsplit c hc)
  rw [retrim, retrim, hleft, hsplit, List.map_cons, trim_append_left hne hw hfirst, join_cons_append, List.map_cons]

theorem retrim_append_right {w : Text} (hmem : sep ∉ w) (hw : Edges p w)
    (hs : ∀ c ∈ s.getLast?, p c = false) : retrim sep p (s ++ w) = retrim sep p s ++ w := by
  obtain ⟨front, last, hsplit, hright⟩ := split_append_right hmem s
  have hlast : ∀ c ∈ last.getLast?, p c = false := fun c hc => hs c (last_of_split hsplit c hc)
  rw [retrim, retrim, hright, hsplit, List.map_append, List.map_append, List.map_singleton, List.map_singleton,
    trim_append_right hw hlast, join_concat_append]

section Spelling

variable {q : Char → Bool} {f : Char → Text}

theorem split_flatMap (hsep : f sep = [sep]) (hother : ∀ c, c ≠ sep → sep ∉ f c) (s : Text) :
    split sep (s.flatMap f) = (split sep s).map (List.flatMap f) := by
  induction s with
  | nil => simp [split]
  | cons c s ih =>
      rw [List.flatMap_cons]
      by_cases hc : c = sep
      · rw [hc, hsep, ← List.nil_append ([sep] ++ _), List.singleton_append, split_append_sep, ih,
          ← List.nil_append (sep :: s), split_append_sep]
        simp [split]
      · obtain ⟨first, rest, hsplit, hleft⟩ := split_append_left (hother c hc) (s.flatMap f)
        have hcs : sep ∉ [c] := by simpa using Ne.symm hc
        obtain ⟨first', rest', hsplit', hleft'⟩ := split_append_left hcs s
        rw [List.singleton_append] at hleft'
        rw [hleft, hleft']
        rw [ih, hsplit'] at hsplit
        simp only [List.map_cons, List.cons.injEq] at hsplit
        simp [← hsplit.1, ← hsplit.2]

theorem join_flatMap (hsep : f sep = [sep]) (parts : List Text) :
    (join [sep] parts).flatMap f = join [sep] (parts.map (List.flatMap f)) := by
  induction parts with
  | nil => rfl
  | cons t parts ih =>
      cases parts with
      | nil => simp [join, List.intercalate]
      | cons u parts =>
          simp only [join, List.intercalate] at ih ⊢
          simp only [List.intersperse_cons_cons, List.flatten_cons, List.flatMap_append, ih, List.map_cons]
          simp [hsep]

/-- What trimming takes from a spelled text is what it takes from the text, where the spelling leaves the
runes to take as they are and begins and ends every other one with a rune to keep. -/
theorem trim_flatMap (htake : ∀ c, q c = true → f c = [c] ∧ p c = true)
    (hkeep : ∀ c, q c = false → f c ≠ [] ∧ Edges p (f c)) (s : Text) :
    trim p (s.flatMap f) = (trim q s).flatMap f := by
  have hdrop : (s.flatMap f).dropWhile p = (s.dropWhile q).flatMap f := by
    induction s with
    | nil => rfl
    | cons c s ih =>
        rw [List.flatMap_cons]
        cases hc : q c with
        | true =>
            rw [(htake c hc).1, List.singleton_append, List.dropWhile_cons_of_pos (htake c hc).2, ih,
              List.dropWhile_cons_of_pos hc]
        | false =>
            rw [dropWhile_append_of_head (hkeep c hc).1 (hkeep c hc).2.1, List.dropWhile_cons_of_neg (by simp [hc]),
              List.flatMap_cons]
  have hrdrop (t : Text) : (t.flatMap f).rdropWhile p = (t.rdropWhile q).flatMap f := by
    induction t using List.reverseRecOn with
    | nil => rfl
    | append_singleton t c ih =>
        rw [List.flatMap_append, List.flatMap_singleton]
        cases hc : q c with
        | true =>
            rw [(htake c hc).1, List.rdropWhile_concat_pos _ _ _ (htake c hc).2, ih,
              List.rdropWhile_concat_pos _ _ _ hc]
        | false =>
            rw [List.rdropWhile_concat_neg _ _ _ (by simp [hc]), List.flatMap_append, List.flatMap_singleton]
            refine rdropWhile_eq_self.mpr fun d hd => (hkeep c hc).2.2 d ?_
            obtain ⟨front, last, hlast⟩ := List.eq_nil_or_concat (f c) |>.resolve_left (hkeep c hc).1
            rw [hlast] at hd ⊢
            simpa using hd
  rw [trim, hdrop, hrdrop, trim]

theorem retrim_flatMap (hsep : f sep = [sep]) (hother : ∀ c, c ≠ sep → sep ∉ f c)
    (htake : ∀ c, q c = true → f c = [c] ∧ p c = true) (hkeep : ∀ c, q c = false → f c ≠ [] ∧ Edges p (f c))
    (s : Text) : retrim sep p (s.flatMap f) = (retrim sep q s).flatMap f := by
  rw [retrim, retrim, split_flatMap hsep hother, join_flatMap hsep, List.map_map, List.map_map]
  congr 1
  exact List.map_congr_left fun t _ => trim_flatMap htake hkeep t

end Spelling

/-! ### Fields at any of several runes -/

section FieldsFunc

variable {q : Char → Bool} {c : Char}

/-- `strings.FieldsFunc`. -/
def fieldsFunc (q : Char → Bool) (s : Text) : List Text := (s.splitOnP q).filter (· ≠ [])

theorem fieldsFunc_append_sep (hc : q c = true) (s t : Text) :
    fieldsFunc q (s ++ c :: t) = fieldsFunc q s ++ fieldsFunc q t := by
  rw [fieldsFunc, List.splitOnP_append_cons s t hc, List.filter_append]
  rfl

theorem fieldsFunc_eq_nil_of_forall (hs : ∀ c ∈ s, q c = true) : fieldsFunc q s = [] := by
  induction s with
  | nil => rfl
  | cons c s ih =>
      have hsplit := fieldsFunc_append_sep (hs c (by simp)) [] s
      rw [List.nil_append] at hsplit
      rw [hsplit, ih fun c' hc' => hs c' (by simp [hc'])]
      rfl

theorem fieldsFunc_append_left (hs : ∀ c ∈ s, q c = true) (t : Text) : fieldsFunc q (s ++ t) = fieldsFunc q t := by
  induction s with
  | nil => rfl
  | cons c s ih =>
      have hsplit := fieldsFunc_append_sep (hs c (by simp)) [] (s ++ t)
      rw [List.nil_append] at hsplit
      rw [List.cons_append, hsplit, ih fun c' hc' => hs c' (by simp [hc'])]
      rfl

theorem fieldsFunc_append_right (ht : ∀ c ∈ t, q c = true) (s : Text) : fieldsFunc q (s ++ t) = fieldsFunc q s := by
  cases t with
  | nil => rw [List.append_nil]
  | cons c t =>
      have hrest : fieldsFunc q t = [] := fieldsFunc_eq_nil_of_forall fun c' hc' => ht c' (by simp [hc'])
      rw [fieldsFunc_append_sep (ht c (by simp)), hrest, List.append_nil]

/-- What trimming takes belongs to no field. -/
theorem fieldsFunc_trim (hpq : ∀ c, p c = true → q c = true) (s : Text) : fieldsFunc q (trim p s) = fieldsFunc q s := by
  conv_rhs =>
    rw [← List.takeWhile_append_dropWhile (p := p) (l := s),
      fieldsFunc_append_left fun c hc => hpq c (List.mem_takeWhile_imp hc),
      ← List.rdropWhile_append_rtakeWhile (p := p) (l := s.dropWhile p),
      fieldsFunc_append_right fun c hc => hpq c (List.mem_rtakeWhile_imp hc)]
  rfl

/-- A change of runes that keeps the runes of the fields and keeps which ones separate keeps the fields. -/
theorem fieldsFunc_map {f : Char → Char} (h : ∀ c ∈ s, q (f c) = p c ∧ (p c = false → f c = c)) :
    fieldsFunc q (s.map f) = fieldsFunc p s := by
  have hsplit : (s.map f).splitOnP q = s.splitOnP p := by
    induction s with
    | nil => rfl
    | cons c s ih =>
        obtain ⟨⟨hq, hf⟩, hs⟩ := List.forall_mem_cons.mp h
        rw [List.map_cons, List.splitOnP_cons_eq_if_modifyHead, List.splitOnP_cons_eq_if_modifyHead, ih hs, hq]
        by_cases hc : p c = true
        · rw [if_pos hc, if_pos hc]
        · rw [if_neg hc, if_neg hc, hf (by simpa using hc)]
  rw [fieldsFunc, hsplit]
  rfl

theorem fieldsFunc_congr (h : ∀ c ∈ s, q c = p c) : fieldsFunc q s = fieldsFunc p s := by
  have hmap := fieldsFunc_map (f := id) fun c hc => ⟨h c hc, fun _ => rfl⟩
  rwa [List.map_id] at hmap

theorem ne_nil_of_mem_fieldsFunc (ht : t ∈ fieldsFunc q s) : t ≠ [] := by
  simpa using (List.mem_filter.mp ht).2

theorem exists_mem_splitOnP : (∃ t ∈ s.splitOnP q, c ∈ t) ↔ c ∈ s ∧ q c = false := by
  induction s with
  | nil => simp [List.splitOnP_nil]
  | cons d s ih =>
      rw [List.splitOnP_cons_eq_if_modifyHead]
      by_cases hd : q d = true
      · rw [if_pos hd]
        constructor
        · rintro ⟨t, ht, hc⟩
          obtain rfl | ht := List.mem_cons.mp ht
          · cases hc
          · obtain ⟨hmem, hq⟩ := ih.mp ⟨t, ht, hc⟩
            exact ⟨List.mem_cons_of_mem d hmem, hq⟩
        · rintro ⟨hmem, hq⟩
          obtain rfl | hmem := List.mem_cons.mp hmem
          · rw [hd] at hq
            cases hq
          · obtain ⟨t, ht, hc⟩ := ih.mpr ⟨hmem, hq⟩
            exact ⟨t, List.mem_cons_of_mem _ ht, hc⟩
      · obtain ⟨first, rest, hsplit⟩ := List.exists_cons_of_ne_nil (List.splitOnP_ne_nil q s)
        rw [hsplit] at ih
        rw [if_neg hd, hsplit, List.modifyHead_cons]
        simp only [List.mem_cons, exists_eq_or_imp] at ih ⊢
        rw [or_assoc, ih, or_and_right]
        have hd' : q d = false := by simpa using hd
        constructor
        · rintro (rfl | h)
          · exact .inl ⟨rfl, hd'⟩
          · exact .inr h
        · rintro (⟨rfl, -⟩ | h)
          · exact .inl rfl
          · exact .inr h

/-- The runes of the fields are the runes that do not separate. -/
theorem exists_mem_fieldsFunc : (∃ t ∈ fieldsFunc q s, c ∈ t) ↔ c ∈ s ∧ q c = false := by
  rw [← exists_mem_splitOnP]
  constructor
  · rintro ⟨t, ht, hc⟩
    exact ⟨t, (List.mem_filter.mp ht).1, hc⟩
  · rintro ⟨t, ht, hc⟩
    exact ⟨t, List.mem_filter.mpr ⟨ht, by simpa using List.ne_nil_of_mem hc⟩, hc⟩

end FieldsFunc

end GoText
