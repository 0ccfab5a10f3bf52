import GlitchCore.Base.FirstMatch
import GlitchCore.Routing.Tier

/-!
# The shape of a tier's steps

A step is either a run of the ordered entries, all of one plane and outcome, or a guard that pairs a
run with entries of the other plane. Both engines lay out their rules by this shape: one field for
each plane on one of them, a line for each entry or a pair of operands on the other. The blocks of a
tier are its unpaired block steps, whatever stands in front of them.

A flow is given by the entries that match it.
-/

namespace GlitchCore

def Step.eval (m : Entry → Bool) (s : Step) : Option Target :=
  if s.entries.any m ∧ (s.also = [] ∨ s.also.any m) then some s.target else none

def Tier.outcome (t : Tier) (m : Entry → Bool) : Option Target := t.steps.findSome? (Step.eval m)

/-- The tier's blocks alone, in the order the tier meets them. -/
def blockSteps (steps : List Step) : List Step := steps.filter fun s => s.target = .block ∧ s.also = []

theorem mem_blockSteps {steps : List Step} {s : Step} :
    s ∈ blockSteps steps ↔ s ∈ steps ∧ s.target = .block ∧ s.also = [] := by
  simp [blockSteps]

variable {m : Entry → Bool}

theorem Step.eval_map_target (s : Step) : ((s.eval m).map fun _ => s.target) = s.eval m := by
  unfold Step.eval
  split <;> rfl

/-! ### Guards -/

/-- The shape `addGuard` keeps: each guard pairs the whole run with some of the other plane's entries. -/
def Paired (run others : List Entry) (steps : List Step) : Prop :=
  ∀ s ∈ steps, s.entries = run ∧ s.also ≠ [] ∧ ∀ e ∈ s.also, e ∈ others

theorem paired_nil (run others : List Entry) : Paired run others [] := by simp [Paired]

theorem addGuard_nil (run : List Entry) (target : Target) (e : Entry) :
    addGuard run target [] e = [⟨run, [e], guardOutcome target e⟩] := rfl

theorem addGuard_concat (run : List Entry) (target : Target) (front : List Step) (last : Step) (e : Entry) :
    addGuard run target (front ++ [last]) e
      = if last.target = guardOutcome target e then front ++ [{ last with also := last.also ++ [e] }]
        else front ++ [last] ++ [⟨run, [e], guardOutcome target e⟩] := by
  simp only [addGuard, List.getLast?_append, List.getLast?_singleton, Option.some_or, List.dropLast_concat]

theorem paired_addGuard {run others : List Entry} {target : Target} {steps : List Step} {e : Entry}
    (he : e ∈ others) (hpaired : Paired run others steps) :
    Paired run others (addGuard run target steps e) := by
  rcases List.eq_nil_or_concat' steps with rfl | ⟨front, last, rfl⟩
  · simpa [Paired, addGuard_nil] using he
  · obtain ⟨hentries, -, hothers⟩ := hpaired last (by simp)
    have hfront : Paired run others front := fun s hs => hpaired s (by simp [hs])
    rw [addGuard_concat]
    intro s hs
    split at hs
    · rcases List.mem_append.mp hs with hs | hs
      · exact hfront s hs
      · rw [List.mem_singleton.mp hs]
        refine ⟨hentries, by simp, fun x hx => ?_⟩
        rcases List.mem_append.mp hx with hx | hx
        · exact hothers x hx
        · exact List.mem_singleton.mp hx ▸ he
    · rcases List.mem_append.mp hs with hs | hs
      · exact hpaired s hs
      · rw [List.mem_singleton.mp hs]
        exact ⟨rfl, by simp, fun x hx => List.mem_singleton.mp hx ▸ he⟩

theorem paired_foldl_addGuard {run others : List Entry} {target : Target} (added : List Entry)
    {steps : List Step} (hadded : ∀ e ∈ added, e ∈ others) (hpaired : Paired run others steps) :
    Paired run others (added.foldl (addGuard run target) steps) := by
  induction added generalizing steps with
  | nil => exact hpaired
  | cons e added ih =>
      exact ih (fun x hx => hadded x (by simp [hx])) (paired_addGuard (hadded e (by simp)) hpaired)

theorem upToLastBlock_subset {others : List Entry} {e : Entry} (he : e ∈ upToLastBlock others) : e ∈ others :=
  (List.rdropWhile_prefix _ _).subset he

theorem paired_guardSteps (run : List Entry) (target : Target) (others : List Entry) :
    Paired run others (guardSteps run target others) :=
  paired_foldl_addGuard _ (fun _ => upToLastBlock_subset) (paired_nil run others)

theorem guardOutcome_addGuard {run others : List Entry} {target : Target} {steps : List Step} {e : Entry}
    (he : e ∈ others) (hsteps : ∀ s ∈ steps, ∃ x ∈ others, s.target = guardOutcome target x) :
    ∀ s ∈ addGuard run target steps e, ∃ x ∈ others, s.target = guardOutcome target x := by
  rcases List.eq_nil_or_concat' steps with rfl | ⟨front, last, rfl⟩
  · simpa [addGuard_nil] using ⟨e, he, rfl⟩
  · rw [addGuard_concat]
    intro s hs
    split at hs
    · rcases List.mem_append.mp hs with hs | hs
      · exact hsteps s (by simp [hs])
      · rw [List.mem_singleton.mp hs]
        exact hsteps last (by simp)
    · rcases List.mem_append.mp hs with hs | hs
      · exact hsteps s hs
      · exact ⟨e, he, by rw [List.mem_singleton.mp hs]⟩

theorem guardOutcome_guardSteps (run : List Entry) (target : Target) (others : List Entry) :
    ∀ s ∈ guardSteps run target others, ∃ x ∈ others, s.target = guardOutcome target x := by
  have hrun : ∀ (added : List Entry) (steps : List Step), (∀ e ∈ added, e ∈ others) →
      (∀ s ∈ steps, ∃ x ∈ others, s.target = guardOutcome target x) →
      ∀ s ∈ added.foldl (addGuard run target) steps, ∃ x ∈ others, s.target = guardOutcome target x := by
    intro added
    induction added with
    | nil => exact fun steps _ hsteps => hsteps
    | cons e added ih =>
        intro steps hadded hsteps
        exact ih _ (fun x hx => hadded x (by simp [hx])) (guardOutcome_addGuard (hadded e (by simp)) hsteps)
  exact hrun _ [] (fun _ => upToLastBlock_subset) (by simp)

/-! ### Runs -/

theorem sameRun_iff {a b : Entry} : sameRun a b = true ↔ a.plane = b.plane ∧ a.target = b.target := by
  simp [sameRun]

def IsRun (run : List Entry) : Prop := ∀ e ∈ run, ∀ e' ∈ run, sameRun e e' = true

theorem isRun_of_mem_splitBy {entries run : List Entry} (hmem : run ∈ entries.splitBy sameRun) : IsRun run := by
  have htrans : IsTrans Entry fun a b => sameRun a b = true :=
    ⟨fun a b c hab hbc => sameRun_iff.mpr ⟨(sameRun_iff.mp hab).1.trans (sameRun_iff.mp hbc).1,
      (sameRun_iff.mp hab).2.trans (sameRun_iff.mp hbc).2⟩⟩
  have hsymm : Std.Symm fun a b : Entry => sameRun a b = true :=
    ⟨fun a b h => sameRun_iff.mpr ⟨(sameRun_iff.mp h).1.symm, (sameRun_iff.mp h).2.symm⟩⟩
  have hpair : run.Pairwise fun a b => sameRun a b = true := (List.isChain_of_mem_splitBy hmem).pairwise
  exact hpair.forall_of_forall fun e _ => sameRun_iff.mpr ⟨rfl, rfl⟩

theorem mem_entries_of_mem_splitBy {entries run : List Entry} {e : Entry}
    (hmem : run ∈ entries.splitBy sameRun) (he : e ∈ run) : e ∈ entries := by
  rw [← List.flatten_splitBy sameRun entries]
  exact List.mem_flatten.mpr ⟨run, hmem, he⟩

theorem mem_inPlane {entries : List Entry} {plane : Plane} {e : Entry} :
    e ∈ inPlane entries plane ↔ e ∈ entries ∧ e.plane = plane := by
  simp [inPlane]

/-- The steps of a run: the run itself, and in front of it guards that pair it with the other plane. -/
theorem mem_runSteps {entries run : List Entry} {head : Entry} {rest : List Entry} {s : Step}
    (hrun : run = head :: rest) (hs : s ∈ runSteps entries run) :
    s = ⟨run, [], head.target⟩ ∨
      s.entries = run ∧ s.also ≠ [] ∧ ∀ e ∈ s.also, e ∈ entries ∧ head.plane.other = some e.plane := by
  subst hrun
  simp only [runSteps, List.mem_append, List.mem_singleton] at hs
  rcases hs with hs | hs
  · right
    split at hs
    · rename_i plane hother
      split at hs
      · obtain ⟨hentries, halso, hothers⟩ := paired_guardSteps _ _ _ s hs
        refine ⟨hentries, halso, fun e he => ?_⟩
        obtain ⟨hmem, hplane⟩ := mem_inPlane.mp (hothers e he)
        exact ⟨hmem, hplane ▸ hother⟩
      · simp at hs
    · simp at hs
  · exact .inl hs

/-! ### Steps of a tier -/

/-- What the engines rely on in a step. -/
structure Step.Shaped (entries : List Entry) (s : Step) : Prop where
  nonempty : s.entries ≠ []
  onePlane : ∃ plane, (∀ e ∈ s.entries, e.plane = plane) ∧ ∀ e ∈ s.also, plane.other = some e.plane
  mem : ∀ e ∈ s.entries ++ s.also, e ∈ entries
  target : s.also = [] → ∀ e ∈ s.entries, e.target = s.target

theorem Tier.steps_shaped {t : Tier} {s : Step} (hs : s ∈ t.steps) : s.Shaped t.entries := by
  obtain ⟨run, hmem, hs⟩ := List.mem_flatMap.mp hs
  have hrun := isRun_of_mem_splitBy hmem
  cases hcons : run with
  | nil => simp [runSteps, hcons] at hs
  | cons head rest =>
      have hhead : head ∈ run := by simp [hcons]
      have hplane : ∀ e ∈ run, e.plane = head.plane := fun e he => (sameRun_iff.mp (hrun e he head hhead)).1
      have htarget : ∀ e ∈ run, e.target = head.target := fun e he => (sameRun_iff.mp (hrun e he head hhead)).2
      have hentries : ∀ e ∈ run, e ∈ t.entries := fun e he => mem_entries_of_mem_splitBy hmem he
      rcases mem_runSteps hcons hs with rfl | ⟨rfl, halso, hothers⟩
      · exact ⟨by simp [hcons], ⟨head.plane, hplane, by simp⟩, by simpa using hentries, fun _ => htarget⟩
      · refine ⟨by simp [hcons], ⟨head.plane, hplane, fun e he => (hothers e he).2⟩, fun e he => ?_,
          fun hnil => absurd hnil halso⟩
        rcases List.mem_append.mp he with he | he
        · exact hentries e he
        · exact (hothers e he).1

/-- A step sends flows only where one of the tier's entries does. -/
theorem Tier.exists_entry_of_step {t : Tier} {s : Step} (hs : s ∈ t.steps) : ∃ e ∈ t.entries, e.target = s.target := by
  obtain ⟨run, hmem, hs⟩ := List.mem_flatMap.mp hs
  cases hcons : run with
  | nil => simp [runSteps, hcons] at hs
  | cons head rest =>
      have hhead : head ∈ t.entries := mem_entries_of_mem_splitBy hmem (by simp [hcons])
      subst hcons
      simp only [runSteps, List.mem_append, List.mem_singleton] at hs
      rcases hs with hs | rfl
      · split at hs
        · split at hs
          · obtain ⟨x, hx, htarget⟩ := guardOutcome_guardSteps _ _ _ s hs
            by_cases hblock : x.target = .block
            · refine ⟨x, (mem_inPlane.mp hx).1, ?_⟩
              rw [htarget, guardOutcome, if_pos hblock, hblock]
            · exact ⟨head, hhead, by rw [htarget, guardOutcome, if_neg hblock]⟩
          · simp at hs
        · simp at hs
      · exact ⟨head, hhead, rfl⟩

/-- A step holds every entry it is made of, so each entry has the unpaired step of its run. -/
theorem Tier.exists_step_of_entry {t : Tier} {e : Entry} (he : e ∈ t.entries) :
    ∃ s ∈ t.steps, s.also = [] ∧ s.target = e.target ∧ e ∈ s.entries := by
  rw [← List.flatten_splitBy sameRun t.entries] at he
  obtain ⟨run, hmem, he⟩ := List.mem_flatten.mp he
  have hrun := isRun_of_mem_splitBy hmem
  cases hcons : run with
  | nil => simp [hcons] at he
  | cons head rest =>
      have htarget := (sameRun_iff.mp (hrun head (by simp [hcons]) e he)).2
      refine ⟨⟨run, [], head.target⟩, List.mem_flatMap.mpr ⟨run, hmem, ?_⟩, rfl, htarget, he⟩
      simp [runSteps, hcons]

theorem Tier.outcome_congr {t : Tier} {m' : Entry → Bool} (hsame : ∀ e ∈ t.entries, m e = m' e) :
    t.outcome m = t.outcome m' := by
  refine FirstMatch.findSome?_congr fun s hs => ?_
  have hmem := (t.steps_shaped hs).mem
  have hentries : s.entries.any m = s.entries.any m' :=
    FirstMatch.any_congr_mem fun e he => hsame e (hmem e (by simp [he]))
  have halso : s.also.any m = s.also.any m' :=
    FirstMatch.any_congr_mem fun e he => hsame e (hmem e (by simp [he]))
  simp only [Step.eval, hentries, halso]

theorem Tier.outcome_eq_none {t : Tier} : t.outcome m = none ↔ t.entries.any m = false := by
  rw [Tier.outcome, List.findSome?_eq_none_iff, List.any_eq_false]
  constructor
  · intro hnone e he hm
    obtain ⟨s, hs, halso, -, hes⟩ := t.exists_step_of_entry he
    have hany : s.entries.any m = true := List.any_eq_true.mpr ⟨e, hes, hm⟩
    simpa [Step.eval, hany, halso] using hnone s hs
  · intro hmiss s hs
    have hany : s.entries.any m = false :=
      List.any_eq_false.mpr fun e he => hmiss e ((t.steps_shaped hs).mem e (by simp [he]))
    simp [Step.eval, hany]

theorem Tier.any_blockSteps (t : Tier) :
    ((blockSteps t.steps).any fun s => s.entries.any m)
      = t.entries.any fun e => decide (e.target = .block) && m e := by
  rw [Bool.eq_iff_iff]
  simp only [List.any_eq_true, mem_blockSteps, decide_eq_true_eq, Bool.and_eq_true]
  constructor
  · rintro ⟨s, ⟨hs, htarget, halso⟩, e, he, hm⟩
    have hshape := t.steps_shaped hs
    exact ⟨e, hshape.mem e (by simp [he]), (hshape.target halso e he).trans htarget, hm⟩
  · rintro ⟨e, he, htarget, hm⟩
    obtain ⟨s, hs, halso, hst, hes⟩ := t.exists_step_of_entry he
    exact ⟨s, ⟨hs, hst.trans htarget, halso⟩, e, hes, hm⟩

end GlitchCore
