import GlitchCore.Routing.Steps

/-!
# A tier's steps against the two planes

`Tier.reference` says what a tier is for, with names and addresses as two planes: a block of either
plane beats direct and proxy, unless a more specific entry of its own plane comes first. The steps
compute exactly that. The argument goes through `entryOutcome`, the outcome of the run that holds an
entry once a flow matches it: guards turn it into a block when the other plane's first match is one.

A flow is given by the entries that match it.
-/

namespace GlitchCore

def Entry.isBlock (e : Entry) : Bool := e.target == .block

/-- The two-plane reference: `n` and `a` are the first matching entries of the name plane and of the
address plane. -/
def Tier.reference (t : Tier) (m : Entry → Bool) : Option Target :=
  let n := (inPlane t.entries .name).find? m
  let a := (inPlane t.entries .address).find? m
  if (inPlane t.entries .app).any fun e => e.isBlock && m e then some .block
  else if n.any Entry.isBlock || a.any Entry.isBlock then some .block
  else
    match t.entries.find? fun e => some e == n || some e == a with
    | some first => some first.target
    | none => ((inPlane t.entries .app).find? m).map Entry.target

variable {m : Entry → Bool}

/-! ### Guards -/

theorem Step.eval_eq_none {s : Step} (hmiss : s.entries.any m = false) : s.eval m = none := by
  rw [Step.eval, if_neg]
  simp [hmiss]

theorem Step.eval_paired {s : Step} (halso : s.also ≠ []) (hrun : s.entries.any m = true) :
    s.eval m = if s.also.any m then some s.target else none := by
  simp only [Step.eval, hrun, halso, false_or, true_and]

/-- One round appends the entry to the decision list, whether it opens a step or joins the last one. -/
theorem addGuard_eval {run others : List Entry} {target : Target} {steps : List Step} (e : Entry)
    (hpaired : Paired run others steps) (hrun : run.any m = true) :
    (addGuard run target steps e).findSome? (Step.eval m)
      = (steps.findSome? (Step.eval m)).or (if m e then some (guardOutcome target e) else none) := by
  have hopen : Step.eval m ⟨run, [e], guardOutcome target e⟩
      = if m e then some (guardOutcome target e) else none := by
    rw [Step.eval_paired (by simp) hrun]
    simp
  rcases List.eq_nil_or_concat' steps with rfl | ⟨front, last, rfl⟩
  · rw [addGuard_nil, List.findSome?_singleton, hopen, List.findSome?_nil, Option.none_or]
  · obtain ⟨hentries, halso, -⟩ := hpaired last (by simp)
    rw [addGuard_concat]
    by_cases hsame : last.target = guardOutcome target e
    · have hjoined : Step.eval m { last with also := last.also ++ [e] }
          = if last.also.any m || m e then some last.target else none := by
        rw [Step.eval_paired (by simp) (by rw [hentries]; exact hrun)]
        simp
      rw [if_pos hsame, List.findSome?_append, List.findSome?_append, Option.or_assoc,
        List.findSome?_singleton, List.findSome?_singleton, hjoined,
        Step.eval_paired halso (by rw [hentries]; exact hrun)]
      congr 1
      cases last.also.any m <;> cases m e <;> simp [hsame]
    · rw [if_neg hsame, List.findSome?_append, List.findSome?_singleton, hopen]

theorem foldl_addGuard_eval {run others : List Entry} {target : Target} (added : List Entry)
    {steps : List Step} (hadded : ∀ e ∈ added, e ∈ others) (hpaired : Paired run others steps)
    (hrun : run.any m = true) :
    (added.foldl (addGuard run target) steps).findSome? (Step.eval m)
      = (steps.findSome? (Step.eval m)).or ((added.find? m).map (guardOutcome target)) := by
  induction added generalizing steps with
  | nil => simp
  | cons e added ih =>
      have hrest : ∀ x ∈ added, x ∈ others := fun x hx => hadded x (by simp [hx])
      rw [List.foldl_cons, ih hrest (paired_addGuard (hadded e (by simp)) hpaired), addGuard_eval e hpaired hrun,
        Option.or_assoc]
      congr 1
      cases hm : m e <;> simp [hm]

theorem guardSteps_eval {run : List Entry} (target : Target) (others : List Entry) (hrun : run.any m = true) :
    (guardSteps run target others).findSome? (Step.eval m)
      = ((upToLastBlock others).find? m).map (guardOutcome target) := by
  rw [guardSteps, foldl_addGuard_eval _ (fun _ => upToLastBlock_subset) (paired_nil run others) hrun,
    List.findSome?_nil, Option.none_or]

/-- Cutting the other plane after its last block loses no block. -/
theorem find?_upToLastBlock (others : List Entry) (target : Target) :
    (((upToLastBlock others).find? m).map (guardOutcome target)).getD target
      = if (others.find? m).any Entry.isBlock then .block else target := by
  have hsplit : upToLastBlock others ++ others.rtakeWhile (fun e => e.target != .block) = others :=
    List.rdropWhile_append_rtakeWhile
  have htail : ∀ e ∈ others.rtakeWhile (fun e => e.target != .block), e.isBlock = false := by
    intro e he
    simpa [Entry.isBlock] using List.mem_rtakeWhile_imp he
  conv_rhs => rw [← hsplit]
  rw [List.find?_append]
  cases hfront : (upToLastBlock others).find? m with
  | some e => simp [guardOutcome, Entry.isBlock]
  | none =>
      cases hback : (others.rtakeWhile fun e => e.target != .block).find? m with
      | none => simp
      | some e => simp [htail e (List.mem_of_find?_eq_some hback)]

/-! ### Runs -/

/-- The outcome of the run an entry belongs to, for a flow that matches the run. -/
def entryOutcome (entries : List Entry) (m : Entry → Bool) (e : Entry) : Target :=
  match e.plane.other with
  | some plane => if ((inPlane entries plane).find? m).any Entry.isBlock then .block else e.target
  | none => e.target

theorem entryOutcome_congr {entries : List Entry} {e e' : Entry} (hsame : sameRun e e' = true) :
    entryOutcome entries m e = entryOutcome entries m e' := by
  obtain ⟨hplane, htarget⟩ := sameRun_iff.mp hsame
  simp only [entryOutcome, hplane, htarget]

theorem guardSteps_eval_of_miss {run : List Entry} {target : Target} (others : List Entry)
    (hmiss : run.any m = false) : (guardSteps run target others).findSome? (Step.eval m) = none := by
  rw [List.findSome?_eq_none_iff]
  intro s hs
  exact Step.eval_eq_none (by rw [(paired_guardSteps _ _ _ s hs).1]; exact hmiss)

theorem runSteps_eval_of_miss {entries run : List Entry} (hmiss : run.any m = false) :
    (runSteps entries run).findSome? (Step.eval m) = none := by
  cases run with
  | nil => rfl
  | cons e rest =>
      have hplain : Step.eval m ⟨e :: rest, [], e.target⟩ = none := Step.eval_eq_none hmiss
      simp only [runSteps, List.findSome?_append, List.findSome?_singleton, hplain, Option.or_none]
      split
      · split
        · exact guardSteps_eval_of_miss _ hmiss
        · rfl
      · rfl

theorem runSteps_eval_of_match {entries run : List Entry} {e : Entry} (hrun : IsRun run) (he : e ∈ run)
    (hmatch : run.any m = true) :
    (runSteps entries run).findSome? (Step.eval m) = some (entryOutcome entries m e) := by
  cases run with
  | nil => simp at he
  | cons head rest =>
      rw [entryOutcome_congr (hrun e he head (by simp))]
      have hplain : Step.eval m ⟨head :: rest, [], head.target⟩ = some head.target := by
        simp only [Step.eval, hmatch, true_or, and_self, if_true]
      simp only [runSteps, List.findSome?_append, List.findSome?_singleton, hplain, entryOutcome]
      cases hother : head.plane.other with
      | none => rfl
      | some plane =>
          by_cases hblock : head.target = .block
          · simp [hblock]
          · have hcut := find?_upToLastBlock (m := m) (inPlane entries plane) head.target
            simp only [if_pos hblock, guardSteps_eval _ _ hmatch, ← hcut]
            cases (upToLastBlock (inPlane entries plane)).find? m <;> rfl

/-- First match over the steps of a list of runs is first match over its entries, each with the
outcome its run gives it. -/
theorem flatMap_runSteps_eval (entries : List Entry) (runs : List (List Entry)) (hruns : ∀ r ∈ runs, IsRun r) :
    (runs.flatMap (runSteps entries)).findSome? (Step.eval m)
      = (runs.flatten.find? m).map (entryOutcome entries m) := by
  induction runs with
  | nil => rfl
  | cons run runs ih =>
      rw [List.flatMap_cons, List.findSome?_append, List.flatten_cons, List.find?_append,
        ih fun r hr => hruns r (by simp [hr])]
      cases hfound : run.find? m with
      | none =>
          have hmiss : run.any m = false := by
            rw [List.any_eq_false]
            exact List.find?_eq_none.mp hfound
          rw [runSteps_eval_of_miss hmiss, Option.none_or, Option.none_or]
      | some e =>
          have hmatch : run.any m = true :=
            List.any_eq_true.mpr ⟨e, List.mem_of_find?_eq_some hfound, List.find?_some hfound⟩
          rw [runSteps_eval_of_match (hruns run (by simp)) (List.mem_of_find?_eq_some hfound) hmatch]
          rfl

theorem Tier.outcome_eq_entryOutcome (t : Tier) :
    t.outcome m = (t.entries.find? m).map (entryOutcome t.entries m) := by
  rw [Tier.outcome, Tier.steps, flatMap_runSteps_eval _ _ fun _ => isRun_of_mem_splitBy, List.flatten_splitBy]

/-! ### Sections of the evaluation order -/

def Entry.evalSection (e : Entry) : Int :=
  match e.plane with
  | .app => if e.target = .block then 0 else 2
  | _ => 1

theorem Entry.evaluationKey_eq (e : Entry) : ∃ rest, e.evaluationKey = e.evalSection :: rest := by
  obtain ⟨kind, value, target⟩ := e
  cases kind <;> exact ⟨_, rfl⟩

theorem Tier.entries_pairwise (t : Tier) : t.entries.Pairwise fun a b => a.evalSection ≤ b.evalSection := by
  refine t.entries_sorted.imp fun {a b} hle => ?_
  obtain ⟨resta, ha⟩ := a.evaluationKey_eq
  obtain ⟨restb, hb⟩ := b.evaluationKey_eq
  rw [ha, hb] at hle
  rcases lt_or_eq_of_le hle with hlt | heq
  · exact List.head_le_of_lt hlt
  · exact le_of_eq (List.cons.inj heq).1

/-- What stands in front of the first match matches nothing, and what stands behind it is in no
earlier section. -/
theorem Tier.find?_entries {t : Tier} {e : Entry} (hfound : t.entries.find? m = some e) :
    m e = true ∧ e ∈ t.entries ∧ ∀ e' ∈ t.entries, m e' = true → e.evalSection ≤ e'.evalSection := by
  obtain ⟨hm, front, back, hsplit, hfront⟩ := List.find?_eq_some_iff_append.mp hfound
  refine ⟨hm, by simp [hsplit], fun e' he' hm' => ?_⟩
  have hpairwise := t.entries_pairwise
  rw [hsplit] at he' hpairwise
  rcases List.mem_append.mp he' with hin | hin
  · simpa [hm'] using hfront e' hin
  · rcases List.mem_cons.mp hin with rfl | hin
    · exact le_refl _
    · exact (List.pairwise_cons.mp (List.pairwise_append.mp hpairwise).2.1).1 e' hin

theorem Entry.evalSection_app {e : Entry} (happ : e.plane = .app) :
    e.evalSection = if e.target = .block then 0 else 2 := by
  simp only [Entry.evalSection, happ]

theorem Entry.evalSection_site {e : Entry} (hsite : e.plane ≠ .app) : e.evalSection = 1 := by
  unfold Entry.evalSection
  split
  · rename_i happ
    exact absurd happ hsite
  · rfl

theorem find?_inPlane_of_first {entries : List Entry} {e : Entry} (hfound : entries.find? m = some e) :
    (inPlane entries e.plane).find? m = some e := by
  obtain ⟨hm, front, back, hsplit, hfront⟩ := List.find?_eq_some_iff_append.mp hfound
  refine List.find?_eq_some_iff_append.mpr
    ⟨hm, inPlane front e.plane, inPlane back e.plane, ?_, fun x hx => hfront x (List.mem_filter.mp hx).1⟩
  simp only [inPlane, hsplit, List.filter_append, List.filter_cons, decide_true, if_true]

theorem find?_either_of_first {entries : List Entry} {e : Entry} {n a : Option Entry}
    (hfound : entries.find? m = some e) (hn : ∀ x, n = some x → m x = true) (ha : ∀ x, a = some x → m x = true)
    (heither : n = some e ∨ a = some e) :
    entries.find? (fun x => some x == n || some x == a) = some e := by
  obtain ⟨hm, front, back, hsplit, hfront⟩ := List.find?_eq_some_iff_append.mp hfound
  refine List.find?_eq_some_iff_append.mpr ⟨?_, front, back, hsplit, fun x hx => ?_⟩
  · rcases heither with h | h <;> simp [h]
  · have hmiss := hfront x hx
    by_contra hpick
    simp only [Bool.not_eq_true', Bool.not_eq_false, Bool.or_eq_true, beq_iff_eq] at hpick hmiss
    rcases hpick with h | h
    · exact absurd (hn x h.symm) (by simp [hmiss])
    · exact absurd (ha x h.symm) (by simp [hmiss])

theorem Tier.reference_none {t : Tier} (hfound : t.entries.find? m = none) : t.reference m = none := by
  have hmiss := List.find?_eq_none.mp hfound
  have hnone : ∀ plane, (inPlane t.entries plane).find? m = none := fun plane =>
    List.find?_eq_none.mpr fun x hx => hmiss x (List.mem_filter.mp hx).1
  have happ : ((inPlane t.entries .app).any fun e => e.isBlock && m e) = false := by
    simp only [List.any_eq_false, Bool.and_eq_true, not_and]
    exact fun x hx _ => hmiss x (List.mem_filter.mp hx).1
  have hpick : t.entries.find? (fun e => some e == none || some e == none) = none := by
    simp [List.find?_eq_none]
  simp only [Tier.reference, hnone, happ, hpick]
  rfl

/-- An app block that matches puts the first match into the leading section: it is an app block too. -/
theorem Tier.first_of_appBlock {t : Tier} {e : Entry} (hfound : t.entries.find? m = some e)
    (hblock : ((inPlane t.entries .app).any fun e => e.isBlock && m e) = true) :
    e.plane = .app ∧ e.target = .block := by
  obtain ⟨_, _, hfirst⟩ := t.find?_entries hfound
  obtain ⟨b, hb, hbm⟩ := List.any_eq_true.mp hblock
  simp only [Bool.and_eq_true, Entry.isBlock, beq_iff_eq] at hbm
  obtain ⟨hbmem, hbapp⟩ := List.mem_filter.mp hb
  have hle := hfirst b hbmem hbm.2
  rw [Entry.evalSection_app (of_decide_eq_true hbapp), if_pos hbm.1] at hle
  have happ : e.plane = .app := by
    by_contra hne
    rw [Entry.evalSection_site hne] at hle
    omega
  refine ⟨happ, ?_⟩
  by_contra hne
  rw [Entry.evalSection_app happ, if_neg hne] at hle
  omega

/-- When the first match is an app exception, no entry of a site plane matches. -/
theorem Tier.find?_site_of_first_app {t : Tier} {e : Entry} (hfound : t.entries.find? m = some e)
    (happ : e.plane = .app) (hne : e.target ≠ .block) {plane : Plane} (hsite : plane ≠ .app) :
    (inPlane t.entries plane).find? m = none := by
  obtain ⟨_, _, hfirst⟩ := t.find?_entries hfound
  rw [List.find?_eq_none]
  intro x hx hxm
  obtain ⟨hxmem, hxplane⟩ := List.mem_filter.mp hx
  have hle := hfirst x hxmem hxm
  have hxsite : x.plane ≠ .app := by
    rw [of_decide_eq_true hxplane]
    exact hsite
  rw [Entry.evalSection_site hxsite, Entry.evalSection_app happ, if_neg hne] at hle
  omega

theorem Tier.reference_of_first_app {t : Tier} {e : Entry} (hfound : t.entries.find? m = some e)
    (happ : e.plane = .app) : t.reference m = some e.target := by
  obtain ⟨hm, hmem, _⟩ := t.find?_entries hfound
  by_cases htarget : e.target = .block
  · have hblock : ((inPlane t.entries .app).any fun e => e.isBlock && m e) = true :=
      List.any_eq_true.mpr
        ⟨e, List.mem_filter.mpr ⟨hmem, by simp [happ]⟩, by simp [Entry.isBlock, htarget, hm]⟩
    simp only [Tier.reference, hblock, if_true, htarget]
  · have hblock : ((inPlane t.entries .app).any fun e => e.isBlock && m e) = false := by
      by_contra hany
      exact htarget (t.first_of_appBlock hfound (by simpa using hany)).2
    have hname := t.find?_site_of_first_app hfound happ htarget (show Plane.name ≠ .app by simp)
    have haddress := t.find?_site_of_first_app hfound happ htarget (show Plane.address ≠ .app by simp)
    have hpick : t.entries.find? (fun e => some e == none || some e == none) = none := by
      simp [List.find?_eq_none]
    have hplane := find?_inPlane_of_first hfound
    rw [happ] at hplane
    simp only [Tier.reference, hblock, hname, haddress, hpick, hplane]
    rfl

theorem Tier.reference_of_first_site {t : Tier} {e : Entry} (hfound : t.entries.find? m = some e)
    (hsite : e.plane ≠ .app) :
    t.reference m
      = if (((inPlane t.entries .name).find? m).any Entry.isBlock
          || ((inPlane t.entries .address).find? m).any Entry.isBlock) = true then some .block
        else some e.target := by
  have hblock : ((inPlane t.entries .app).any fun e => e.isBlock && m e) = false := by
    by_contra hany
    exact hsite (t.first_of_appBlock hfound (by simpa using hany)).1
  have heither : (inPlane t.entries .name).find? m = some e ∨ (inPlane t.entries .address).find? m = some e := by
    have hplane := find?_inPlane_of_first hfound
    cases hcase : e.plane with
    | app => exact absurd hcase hsite
    | name => exact .inl (hcase ▸ hplane)
    | address => exact .inr (hcase ▸ hplane)
  have hpick := find?_either_of_first hfound (fun _ => List.find?_some) (fun _ => List.find?_some) heither
  simp only [Tier.reference, hblock, hpick]
  rfl

theorem Tier.entryOutcome_eq_reference {t : Tier} {e : Entry} (hfound : t.entries.find? m = some e) :
    some (entryOutcome t.entries m e) = t.reference m := by
  have hplane := find?_inPlane_of_first hfound
  cases hcase : e.plane with
  | app =>
      rw [t.reference_of_first_app hfound hcase]
      simp only [entryOutcome, hcase, Plane.other]
  | name =>
      rw [t.reference_of_first_site hfound (by simp [hcase])]
      rw [hcase] at hplane
      simp only [entryOutcome, hcase, Plane.other, hplane, Option.any_some]
      cases htarget : e.target <;> simp [Entry.isBlock, htarget, apply_ite some]
  | address =>
      rw [t.reference_of_first_site hfound (by simp [hcase])]
      rw [hcase] at hplane
      simp only [entryOutcome, hcase, Plane.other, hplane, Option.any_some]
      cases htarget : e.target <;> simp [Entry.isBlock, htarget, apply_ite some]

/-- **First match over a tier's steps is the two-plane reference.** -/
theorem Tier.outcome_eq_reference (t : Tier) (m : Entry → Bool) : t.outcome m = t.reference m := by
  rw [Tier.outcome_eq_entryOutcome]
  cases hfound : t.entries.find? m with
  | none => rw [t.reference_none hfound, Option.map_none]
  | some e => rw [Option.map_some, t.entryOutcome_eq_reference hfound]

end GlitchCore
