import GlitchCore.Base.Regex

/-!
# Passes that put a mark in the place of texts

A pass walks a text and puts one mark in the place of some pieces of it; what it keeps stays in its order. When a later
pass has done the same, is there something new for the first one to find? `Redacts` lines the two texts up, `Clean` says
that nothing is to be found at any place of a text, and the rules below carry `Clean` across a pass: a place in what the
pass left is a place of the text it was given, or lies inside a mark.
-/

namespace Redaction

open GoText Regex

section Redacts

variable {mark : Text} {Cut Cut' : Option Char → Text → Text → Prop} {prev : Option Char} {x y w : Text}

/-- The second text is the first, which stands after `prev`, with some pieces replaced by the mark. `Cut` says of each
piece what stands before it, the piece and what follows. -/
inductive Redacts (mark : Text) (Cut : Option Char → Text → Text → Prop) : Option Char → Text → Text → Prop
  | nil {prev : Option Char} : Redacts mark Cut prev [] []
  | keep {prev : Option Char} {c : Char} {x y : Text} :
      Redacts mark Cut (some c) x y → Redacts mark Cut prev (c :: x) (c :: y)
  | cut {prev : Option Char} {piece x y : Text} : piece ≠ [] → Cut prev piece x → Redacts mark Cut piece.getLast? x y →
      Redacts mark Cut prev (piece ++ x) (mark ++ y)

theorem Redacts.mono (hcut : ∀ prev piece x, Cut prev piece x → Cut' prev piece x) (h : Redacts mark Cut prev x y) :
    Redacts mark Cut' prev x y := by
  induction h with
  | nil => exact .nil
  | keep _ ih => exact .keep ih
  | cut hne hc _ ih => exact .cut hne (hcut _ _ _ hc) ih

theorem Redacts.append (w : Text) (h : Redacts mark Cut (w.getLast?.or prev) x y) :
    Redacts mark Cut prev (w ++ x) (w ++ y) := by
  induction w generalizing prev with
  | nil => exact h
  | cons c w ih =>
      refine .keep (ih ?_)
      rw [getLast?_cons_eq_or, Option.or_assoc, Option.some_or] at h
      exact h

/-- A text without the mark's first rune was kept. -/
theorem Redacts.of_append {d : Char} (hmark : mark.head? = some d) (h : Redacts mark Cut prev x (w ++ y)) (hd : d ∉ w) :
    ∃ x', x = w ++ x' ∧ Redacts mark Cut (w.getLast?.or prev) x' y := by
  induction w generalizing prev x with
  | nil => exact ⟨x, rfl, h⟩
  | cons c w ih =>
      have hne : c ≠ d := fun hc => hd (hc ▸ List.mem_cons_self)
      rw [List.cons_append] at h
      generalize hout : c :: (w ++ y) = out at h
      cases h with
      | nil => cases hout
      | keep hrest =>
          obtain ⟨rfl, rfl⟩ := List.cons.inj hout
          obtain ⟨x', rfl, hx'⟩ := ih hrest fun hmem => hd (List.mem_cons_of_mem _ hmem)
          refine ⟨x', rfl, ?_⟩
          rw [getLast?_cons_eq_or, Option.or_assoc, Option.some_or]
          exact hx'
      | cut _ _ _ =>
          obtain ⟨marks, rfl⟩ := List.head?_eq_some_iff.mp hmark
          exact absurd (List.cons.inj hout).1 hne

/-- Where no piece starts the next rune is kept. -/
theorem Redacts.head?_eq (h : Redacts mark Cut prev x y) (hnone : ∀ piece rest, ¬ Cut prev piece rest) :
    y.head? = x.head? := by
  cases h with
  | nil => rfl
  | keep _ => rfl
  | cut _ hcut _ => exact absurd hcut (hnone _ _)

theorem Redacts.mem {c : Char} (h : Redacts mark Cut prev x y) (hc : c ∈ y) (hmark : c ∉ mark) : c ∈ x := by
  induction h with
  | nil => exact hc
  | keep _ ih =>
      obtain rfl | hc := List.mem_cons.mp hc
      · exact List.mem_cons_self
      · exact List.mem_cons_of_mem _ (ih hc)
  | cut _ _ _ ih =>
      obtain hc | hc := List.mem_append.mp hc
      · exact absurd hc hmark
      · exact List.mem_append_right _ (ih hc)

theorem Redacts.head?_any {f : Char → Bool} (h : Redacts mark Cut prev x y) (hmark : mark ≠ [])
    (hf : mark.head?.any f = false) (hx : x.head?.any f = false) : y.head?.any f = false := by
  cases h with
  | nil => rfl
  | keep _ => exact hx
  | cut _ _ _ =>
      rw [List.head?_append, Option.or_of_isSome (List.isSome_head?.mpr hmark)]
      exact hf

/-- The piece does not start inside a mark that is there already. -/
def Outside (mark : Text) (prev : Option Char) (piece rest : Text) : Prop :=
  ∀ u v, mark = u ++ v → u ≠ [] → v ≠ [] → prev = u.getLast? → ¬ v <+: piece ++ rest

theorem Redacts.rest_isPrefix (hcut : ∀ prev piece x, Cut prev piece x → Outside mark prev piece x)
    (h : Redacts mark Cut prev x y) {u v : Text} (hmark : mark = u ++ v) (hu : u = [] ∨ prev = u.getLast?)
    (hv : v <+: x) : v <+: y := by
  induction h generalizing u v with
  | nil => exact hv
  | @keep prev c x y _ ih =>
      cases v with
      | nil => exact List.nil_prefix
      | cons d v =>
          obtain ⟨rfl, htail⟩ := List.cons_prefix_cons.mp hv
          refine List.cons_prefix_cons.mpr ⟨rfl, ih (u := u ++ [d]) ?_ (.inr List.getLast?_concat.symm) htail⟩
          rw [hmark, List.append_assoc, List.singleton_append]
  | @cut prev piece x y hne hpiece _ _ =>
      by_cases hempty : u = []
      · rw [hempty, List.nil_append] at hmark
        rw [hmark]
        exact List.prefix_append _ _
      · obtain rfl | hne := eq_or_ne v []
        · exact List.nil_prefix
        · exact absurd hv (hcut _ _ _ hpiece u v hmark hempty hne (hu.resolve_left hempty))

/-- A mark that is there already stays. -/
theorem Redacts.mark_isPrefix (hcut : ∀ prev piece x, Cut prev piece x → Outside mark prev piece x)
    (h : Redacts mark Cut prev x y) (hmark : mark <+: x) : mark <+: y :=
  h.rest_isPrefix hcut rfl (.inl rfl) hmark

end Redacts

section Clean

variable {B : Option Char → Text → Prop} {prev : Option Char} {s w : Text}

/-- Nothing of a kind stands at any place of the text. -/
def Clean (B : Option Char → Text → Prop) : Option Char → Text → Prop
  | _, [] => True
  | prev, c :: s => ¬ B prev (c :: s) ∧ Clean B (some c) s

theorem Clean.of_append (h : Clean B prev (w ++ s)) : Clean B (w.getLast?.or prev) s := by
  induction w generalizing prev with
  | nil => exact h
  | cons c w ih =>
      rw [getLast?_cons_eq_or, Option.or_assoc, Option.some_or]
      exact ih h.2

theorem Clean.append (hw : ∀ u v, w = u ++ v → v ≠ [] → ¬ B (u.getLast?.or prev) (v ++ s))
    (hs : Clean B (w.getLast?.or prev) s) : Clean B prev (w ++ s) := by
  induction w generalizing prev with
  | nil => exact hs
  | cons c w ih =>
      refine ⟨hw [] (c :: w) rfl (List.cons_ne_nil c w), ih (fun u v huv hv => ?_) ?_⟩
      · have hplace := hw (c :: u) v (by rw [huv, List.cons_append]) hv
        rw [getLast?_cons_eq_or, Option.or_assoc, Option.some_or] at hplace
        exact hplace
      · rw [getLast?_cons_eq_or, Option.or_assoc, Option.some_or] at hs
        exact hs

end Clean

/-- How places are carried back across a pass: `Same` relates what stands before a place on the two sides, and what is
found in a text the pass left was in the text it was given. -/
structure Reflects (mark : Text) (Cut : Option Char → Text → Text → Prop)
    (Same : Option Char → Option Char → Text → Prop) (B : Option Char → Text → Prop) : Prop where
  same : ∀ prev x, Same prev prev x
  after : ∀ prev piece x, piece ≠ [] → Cut prev piece x → Same piece.getLast? mark.getLast? x
  inside : ∀ u v prev y, mark = u ++ v → v ≠ [] → ¬ B (u.getLast?.or prev) (v ++ y)
  back : ∀ prevX prevY x y, Same prevX prevY x → Redacts mark Cut prevX x y → B prevY y → B prevX x

section

variable {mark : Text} {Cut : Option Char → Text → Text → Prop} {Same : Option Char → Option Char → Text → Prop}
  {B : Option Char → Text → Prop} {prevX prevY prev : Option Char} {x y s : Text}

theorem Reflects.clean_mark (hreflects : Reflects mark Cut Same B) (hmark : mark ≠ []) {out : Text}
    (hout : Clean B mark.getLast? out) (prev : Option Char) : Clean B prev (mark ++ out) := by
  refine Clean.append (fun u v huv hv => hreflects.inside u v prev out huv hv) ?_
  rw [Option.or_of_isSome (List.getLast?_isSome.mpr hmark)]
  exact hout

/-- What is clean stays so across a pass. -/
theorem Reflects.clean (hreflects : Reflects mark Cut Same B) (hmark : mark ≠ []) (h : Redacts mark Cut prevX x y)
    (hsame : Same prevX prevY x) (hclean : Clean B prevX x) : Clean B prevY y := by
  induction h generalizing prevY with
  | nil => trivial
  | @keep prev c x y hrest ih =>
      exact ⟨fun hb => hclean.1 (hreflects.back _ _ _ _ hsame (.keep hrest) hb), ih (hreflects.same _ _) hclean.2⟩
  | @cut prev piece x y hne hcut hrest ih =>
      have htail := hclean.of_append
      rw [Option.or_of_isSome (List.getLast?_isSome.mpr hne)] at htail
      exact hreflects.clean_mark hmark (ih (hreflects.after _ _ _ hne hcut) htail) prevY

variable {e : Expr} {f : Match → Text} {Inv : Option Char → Text → Prop}

/-- What a pass is known by: `Inv` holds wherever its walk looks for a match, and each match is kept or loses its tail to
the mark. -/
structure Pass (mark : Text) (e : Expr) (f : Match → Text) (Inv : Option Char → Text → Prop)
    (Cut : Option Char → Text → Text → Prop) : Prop where
  start : ∀ s, Inv none s
  copy : ∀ prev c s, Inv prev (c :: s) → (∀ m, e.matchAt prev (c :: s) = some m → m.text = []) → Inv (some c) s
  swap : ∀ prev w s m, Inv prev (w ++ s) → e.matchAt prev (w ++ s) = some m → m.text = w → w ≠ [] →
    Inv w.getLast? s ∧ (f m = w ∨ ∃ u v, w = u ++ v ∧ v ≠ [] ∧ f m = u ++ mark ∧ Cut (u.getLast?.or prev) v s)

theorem getLast?_append_of_ne_nil {u v : Text} (hv : v ≠ []) : (u ++ v).getLast? = v.getLast? := by
  rw [List.getLast?_append, Option.or_of_isSome (List.getLast?_isSome.mpr hv)]

theorem Pass.redacts_match (hpass : Pass mark e f Inv Cut) {w out : Text} {m : Match} (hinv : Inv prev (w ++ s))
    (hmatch : e.matchAt prev (w ++ s) = some m) (htext : m.text = w) (hne : w ≠ [])
    (hout : Redacts mark Cut w.getLast? s out) : Redacts mark Cut prev (w ++ s) (f m ++ out) := by
  obtain ⟨-, hkept | ⟨u, v, rfl, hv, hswapped, hcut⟩⟩ := hpass.swap prev w s m hinv hmatch htext hne
  · rw [hkept]
    refine Redacts.append w ?_
    rw [Option.or_of_isSome (List.getLast?_isSome.mpr hne)]
    exact hout
  · rw [hswapped, List.append_assoc, List.append_assoc]
    refine Redacts.append u (.cut hv hcut ?_)
    rw [getLast?_append_of_ne_nil hv] at hout
    exact hout

theorem Pass.redactsFrom (hpass : Pass mark e f Inv Cut) (hinv : Inv prev s) :
    Redacts mark Cut prev s (replaceFrom e f 0 prev s) := by
  refine replaceFrom_induction (motive := fun prev s out => Inv prev s → Redacts mark Cut prev s out) ?_ ?_ ?_ prev s hinv
  · exact fun prev _ => .nil
  · exact fun prev c s out hnone ih hinv => .keep (ih (hpass.copy prev c s hinv hnone))
  · intro prev w s m out hmatch htext hne ih hinv
    exact hpass.redacts_match hinv hmatch htext hne (ih (hpass.swap prev w s m hinv hmatch htext hne).1)

theorem Pass.redacts (hpass : Pass mark e f Inv Cut) (s : Text) : Redacts mark Cut none s (replaceAll e f s) :=
  hpass.redactsFrom (hpass.start s)

/-- A pass that would change nothing at any place it comes to changes nothing. -/
theorem Pass.eq_self (hpass : Pass mark e f Inv Cut)
    (hB : ∀ prev s m, Inv prev s → e.matchAt prev s = some m → m.text ≠ [] → f m ≠ m.text → B prev s)
    (hclean : Clean B none s) : replaceAll e f s = s := by
  refine replaceFrom_induction (motive := fun prev s out => Inv prev s → Clean B prev s → out = s) ?_ ?_ ?_ none s
    (hpass.start s) hclean
  · exact fun _ _ _ => rfl
  · intro prev c s out hnone ih hinv hclean
    rw [ih (hpass.copy prev c s hinv hnone) hclean.2]
  · intro prev w s m out hmatch htext hne ih hinv hclean
    have hsame : f m = w := by
      by_contra hdiffers
      have hbad := hB prev (w ++ s) m hinv hmatch (by rw [htext]; exact hne) (by rw [htext]; exact hdiffers)
      cases w with
      | nil => exact hne rfl
      | cons c w => exact hclean.1 hbad
    have htail := hclean.of_append
    rw [Option.or_of_isSome (List.getLast?_isSome.mpr hne)] at htail
    rw [hsame, ih (hpass.swap prev w s m hinv hmatch htext hne).1 htail]

/-- After the pass nothing of its own kind is left, if there is none in what it puts in the place of a match. -/
theorem Pass.clean_self (hpass : Pass mark e f Inv Cut) (hreflects : Reflects mark Cut Same B)
    (hB : ∀ prev s, Inv prev s → B prev s → ∃ m, e.matchAt prev s = some m ∧ m.text ≠ [])
    (hswap : ∀ prev prevY w s m out, Inv prev (w ++ s) → e.matchAt prev (w ++ s) = some m → m.text = w → w ≠ [] →
      Same prev prevY (w ++ s) → Redacts mark Cut w.getLast? s out →
      (∀ prevY', Same w.getLast? prevY' s → Clean B prevY' out) → Clean B prevY (f m ++ out)) (s : Text) :
    Clean B none (replaceAll e f s) := by
  refine (replaceFrom_induction (e := e) (f := f)
    (motive := fun prev s out => Inv prev s → Redacts mark Cut prev s out ∧
      ∀ prevY, Same prev prevY s → Clean B prevY out) ?_ ?_ ?_ none s (hpass.start s)).2 none (hreflects.same none s)
  · exact fun _ _ => ⟨.nil, fun _ _ => trivial⟩
  · intro prev c s out hnone ih hinv
    obtain ⟨hredacts, hclean⟩ := ih (hpass.copy prev c s hinv hnone)
    refine ⟨.keep hredacts, fun prevY hsame => ⟨fun hb => ?_, hclean _ (hreflects.same _ _)⟩⟩
    obtain ⟨m, hm, hne⟩ := hB prev (c :: s) hinv (hreflects.back _ _ _ _ hsame (.keep hredacts) hb)
    exact hne (hnone m hm)
  · intro prev w s m out hmatch htext hne ih hinv
    obtain ⟨hredacts, hclean⟩ := ih (hpass.swap prev w s m hinv hmatch htext hne).1
    exact ⟨hpass.redacts_match hinv hmatch htext hne hredacts,
      fun prevY hsame => hswap prev prevY w s m out hinv hmatch htext hne hsame hredacts hclean⟩

/-- A pass that puts the mark in the place of each match. -/
theorem Pass.of_marks (hcut : ∀ prev w s m, e.matchAt prev (w ++ s) = some m → m.text = w → w ≠ [] → Cut prev w s) :
    Pass mark e (fun _ => mark) (fun _ _ => True) Cut where
  start _ := trivial
  copy _ _ _ _ _ := trivial
  swap prev w s m _ hmatch htext hne := ⟨trivial, .inr ⟨[], w, rfl, hne, rfl, hcut prev w s m hmatch htext hne⟩⟩

theorem Pass.clean_marks (hmark : mark ≠ [])
    (hcut : ∀ prev w s m, e.matchAt prev (w ++ s) = some m → m.text = w → w ≠ [] → Cut prev w s)
    (hreflects : Reflects mark Cut Same B) (hB : ∀ prev s, B prev s → ∃ m, e.matchAt prev s = some m ∧ m.text ≠ [])
    (s : Text) : Clean B none (replaceAll e (fun _ => mark) s) := by
  refine (Pass.of_marks hcut).clean_self hreflects (fun prev s _ => hB prev s) ?_ s
  intro prev prevY w s m out _ hmatch htext hne _ _ hclean
  exact hreflects.clean_mark hmark (hclean _ (hreflects.after prev w s hne (hcut prev w s m hmatch htext hne))) prevY

end

/-! ### Passes in a row -/

/-- A pass, and what its text is when there is nothing left for it. -/
structure Stage where
  run : Text → Text
  Done : Text → Prop
  done_run : ∀ s, Done (run s)
  run_of_done : ∀ s, Done s → run s = s

def runAll (stages : List Stage) (s : Text) : Text := stages.foldl (fun s stage => stage.run s) s

theorem runAll_keeps {Done : Text → Prop} {stages : List Stage} (h : ∀ stage ∈ stages, ∀ s, Done s → Done (stage.run s))
    {s : Text} (hs : Done s) : Done (runAll stages s) := by
  induction stages generalizing s with
  | nil => exact hs
  | cons stage stages ih =>
      obtain ⟨hstage, hstages⟩ := List.forall_mem_cons.mp h
      exact ih hstages (hstage s hs)

theorem done_runAll {stages : List Stage} (h : stages.Pairwise fun a b => ∀ s, a.Done s → a.Done (b.run s)) (s : Text) :
    ∀ stage ∈ stages, stage.Done (runAll stages s) := by
  induction stages generalizing s with
  | nil => nofun
  | cons stage stages ih =>
      obtain ⟨hstage, hstages⟩ := List.pairwise_cons.mp h
      exact List.forall_mem_cons.mpr ⟨runAll_keeps hstage (stage.done_run s), ih hstages (stage.run s)⟩

theorem runAll_of_done {stages : List Stage} {s : Text} (h : ∀ stage ∈ stages, stage.Done s) : runAll stages s = s := by
  induction stages with
  | nil => rfl
  | cons stage stages ih =>
      obtain ⟨hstage, hstages⟩ := List.forall_mem_cons.mp h
      change runAll stages (stage.run s) = s
      rw [stage.run_of_done s hstage, ih hstages]

/-- Passes none of which makes work for an earlier one are done after one round. -/
theorem runAll_runAll {stages : List Stage} (h : stages.Pairwise fun a b => ∀ s, a.Done s → a.Done (b.run s)) (s : Text) :
    runAll stages (runAll stages s) = runAll stages s :=
  runAll_of_done (done_runAll h s)

end Redaction
