import GlitchCore.Logfmt.LinkPasses
import GlitchCore.Logfmt.RunPasses

/-!
# Scrubbing twice

The source says that scrubbing a scrubbed line changes nothing. Of the six passes for values this holds on every text:
no pass makes work for an earlier one. With the two passes for links before them it does not: a value that is replaced
inside a URL can take a quote with it, and what the quote kept out of the URL is then part of it. A line without `://`
gives those two passes nothing to do, and a line in which the others find nothing is theirs alone; both are done after
one round.
-/

namespace GlitchCore.Logfmt

open GoText Regex Redaction

/-! ### The passes for values -/

def FieldPattern.stage (k : FieldPattern) : Stage :=
  ⟨replaceAll k.expr k.swap, Clean k.Finds none, k.clean_replaceAll, k.replaceAll_eq_self⟩

def encryptionStage : Stage :=
  ⟨replaceAll vlessEncryptionPattern fun _ => redacted, Clean EncryptionAt none, clean_encryption,
    replaceAll_encryption⟩

def uuidStage : Stage :=
  ⟨replaceAll uuidPattern fun _ => redacted, Clean UuidAt none, clean_uuid, replaceAll_uuid⟩

def tokenStage : Stage :=
  ⟨replaceAll tokenPattern scrubToken, Clean TokenAt none, clean_token, replaceAll_token⟩

def fieldStages : List Stage :=
  [assignField.stage, quotedField.stage, quotedKeyField.stage, encryptionStage, uuidStage, tokenStage]

theorem scrubFields_eq_runAll (s : Text) : scrubFields s = runAll fieldStages s := by
  rw [scrubFields]
  rw [replaceAll_assign, replaceAll_quotedField, replaceAll_quotedKey]
  rfl

theorem tokenStage_apart (s : Text) : Redacts redacted Apart none s (tokenStage.run s) :=
  (pass_token.redacts s).mono fun _ _ _ hwhole => hwhole.toApart

/-- Whatever a pass for values does to a text, it puts marks in the place of parts. -/
theorem fieldStages_redacts {stage : Stage} (h : stage ∈ fieldStages) (s : Text) :
    Redacts redacted Parts none s (stage.run s) := by
  simp only [fieldStages, List.mem_cons, List.not_mem_nil, or_false] at h
  obtain rfl | rfl | rfl | rfl | rfl | rfl := h
  · exact assignField.pass.redacts s
  · exact quotedField.pass.redacts s
  · exact quotedKeyField.pass.redacts s
  · exact (Pass.of_marks parts_encryption).redacts s
  · exact ((Pass.of_marks apart_uuid).redacts s).mono fun _ _ _ hapart => hapart.toParts
  · exact (tokenStage_apart s).mono fun _ _ _ hapart => hapart.toParts

theorem fieldStages_keep {B : Option Char → Text → Prop} (hreflects : Reflects redacted Parts SameWord B) {stage : Stage}
    (h : stage ∈ fieldStages) (s : Text) (hclean : Clean B none s) : Clean B none (stage.run s) :=
  hreflects.clean (by decide) (fieldStages_redacts h s) (hreflects.same none s) hclean

theorem fieldStages_pairwise : fieldStages.Pairwise fun a b => ∀ s, a.Done s → a.Done (b.run s) := by
  have hlater {n : Nat} {stage : Stage} (h : stage ∈ fieldStages.drop n) : stage ∈ fieldStages := List.mem_of_mem_drop h
  refine .cons (fun b hb => fieldStages_keep assignField.reflects (hlater (n := 1) hb)) ?_
  refine .cons (fun b hb => fieldStages_keep quotedField.reflects (hlater (n := 2) hb)) ?_
  refine .cons (fun b hb => fieldStages_keep quotedKeyField.reflects (hlater (n := 3) hb)) ?_
  refine .cons (fun b hb => fieldStages_keep reflects_encryption (hlater (n := 4) hb)) ?_
  refine .cons (fun b hb s hclean => ?_) (List.pairwise_singleton _ _)
  rw [List.mem_singleton.mp hb]
  exact reflects_uuid.clean (by decide) (tokenStage_apart s) (reflects_uuid.same none s) hclean

/-- The passes for values are done after one round, on every text. -/
theorem scrubFields_scrubFields (s : Text) : scrubFields (scrubFields s) = scrubFields s := by
  simp only [scrubFields_eq_runAll]
  exact runAll_runAll fieldStages_pairwise s

/-! ### Both kinds of passes -/

/-- What the two passes for links leave. -/
def scrubLinks (s : Text) : Text :=
  replaceAll urlPattern (fun m => scrubURL m.text) (replaceAll quotedURLPattern scrubQuoted s)

theorem scrub_eq (s : Text) : scrub s = scrubFields (scrubLinks s) := rfl

theorem scrubLinks_eq (s : Text) : scrubLinks s = linksFrom none s := rfl

def SlashesAt (_ : Option Char) (s : Text) : Prop := "://".toList <+: s

theorem clean_slashes_iff (prev : Option Char) (s : Text) : Clean SlashesAt prev s ↔ ¬ "://".toList <:+: s := by
  induction s generalizing prev with
  | nil => exact ⟨fun _ => by decide, fun _ => trivial⟩
  | cons c s ih =>
      rw [List.infix_cons_iff, not_or]
      exact and_congr_right fun _ => ih (some c)

theorem reflects_slashes : Reflects redacted Parts SameWord SlashesAt :=
  reflects_literal (c := ':') (by decide) (by decide)

theorem not_slashes_scrubFields {s : Text} (h : ¬ "://".toList <:+: s) : ¬ "://".toList <:+: scrubFields s := by
  rw [← clean_slashes_iff none] at h ⊢
  rw [scrubFields_eq_runAll]
  exact runAll_keeps (fun stage hstage s => fieldStages_keep reflects_slashes hstage s) h

theorem scrub_of_not_slashes {s : Text} (h : ¬ "://".toList <:+: s) : scrub s = scrubFields s := by
  rw [scrub_eq, scrubLinks_eq, linksFrom_of_not_slashes h]

/-- A backslash before a quote: the first round reads no closing quote, and replaces the backslash with the path of the
second URL; the second round reads the quote. -/
example : scrub "\"a://x b://h/\\\"".toList = "\"a://x b://h/[redacted]\"".toList ∧
    scrub (scrub "\"a://x b://h/\\\"".toList) = "\"a://x b:/[redacted]\"".toList := by
  decide +kernel

end GlitchCore.Logfmt
