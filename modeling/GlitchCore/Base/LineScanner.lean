import Mathlib.Data.List.Basic

/-!
# Lines of a stream

`bufio.Scanner` over `bufio.ScanLines`: the reader gives the stream in pieces of any size; a line ends at a line break,
which is not part of it, and neither is a carriage return before it; at the end of the stream what is left counts as a
line unless it is empty. The buffer holds `limit` bytes: a line that fills it without a break ends the scan.

However the stream is cut into pieces, the lines are those of the whole stream.
-/

namespace LineScanner

abbrev Bytes := List UInt8

def dropCR (line : Bytes) : Bytes := if line.getLast? = some 13 then line.dropLast else line

/-- The lines that end in what is read, `line` being the bytes of the first one read so far, and the line that has only
begun. -/
def cutLines (line : Bytes) : Bytes → List Bytes × Bytes
  | [] => ([], line)
  | b :: rest =>
      if b = 10 then (line :: (cutLines [] rest).1, (cutLines [] rest).2) else cutLines (line ++ [b]) rest

/-- The tokens of a scan and whether it ends in an error. -/
def scan (limit : Nat) (line : Bytes) : List Bytes → List Bytes × Bool
  | [] => (if line = [] then [] else [dropCR line], false)
  | piece :: rest =>
      let cut := cutLines line piece
      if limit ≤ cut.2.length then (cut.1.map dropCR, true)
      else (cut.1.map dropCR ++ (scan limit cut.2 rest).1, (scan limit cut.2 rest).2)

theorem cutLines_append (line front back : Bytes) : cutLines line (front ++ back) =
    ((cutLines line front).1 ++ (cutLines (cutLines line front).2 back).1, (cutLines (cutLines line front).2 back).2) := by
  induction front generalizing line with
  | nil => rfl
  | cons b front ih =>
      rw [List.cons_append, cutLines, cutLines]
      split
      · rw [ih]
        rfl
      · exact ih _

theorem cutLines_of_not_mem {piece : Bytes} (h : 10 ∉ piece) (line : Bytes) : cutLines line piece = ([], line ++ piece) := by
  induction piece generalizing line with
  | nil => rw [List.append_nil]; rfl
  | cons b piece ih =>
      have hb : b ≠ 10 := fun hb => h (hb ▸ List.mem_cons_self ..)
      rw [cutLines, if_neg hb, ih fun hmem => h (List.mem_cons_of_mem _ hmem), List.append_assoc]
      rfl

/-- The bytes read of a line are in front of the first line that ends, or of the one that has begun. -/
theorem le_length_cutLines (line piece : Bytes) : ∃ out ∈ (cutLines line piece).1 ++ [(cutLines line piece).2], line.length ≤ out.length := by
  induction piece generalizing line with
  | nil => exact ⟨line, List.mem_singleton_self line, Nat.le_refl _⟩
  | cons b piece ih =>
      rw [cutLines]
      split
      · exact ⟨line, List.mem_cons_self .., Nat.le_refl _⟩
      · obtain ⟨out, hmem, hlen⟩ := ih (line ++ [b])
        rw [List.length_append] at hlen
        exact ⟨out, hmem, by omega⟩

/-- Where every line fits the buffer the pieces do not matter. -/
theorem scan_eq {limit : Nat} {line : Bytes} {pieces : List Bytes}
    (hfits : ∀ out ∈ (cutLines line pieces.flatten).1 ++ [(cutLines line pieces.flatten).2], out.length < limit) :
    scan limit line pieces = ((cutLines line pieces.flatten).1.map dropCR ++
      (if (cutLines line pieces.flatten).2 = [] then [] else [dropCR (cutLines line pieces.flatten).2]), false) := by
  induction pieces generalizing line with
  | nil => rfl
  | cons piece rest ih =>
      rw [List.flatten_cons, cutLines_append] at hfits ⊢
      obtain ⟨out, hmem, hlen⟩ := le_length_cutLines (cutLines line piece).2 rest.flatten
      have hroom : ¬ limit ≤ (cutLines line piece).2.length := by
        have hout := hfits out (by rw [List.append_assoc]; exact List.mem_append_right _ hmem)
        omega
      have hlater : ∀ out ∈ (cutLines (cutLines line piece).2 rest.flatten).1 ++
          [(cutLines (cutLines line piece).2 rest.flatten).2], out.length < limit := by
        intro out hout
        exact hfits out (by rw [List.append_assoc]; exact List.mem_append_right _ hout)
      rw [scan]
      simp only
      rw [if_neg hroom, ih hlater, List.map_append, List.append_assoc]

/-- A stream of lines, each with its break. -/
def framed (lines : List Bytes) : Bytes := lines.flatMap fun line => line ++ [10]

theorem cutLines_framed {lines : List Bytes} (h : ∀ line ∈ lines, 10 ∉ line) : cutLines [] (framed lines) = (lines, []) := by
  induction lines with
  | nil => rfl
  | cons line lines ih =>
      have hline := cutLines_of_not_mem (h line (List.mem_cons_self ..)) []
      have hlines := ih fun l hl => h l (List.mem_cons_of_mem _ hl)
      have hframed : framed (line :: lines) = line ++ 10 :: framed lines := by
        rw [framed, List.flatMap_cons, List.append_assoc]
        rfl
      rw [hframed, cutLines_append, hline, cutLines, if_pos rfl, hlines]
      rfl

/-- Lines that fit the buffer and end in no carriage return are scanned as they were written, however the stream is
cut. -/
theorem scan_framed {limit : Nat} {lines pieces : List Bytes} (hpieces : pieces.flatten = framed lines) (hlimit : 0 < limit)
    (hbreak : ∀ line ∈ lines, 10 ∉ line) (hreturn : ∀ line ∈ lines, line.getLast? ≠ some 13)
    (hfits : ∀ line ∈ lines, line.length < limit) : scan limit [] pieces = (lines, false) := by
  have hcut := cutLines_framed hbreak
  rw [← hpieces] at hcut
  have hroom : ∀ out ∈ (cutLines [] pieces.flatten).1 ++ [(cutLines [] pieces.flatten).2], out.length < limit := by
    rw [hcut]
    exact List.forall_mem_append.mpr ⟨hfits, List.forall_mem_singleton.mpr hlimit⟩
  have hdrop : ∀ line ∈ lines, dropCR line = line := fun line hline => if_neg (hreturn line hline)
  rw [scan_eq hroom, hcut, List.map_congr_left hdrop, List.map_id', if_pos rfl, List.append_nil]

end LineScanner
