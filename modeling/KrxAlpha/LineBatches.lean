import KrxAlpha.LineBytes
import Mathlib.Data.List.TakeWhile

/-! Journal bytes cut into batches of whole lines. The bytes come in chunks of any size and wait in a
buffer; a batch is cut off at a line end as soon as the buffer is full. Nothing but blanks at the end
is lost, and the lines that hold something do not depend on the chunks or on the size of a batch. -/
namespace KrxAlpha.LineBatches
open List LineBytes

/-- `_BATCH_BYTES` -/
def maxLineBytes : Nat := 32 * 1024 * 1024

/-- The length of the batch to cut off: up to the last line end of the first `batchBytes` bytes, or
else up to the first line end at all. -/
def cutLength (batchBytes : Nat) (out : List UInt8) : Option Nat :=
  let back := ((out.take batchBytes).reverse.dropWhile (· ≠ 10)).length
  if 0 < back then some back
  else if out.contains 10 then some ((out.takeWhile (· ≠ 10)).length + 1)
  else none

/-- The inner loop, of at most this many rounds: the batches and what stays in the buffer, `none` for
the `ValueError` of an oversized line. -/
def drain (batchBytes : Nat) : Nat → List UInt8 → List (List UInt8) × Option (List UInt8)
  | 0, out => ([], some out)
  | rounds + 1, out =>
    if batchBytes ≤ out.length then
      match cutLength batchBytes out with
      | none => ([], if maxLineBytes < out.length then none else some out)
      | some cut =>
        let rest := drain batchBytes rounds (out.drop cut)
        (out.take cut :: rest.1, rest.2)
    else ([], some out)

/-- `_iter_line_batches` with its buffer: the batches, and whether it set the truncated flag. -/
def iterLineBatches (batchBytes : Nat) (out : List UInt8) : List (List UInt8) → List (List UInt8) × Bool
  | [] => (if isBlank out then [] else [out], false)
  | chunk :: chunks =>
    let drained := drain batchBytes (out ++ chunk).length (out ++ chunk)
    match drained.2 with
    | none => (drained.1, true)
    | some left =>
      let later := iterLineBatches batchBytes left chunks
      (drained.1 ++ later.1, later.2)

/-! ### Lines -/

theorem split_newlines_append (front rest : List UInt8) :
    splitNewlines (front ++ 10 :: rest) = splitNewlines front ++ splitNewlines rest := by
  induction front with
  | nil => simp [splitNewlines]
  | cons byte front ih =>
    rw [cons_append, splitNewlines, splitNewlines, ih]
    split_ifs
    · rfl
    · obtain ⟨first, more, shape⟩ := split_newlines_head front
      simp [shape]

/-- The lines that hold something. -/
def filledLines (bytes : List UInt8) : List (List UInt8) := (splitNewlines bytes).filter (!isBlank ·)

/-- A batch up to a line end. -/
def EndsLine (batch : List UInt8) : Prop := ∃ front, batch = front ++ [10]

theorem filled_lines_append (ends : EndsLine batch) (rest : List UInt8) :
    filledLines (batch ++ rest) = filledLines batch ++ filledLines rest := by
  obtain ⟨front, rfl⟩ := ends
  have alone : splitNewlines (front ++ [10]) = splitNewlines front ++ [[]] := split_newlines_append front []
  simp [filledLines, split_newlines_append, alone, isBlank]

theorem filled_lines_batches {batches : List (List UInt8)} (ends : ∀ batch ∈ batches, EndsLine batch) (rest : List UInt8) :
    filledLines (batches.flatten ++ rest) = batches.flatMap filledLines ++ filledLines rest := by
  induction batches with
  | nil => simp
  | cons batch batches ih =>
    obtain ⟨here, later⟩ := forall_mem_cons.mp ends
    simp [filled_lines_append here, ih later]

theorem blank_lines (blank : isBlank bytes = true) : ∀ line ∈ splitNewlines bytes, isBlank line = true := by
  induction bytes with
  | nil => simp [splitNewlines, isBlank]
  | cons byte bytes ih =>
    obtain ⟨first, more, shape⟩ := split_newlines_head bytes
    simp only [isBlank, all_cons, Bool.and_eq_true] at blank
    obtain ⟨own, others⟩ := forall_mem_cons.mp (shape ▸ ih blank.2)
    rw [splitNewlines, shape]
    split_ifs
    · exact forall_mem_cons.mpr ⟨rfl, forall_mem_cons.mpr ⟨own, others⟩⟩
    · refine forall_mem_cons.mpr ⟨?_, others⟩
      simpa [isBlank, blank.1] using own

/-- No line is refused: it is short enough in itself, or shorter than a batch. -/
def LinesFit (batchBytes : Nat) (bytes : List UInt8) : Prop :=
  ∀ line ∈ splitNewlines bytes, line.length ≤ maxLineBytes ∨ line.length < batchBytes

theorem LinesFit.rest (ends : EndsLine batch) {rest : List UInt8} (fit : LinesFit size (batch ++ rest)) :
    LinesFit size rest := by
  obtain ⟨front, rfl⟩ := ends
  rw [append_assoc] at fit
  intro line member
  exact fit line (split_newlines_append front rest ▸ mem_append_right _ member)

/-- Bytes without a line end are part of one line. -/
theorem split_newlines_unended (unended : 10 ∉ bytes) (shape : splitNewlines rest = first :: more) :
    splitNewlines (bytes ++ rest) = (bytes ++ first) :: more := by
  induction bytes with
  | nil => exact shape
  | cons byte bytes ih =>
    obtain ⟨other, later⟩ := ne_and_not_mem_of_not_mem_cons unended
    rw [cons_append, splitNewlines, if_neg other.symm, ih later]
    rfl

theorem LinesFit.behind {batches : List (List UInt8)} (ends : ∀ batch ∈ batches, EndsLine batch)
    (fit : LinesFit size (batches.flatten ++ left)) : LinesFit size left := by
  induction batches with
  | nil => exact fit
  | cons batch batches ih =>
    obtain ⟨here, later⟩ := forall_mem_cons.mp ends
    rw [flatten_cons, append_assoc] at fit
    exact ih later (fit.rest here)

theorem LinesFit.length_le {bytes rest : List UInt8} (fit : LinesFit size (bytes ++ rest))
    (unended : 10 ∉ bytes) (full : size ≤ bytes.length) : bytes.length ≤ maxLineBytes := by
  obtain ⟨first, more, shape⟩ := split_newlines_head rest
  have longer := fit (bytes ++ first) (by simp [split_newlines_unended unended shape])
  rw [length_append] at longer
  omega

/-! ### Cuts -/

/-- What is not dropped begins with the line end. -/
theorem split_at_end (bytes : List UInt8) (some_ : bytes.dropWhile (· ≠ 10) ≠ []) :
    ∃ rest, bytes.dropWhile (· ≠ 10) = 10 :: rest ∧ bytes = bytes.takeWhile (· ≠ 10) ++ 10 :: rest := by
  have whole := takeWhile_append_dropWhile (p := (· ≠ 10)) (l := bytes)
  have head := head_dropWhile_not (· ≠ 10) (l := bytes) some_
  generalize bytes.dropWhile (· ≠ 10) = dropped at some_ whole head ⊢
  cases dropped with
  | nil => exact absurd rfl some_
  | cons byte rest =>
    obtain rfl : byte = 10 := of_not_not (of_decide_eq_false head)
    exact ⟨rest, rfl, whole.symm⟩

theorem cut_length_ends (found : cutLength batchBytes out = some cut) :
    0 < cut ∧ cut ≤ out.length ∧ EndsLine (out.take cut) := by
  unfold cutLength at found
  simp only at found
  split_ifs at found with back forward
  · obtain rfl := Option.some.inj found
    obtain ⟨rest, dropped, whole⟩ := split_at_end _ (ne_nil_of_length_pos back)
    have read := congrArg reverse whole
    rw [reverse_reverse, reverse_append, reverse_cons] at read
    have size := congrArg length read
    simp only [length_append, length_reverse, length_take, length_singleton] at size
    rw [dropped, length_cons]
    have front : out.take (rest.length + 1) = rest.reverse ++ [10] := by
      rw [← min_eq_left (show rest.length + 1 ≤ batchBytes by omega), ← take_take, read]
      exact take_left' (by simp)
    exact ⟨by omega, by omega, rest.reverse, front⟩
  · obtain rfl := Option.some.inj found
    have some_ : out.dropWhile (· ≠ 10) ≠ [] := by
      rw [ne_eq, dropWhile_eq_nil_iff]
      exact fun none => absurd (none 10 (by simpa using forward)) (by simp)
    obtain ⟨rest, -, whole⟩ := split_at_end out some_
    generalize out.takeWhile (· ≠ 10) = front at whole ⊢
    subst whole
    refine ⟨by omega, by simp, front, ?_⟩
    rw [append_cons]
    exact take_left' (by simp)

/-- Buffered bytes are cut into batches of whole lines and what is left, and no line is too long. -/
theorem drain_spec {future : List UInt8} (fit : LinesFit batchBytes (out ++ future)) :
    ∃ batches left, drain batchBytes rounds out = (batches, some left) ∧
      (∀ batch ∈ batches, EndsLine batch) ∧ out = batches.flatten ++ left := by
  induction rounds generalizing out with
  | zero => exact ⟨[], out, rfl, by simp, by simp⟩
  | succ rounds ih =>
    rw [drain]
    split
    · rename_i full
      cases found : cutLength batchBytes out with
      | none =>
        have unended : 10 ∉ out := by
          intro member
          unfold cutLength at found
          simp only [contains_iff_mem, member, if_true] at found
          split_ifs at found
        have short := fit.length_le unended full
        exact ⟨[], out, by simp [Nat.not_lt.mpr short], by simp, by simp⟩
      | some cut =>
        obtain ⟨-, -, ends⟩ := cut_length_ends found
        have whole := take_append_drop cut out
        rw [← whole, append_assoc] at fit
        obtain ⟨batches, left, drained, each, rest⟩ := ih (fit.rest ends)
        refine ⟨out.take cut :: batches, left, by simp [drained], forall_mem_cons.mpr ⟨ends, each⟩, ?_⟩
        rw [flatten_cons, append_assoc, ← rest, whole]
    · exact ⟨[], out, rfl, by simp, by simp⟩

/-- The batches are whole lines up to the last one; what is missing behind them is blank. -/
theorem iter_line_batches_spec {out : List UInt8} (fit : LinesFit batchBytes (out ++ chunks.flatten)) :
    ∃ batches last left, iterLineBatches batchBytes out chunks = (batches ++ last, false) ∧
      (∀ batch ∈ batches, EndsLine batch) ∧ out ++ chunks.flatten = batches.flatten ++ left ∧
      (last = [left] ∨ last = [] ∧ isBlank left = true) := by
  induction chunks generalizing out with
  | nil =>
    refine ⟨[], if isBlank out then [] else [out], out, rfl, by simp, by simp, ?_⟩
    split_ifs with blank
    · exact .inr ⟨rfl, blank⟩
    · exact .inl rfl
  | cons chunk chunks ih =>
    rw [flatten_cons, ← append_assoc] at fit
    obtain ⟨front, left, drained, each, split⟩ := @drain_spec batchBytes _ (out ++ chunk).length _ fit
    have rest : LinesFit batchBytes (left ++ chunks.flatten) := by
      rw [split, append_assoc] at fit
      exact fit.behind each
    obtain ⟨batches, last, tail, iterated, ends, flat, closing⟩ := ih rest
    refine ⟨front ++ batches, last, tail, ?_, fun batch member => ?_, ?_, closing⟩
    · simp only [iterLineBatches, drained, iterated, append_assoc]
    · exact (mem_append.mp member).elim (each batch) (ends batch)
    · rw [flatten_cons, ← append_assoc, split, append_assoc, flat, flatten_append, append_assoc]

/-- As long as no line is refused, all that is not yielded is blank and stands at the end, every batch
but the last ends a line, and the lines that hold something are those of the stream, whatever the
chunks and the size of a batch. -/
theorem line_batches_lossless (batchBytes : Nat) (chunks : List (List UInt8))
    (fit : ∀ line ∈ splitNewlines chunks.flatten,
      line.length ≤ maxLineBytes ∨ line.length < batchBytes) :
    (iterLineBatches batchBytes [] chunks).2 = false ∧
    (∃ blanks, (iterLineBatches batchBytes [] chunks).1.flatten ++ blanks = chunks.flatten ∧
      isBlank blanks = true) ∧
    (∀ batch ∈ (iterLineBatches batchBytes [] chunks).1.dropLast, ∃ front, batch = front ++ [10]) ∧
    (iterLineBatches batchBytes [] chunks).1.flatMap filledLines = filledLines chunks.flatten := by
  obtain ⟨batches, last, left, iterated, ends, flat, closing⟩ :=
    @iter_line_batches_spec batchBytes chunks [] fit
  have lines := filled_lines_batches ends left
  rw [iterated]
  rw [nil_append] at flat
  rcases closing with rfl | ⟨rfl, blank⟩
  · refine ⟨rfl, ⟨[], by simp [flat], rfl⟩, ?_, by simp [flat, lines]⟩
    rw [dropLast_concat]
    exact ends
  · have unfilled : filledLines left = [] :=
      filter_eq_nil_iff.mpr fun line member => by simp [blank_lines blank line member]
    refine ⟨rfl, ⟨left, by simp [flat], blank⟩, fun batch member => ?_, by simp [flat, lines, unfilled]⟩
    exact ends batch (by simpa using dropLast_subset _ member)

/-- Two lines read in batches of three bytes. -/
theorem two_lines_batched :
    (iterLineBatches 3 [] [[97], [10, 98], [99, 10]]).1.flatMap filledLines = [[97], [98, 99]] :=
  (line_batches_lossless 3 _ (by decide)).2.2.2.trans (by decide)

/-- A line that fills a batch above the greatest length is refused before its end is read. -/
theorem full_line_refused (long : maxLineBytes < size) :
    iterLineBatches size [] [replicate size 97, [10]] = ([], true) := by
  have unended : cutLength size (replicate size 97) = none := by
    simp [cutLength]
  obtain ⟨rounds, rfl⟩ := Nat.exists_eq_succ_of_ne_zero (Nat.ne_of_gt (Nat.zero_lt_of_lt long))
  simp only [iterLineBatches, nil_append, length_replicate, drain, unended, le_refl, ↓reduceIte, long]

/-- Of blank lines at the end, it depends on the size of a batch how many are yielded. A line of the
size of a batch is refused where this size is above the greatest length. -/
theorem blank_line_left_out :
    (iterLineBatches 2 [] [[97, 10, 10]]).1 = [[97, 10]] ∧
    (iterLineBatches 3 [] [[97, 10, 10]]).1 = [[97, 10, 10]] ∧
    iterLineBatches (maxLineBytes + 1) [] [replicate (maxLineBytes + 1) 97, [10]] = ([], true) :=
  ⟨by decide, by decide, full_line_refused (Nat.lt_succ_self _)⟩

end KrxAlpha.LineBatches
