import Mathlib.Tactic.SplitIfs

/-! Texts as bytes, and bytes as lines: UTF-8 as the core library encodes and decodes it, and
lines as `bytes.splitlines` splits them. A file of texts is cut at any byte, inside a character
too, so what a cut leaves to decode is of interest. Nothing here refers to a particular
program. -/
namespace KrxAlpha.LineBytes
open List

/-! ### UTF-8 -/

def encode (text : List Char) : List UInt8 := text.flatMap String.utf8EncodeChar

def decode (bytes : List UInt8) : Option (List Char) :=
  bytes.toByteArray.utf8Decode?.map Array.toList

theorem encode_append (first second : List Char) :
    encode (first ++ second) = encode first ++ encode second := flatMap_append

theorem decode_encode (text : List Char) : decode (encode text) = some text := by
  show (utf8Encode text).utf8Decode?.map Array.toList = some text
  rw [utf8Decode?_utf8Encode]
  rfl

theorem encode_of_decode (read : decode bytes = some text) : encode text = bytes := by
  obtain ⟨chars, found, rfl⟩ := Option.map_eq_some_iff.mp read
  have valid : bytes.toByteArray.utf8Decode?.isSome = true := by
    rw [found]
    rfl
  have whole := ByteArray.utf8Encode_get_utf8Decode? (b := bytes.toByteArray) (h := valid)
  simp only [found, Option.get_some] at whole
  exact toByteArray_inj.mp whole

theorem encode_cons_inj
    (same : String.utf8EncodeChar first ++ before = String.utf8EncodeChar second ++ later) :
    first = second ∧ before = later := by
  have decoded (char : Char) (rest : List UInt8) :
      (String.utf8EncodeChar char ++ rest).toByteArray.utf8DecodeChar? 0 = some char := by
    rw [toByteArray_append]
    exact ByteArray.utf8DecodeChar?_utf8EncodeChar_append
  have chars := decoded first before
  rw [same, decoded second later] at chars
  cases chars
  exact ⟨rfl, append_cancel_left same⟩

/-- What a cut of an encoded text decodes to is a first part of the text. -/
theorem decode_part (split : encode text = bytes ++ rest) (read : decode bytes = some part) :
    ∃ more, text = part ++ more ∧ encode more = rest := by
  rw [← encode_of_decode read] at split
  clear read
  induction part generalizing text with
  | nil => exact ⟨text, rfl, split⟩
  | cons char part ih =>
    cases text with
    | nil => simp [encode] at split
    | cons first text =>
      simp only [encode, flatMap_cons, append_assoc] at split
      obtain ⟨rfl, tail⟩ := encode_cons_inj split
      obtain ⟨more, rfl, left⟩ := ih tail
      exact ⟨more, rfl, left⟩

private theorem encoded_from (small : least ≤ 128) (visible : least ≤ char.toNat)
    (listed : byte ∈ String.utf8EncodeChar char) : least ≤ byte.toNat := by
  have same : char.val.toNat = char.toNat := rfl
  unfold String.utf8EncodeChar at listed
  simp only [same] at listed
  split_ifs at listed <;>
    simp only [mem_cons, not_mem_nil, or_false] at listed <;>
    rcases listed with rfl | rfl | rfl | rfl <;>
    simp only [UInt8.toNat_ofNat'] <;> omega

/-- Only a control character is encoded with the byte of one. -/
theorem encoded_byte (visible : 32 ≤ char.toNat)
    (listed : byte ∈ String.utf8EncodeChar char) : 32 ≤ byte.toNat :=
  encoded_from (by decide) visible listed

theorem encoded_bytes (visible : ∀ char ∈ text, 32 ≤ char.toNat)
    (listed : byte ∈ encode text) : 32 ≤ byte.toNat := by
  obtain ⟨char, within, here⟩ := mem_flatMap.mp listed
  exact encoded_byte (visible char within) here

/-! ### Lines -/

/-- The lines after a line already begun. A line ends at `\n`, `\r` or `\r\n`; the flag says
that the last one ended with `\r`. -/
def linesFrom (returned : Bool) (line : List UInt8) : List UInt8 → List (List UInt8)
  | [] => if line = [] then [] else [line]
  | byte :: rest =>
    if byte = 10 then
      if returned then linesFrom false [] rest else line :: linesFrom false [] rest
    else if byte = 13 then line :: linesFrom true [] rest
    else linesFrom false (line ++ [byte]) rest

/-- `bytes.splitlines` -/
def splitLines (bytes : List UInt8) : List (List UInt8) := linesFrom false [] bytes

/-- `not line.strip()` -/
def isBlank (line : List UInt8) : Bool :=
  line.all fun byte => byte = 32 || (9 ≤ byte && byte ≤ 13)

/-- A blank line decodes to blanks. -/
theorem decoded_blank (blank : isBlank line = true)
    (read : decode line = some text) : ∀ char ∈ text, char.toNat ≤ 32 := by
  intro char held
  refine Nat.le_of_not_lt fun visible => ?_
  have bytes : 0 < (String.utf8EncodeChar char).length := by
    rw [String.length_utf8EncodeChar]
    exact Char.utf8Size_pos char
  obtain ⟨byte, listed⟩ := length_pos_iff_exists_mem.mp bytes
  have inLine : byte ∈ line := by
    rw [← encode_of_decode read]
    exact mem_flatMap.mpr ⟨char, held, listed⟩
  have low := all_eq_true.mp blank byte inLine
  have high : 33 ≤ byte.toNat := encoded_from (by decide) (by omega) listed
  simp only [Bool.or_eq_true, Bool.and_eq_true, decide_eq_true_eq] at low
  rcases low with rfl | ⟨-, low⟩
  · exact absurd high (by decide)
  · have : byte.toNat ≤ 13 := low
    omega

theorem lines_from_visible (visible : ∀ byte ∈ line, 32 ≤ byte.toNat) (begun rest : List UInt8) :
    linesFrom false begun (line ++ rest) = linesFrom false (begun ++ line) rest := by
  induction line generalizing begun with
  | nil => simp
  | cons byte line ih =>
    obtain ⟨here, later⟩ := forall_mem_cons.mp visible
    have newline : byte ≠ 10 := by
      rintro rfl
      exact absurd here (by decide)
    have return_ : byte ≠ 13 := by
      rintro rfl
      exact absurd here (by decide)
    rw [cons_append, linesFrom, if_neg newline, if_neg return_, ih later]
    simp

theorem split_lines_cons (visible : ∀ byte ∈ line, 32 ≤ byte.toNat)
    (rest : List UInt8) : splitLines (line ++ 10 :: rest) = line :: splitLines rest := by
  unfold splitLines
  rw [lines_from_visible visible]
  rfl

theorem split_lines_single (visible : ∀ byte ∈ line, 32 ≤ byte.toNat)
    (some_ : line ≠ []) : splitLines line = [line] := by
  have whole := lines_from_visible visible [] []
  rw [append_nil, nil_append] at whole
  rw [splitLines, whole, linesFrom, if_neg some_]

/-- `bytes.split(b"\n")` -/
def splitNewlines : List UInt8 → List (List UInt8)
  | [] => [[]]
  | byte :: rest =>
    if byte = 10 then [] :: splitNewlines rest
    else
      match splitNewlines rest with
      | [] => [[byte]]
      | line :: lines => (byte :: line) :: lines

theorem split_newlines_cons (plain : 10 ∉ line) (rest : List UInt8) :
    splitNewlines (line ++ 10 :: rest) = line :: splitNewlines rest := by
  induction line with
  | nil => simp [splitNewlines]
  | cons byte line ih =>
    obtain ⟨here, later⟩ := ne_and_not_mem_of_not_mem_cons plain
    rw [cons_append, splitNewlines, if_neg here.symm, ih later]

theorem split_newlines_head (bytes : List UInt8) :
    ∃ first more, splitNewlines bytes = first :: more := by
  cases bytes with
  | nil => exact ⟨[], [], rfl⟩
  | cons byte rest =>
    rw [splitNewlines]
    split_ifs
    · exact ⟨_, _, rfl⟩
    · cases splitNewlines rest with
      | nil => exact ⟨_, _, rfl⟩
      | cons line lines => exact ⟨_, _, rfl⟩

private theorem filterMap_lines_from {read : List UInt8 → Option α} (empty : read [] = none)
    (plain : 13 ∉ bytes) (shape : splitNewlines bytes = first :: more) (line : List UInt8) :
    (linesFrom false line bytes).filterMap read = ((line ++ first) :: more).filterMap read := by
  induction bytes generalizing line first more with
  | nil =>
    cases shape
    rw [linesFrom, append_nil]
    split_ifs with blank
    · rw [blank, filterMap_cons_none empty]
    · rfl
  | cons byte rest ih =>
    obtain ⟨here, later⟩ := ne_and_not_mem_of_not_mem_cons plain
    obtain ⟨next, others, split⟩ := split_newlines_head rest
    rw [splitNewlines, split] at shape
    rw [linesFrom]
    by_cases newline : byte = 10
    · rw [if_pos newline] at shape ⊢
      cases shape
      rw [if_neg Bool.false_ne_true, append_nil, filterMap_cons, ih later split []]
      rfl
    · rw [if_neg newline] at shape
      cases shape
      rw [if_neg newline, if_neg here.symm, ih later split, append_assoc]
      rfl

/-- Without carriage returns both ways of splitting give the same lines, up to empty ones. -/
theorem filterMap_split_lines {read : List UInt8 → Option α} (empty : read [] = none)
    (plain : 13 ∉ bytes) :
    (splitLines bytes).filterMap read = (splitNewlines bytes).filterMap read := by
  obtain ⟨first, more, shape⟩ := split_newlines_head bytes
  rw [splitLines, filterMap_lines_from empty plain shape, shape, nil_append]

end KrxAlpha.LineBytes
