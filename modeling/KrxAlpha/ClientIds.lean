import KrxAlpha.Contracts
import Mathlib.Algebra.Group.Nat.Defs

/-! Clock texts and client ids. A client id ends in the zero-padded sequence
number of its session, and recovery reads that number back from the text
alone, so the two must agree for every mode, day and sequence number. -/
namespace KrxAlpha
open List

/-- Decimal text, zero-padded on the left to at least `width` digits. -/
def zeroPad (width n : Nat) : List Char :=
  List.replicate (width - (Nat.toDigits 10 n).length) '0' ++ Nat.toDigits 10 n

/-- Microseconds of one Seoul day; the zone has no daylight saving. -/
def dayMicros : Int := 86400000000

/-- The calendar day of an instant, counted from 1970-01-01. -/
def dayOf (at_ : Timestamp) : Int := at_ / dayMicros

/-- Year, month and day of a day count, in the proleptic Gregorian calendar. -/
def civilOfDay (day : Int) : Int × Nat × Nat :=
  let shifted := day + 719468
  let era := shifted / 146097
  let dayOfEra := (shifted % 146097).toNat
  let yearOfEra := (dayOfEra - dayOfEra / 1460 + dayOfEra / 36524 - dayOfEra / 146096) / 365
  let dayOfYear := dayOfEra - (365 * yearOfEra + yearOfEra / 4 - yearOfEra / 100)
  let monthIndex := (5 * dayOfYear + 2) / 153
  let dayOfMonth := dayOfYear - (153 * monthIndex + 2) / 5 + 1
  let month := if monthIndex < 10 then monthIndex + 3 else monthIndex - 9
  (yearOfEra + era * 400 + (if month ≤ 2 then 1 else 0), month, dayOfMonth)

/-- `%Y%m%d`. -/
def dateText (at_ : Timestamp) : List Char :=
  let (year, month, day) := civilOfDay (dayOf at_)
  zeroPad 4 year.toNat ++ zeroPad 2 month ++ zeroPad 2 day

/-- `%H%M%S` in Seoul. -/
def timeText (at_ : Timestamp) : String :=
  let second := (at_ / 1000000 % 86400).toNat
  String.ofList (zeroPad 2 (second / 3600) ++ zeroPad 2 (second / 60 % 60) ++ zeroPad 2 (second % 60))

def clientIdText (mode : ExecutionMode) (at_ : Timestamp) (seq : Nat) : String :=
  String.ofList (mode.value.toList ++ '-' :: dateText at_ ++ '-' :: zeroPad 6 seq)

/-- `str.rsplit("-", 1)[1]`: what follows the last dash. -/
def suffixAfterDash (text : List Char) : List Char :=
  (text.reverse.takeWhile (· ≠ '-')).reverse

/-- `_seq_of`: the sequence number a client id ends in. -/
def seqOf (clientId : String) : Except Error Nat :=
  if '-' ∉ clientId.toList then .error (.execution (.invalidClientId clientId))
  else
    let suffix := suffixAfterDash clientId.toList
    if suffix = [] ∨ ¬ suffix.all Char.isDigit then
      .error (.execution (.nonNumericSuffix clientId))
    else .ok (Nat.ofDigitChars 10 suffix 0)

theorem zero_pad_digits (member : char ∈ zeroPad width n) : char.isDigit = true := by
  rcases mem_append.mp member with zero | digit
  · rw [eq_of_mem_replicate zero]
    rfl
  · exact Nat.isDigit_of_mem_toDigits (by decide) (by decide) digit

theorem zero_pad_length (positive : 0 < width) (small : n < 10 ^ width) :
    (zeroPad width n).length = width := by
  have digits := (Nat.length_toDigits_le_iff (b := 10) (n := n) (by decide) positive).mpr small
  rw [zeroPad, length_append, length_replicate]
  omega

private theorem zero_pad_ne_nil (width n : Nat) : zeroPad width n ≠ [] := by
  simp [zeroPad, Nat.toDigits_ne_nil]

theorem of_digits_zero_pad (width n : Nat) : Nat.ofDigitChars 10 (zeroPad width n) 0 = n := by
  simp [zeroPad, Nat.ofDigitChars_append]

private theorem suffix_after_dash_append (plain : '-' ∉ suffix) :
    suffixAfterDash (front ++ '-' :: suffix) = suffix := by
  have stops : ∀ char ∈ suffix.reverse, decide (char ≠ '-') = true := by
    intro char member
    have inside : char ∈ suffix := mem_reverse.mp member
    exact decide_eq_true (fun dash => plain (dash ▸ inside))
  simp only [suffixAfterDash, reverse_append, reverse_cons, append_assoc]
  rw [takeWhile_append_of_pos stops]
  simp

/-- Recovery reads back exactly the sequence number the id was made with. -/
theorem seq_of_client_id (mode : ExecutionMode) (at_ : Timestamp) (seq : Nat) :
    seqOf (clientIdText mode at_ seq) = .ok seq := by
  have plain : '-' ∉ zeroPad 6 seq := fun member => by
    have digit := zero_pad_digits member
    simp at digit
  have suffix : suffixAfterDash (clientIdText mode at_ seq).toList = zeroPad 6 seq := by
    rw [clientIdText, String.toList_ofList]
    exact suffix_after_dash_append plain
  have dashed : '-' ∈ (clientIdText mode at_ seq).toList := by
    rw [clientIdText, String.toList_ofList]
    simp
  have digits : (zeroPad 6 seq).all Char.isDigit = true :=
    all_eq_true.mpr fun _ member => zero_pad_digits member
  simp [seqOf, suffix, dashed, zero_pad_ne_nil, digits, of_digits_zero_pad]

example : clientIdText .live (20707 * 86400000000 + 32400000000) 7 = "live-20260911-000007" := by
  decide

example : timeText (32400000000 - 5000000) = "085955" := by decide

end KrxAlpha
