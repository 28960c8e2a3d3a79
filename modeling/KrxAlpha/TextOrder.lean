import Mathlib.Algebra.Order.Ring.Nat

/-! Orders on texts: decimal texts of one length, and records compared by a text first. -/
namespace KrxAlpha.TextOrder
open List

theorem digit_iff {char : Char} : char.isDigit = true ↔ 48 ≤ char.toNat ∧ char.toNat ≤ 57 := by
  simp only [Char.isDigit, Bool.and_eq_true, decide_eq_true_eq, UInt32.le_iff_toNat_le]
  rfl

private theorem of_digits_cons (char : Char) (rest : List Char) :
    Nat.ofDigitChars 10 (char :: rest) 0 =
      10 ^ rest.length * (char.toNat - 48) + Nat.ofDigitChars 10 rest 0 := by
  rw [Nat.ofDigitChars_cons, Nat.ofDigitChars_eq_ofDigitChars_zero]
  simp

private theorem of_digits_lt (plain : ∀ char ∈ digits, char.isDigit = true) :
    Nat.ofDigitChars 10 digits 0 < 10 ^ digits.length := by
  induction digits with
  | nil => simp
  | cons char rest ih =>
    obtain ⟨digit, others⟩ := forall_mem_cons.mp plain
    have small := digit_iff.mp digit
    have tail := ih others
    have head : 10 ^ rest.length * (char.toNat - 48) ≤ 10 ^ rest.length * 9 :=
      Nat.mul_le_mul_left _ (by omega)
    rw [of_digits_cons, length_cons, pow_succ]
    omega

/-- Decimal texts of one length are ordered as the numbers they spell. -/
theorem of_digits_mono (size : first.length = second.length)
    (plain : ∀ char ∈ first, char.isDigit = true) (other : ∀ char ∈ second, char.isDigit = true)
    (less : first < second) : Nat.ofDigitChars 10 first 0 < Nat.ofDigitChars 10 second 0 := by
  induction first generalizing second with
  | nil =>
    cases second with
    | nil => exact absurd less (List.lt_irrefl _)
    | cons char rest => simp at size
  | cons char rest ih =>
    cases second with
    | nil => simp at size
    | cons bigger tail =>
      obtain ⟨digit, early⟩ := forall_mem_cons.mp plain
      obtain ⟨-, late⟩ := forall_mem_cons.mp other
      have length : rest.length = tail.length := by simpa using size
      rw [of_digits_cons, of_digits_cons, length]
      rcases cons_lt_cons_iff.mp less with lower | ⟨rfl, behind⟩
      · have below := of_digits_lt early
        have step : char.toNat < bigger.toNat := lower
        have gap : 10 ^ tail.length * (char.toNat - 48 + 1) ≤ 10 ^ tail.length * (bigger.toNat - 48) :=
          Nat.mul_le_mul_left _ (by have := digit_iff.mp digit; omega)
        rw [Nat.mul_add, Nat.mul_one] at gap
        rw [length] at below
        omega
      · have values := ih length early late behind
        omega

theorem digits_lt_iff (size : first.length = second.length)
    (plain : ∀ char ∈ first, char.isDigit = true) (other : ∀ char ∈ second, char.isDigit = true) :
    first < second ↔ Nat.ofDigitChars 10 first 0 < Nat.ofDigitChars 10 second 0 := by
  refine ⟨of_digits_mono size plain other, fun less => ?_⟩
  by_contra unordered
  rcases List.le_iff_lt_or_eq.mp (List.not_lt.mp unordered) with greater | rfl
  · have := of_digits_mono size.symm other plain greater
    omega
  · omega

/-! ### Records compared by a text first -/

section Lexicographic

variable {α : Type} (text : α → String) (behind : α → α → Prop)

/-- The text decides, and behind equal texts another order. -/
def TextFirst (first second : α) : Prop :=
  text first < text second ∨ (text first = text second ∧ behind first second)

theorem text_first_total (total : ∀ first second, behind first second ∨ behind second first)
    (first second : α) : TextFirst text behind first second ∨ TextFirst text behind second first := by
  unfold TextFirst
  by_cases less : text first < text second
  · exact .inl (.inl less)
  · by_cases more : text second < text first
    · exact .inr (.inl more)
    · have same := String.le_antisymm (String.not_lt.mp more) (String.not_lt.mp less)
      rcases total first second with order | order
      · exact .inl (.inr ⟨same, order⟩)
      · exact .inr (.inr ⟨same.symm, order⟩)

theorem text_first_trans (trans : ∀ first second third, behind first second → behind second third →
    behind first third) (first second third : α) (early : TextFirst text behind first second)
    (late : TextFirst text behind second third) : TextFirst text behind first third := by
  unfold TextFirst at early late ⊢
  rcases early with less | ⟨same, order⟩
  · rcases late with more | ⟨equal, -⟩
    · exact .inl (String.lt_trans less more)
    · exact .inl (equal ▸ less)
  · rcases late with more | ⟨equal, later⟩
    · exact .inl (same ▸ more)
    · exact .inr ⟨same.trans equal, trans _ _ _ order later⟩

end Lexicographic

end KrxAlpha.TextOrder
