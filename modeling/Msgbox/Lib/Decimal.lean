import Mathlib.Data.List.Induction

/-!
# Decimal numerals

A numeral is a list of at least one digit. Without a leading zero it is the one that `Nat.toDigits`
writes for its value.

## Key results

- `isNumeral_toDigits`, `value_toDigits`: what is written is a numeral of the number
- `toDigits_value`: a numeral without a leading zero is what is written for its value
-/

namespace Decimal

/-- At least one digit, and nothing else. -/
def IsNumeral (ds : List Char) : Prop := ds ≠ [] ∧ ∀ ch ∈ ds, ch.isDigit = true

instance (ds : List Char) : Decidable (IsNumeral ds) :=
  have : Decidable (∀ ch ∈ ds, ch.isDigit = true) := List.decidableBAll _ ds
  inferInstanceAs (Decidable (ds ≠ [] ∧ ∀ ch ∈ ds, ch.isDigit = true))

/-- The number that a numeral denotes. -/
def value (ds : List Char) : Nat := Nat.ofDigitChars 10 ds 0

/-- The value as it is usually computed. -/
theorem foldl_eq_value (ds : List Char) :
    ds.foldl (fun acc ch => acc * 10 + (ch.toNat - '0'.toNat)) 0 = value ds := by
  rw [value, Nat.ofDigitChars_eq_foldl]
  simp only [Nat.mul_comm]

@[simp] theorem value_toDigits (n : Nat) : value (Nat.toDigits 10 n) = n :=
  Nat.ofDigitChars_ten_toDigits

theorem isNumeral_toDigits (n : Nat) : IsNumeral (Nat.toDigits 10 n) :=
  ⟨Nat.toDigits_ne_nil, fun _ hch => Nat.isDigit_of_mem_toDigits (by decide) (by decide) hch⟩

/-- One more digit. -/
theorem value_concat (ds : List Char) (ch : Char) :
    value (ds ++ [ch]) = 10 * value ds + (ch.toNat - '0'.toNat) := by
  simp [value, Nat.ofDigitChars_append, Nat.ofDigitChars_cons]

/-- A digit is the character for a number below ten. -/
theorem exists_digitChar {ch : Char} (h : ch.isDigit = true) : ∃ d < 10, ch = d.digitChar := by
  obtain ⟨hlow, hhigh⟩ := Char.isDigit_iff_toNat.mp h
  have hcodes : ∀ d < 10, d.digitChar.toNat = 48 + d := by decide
  refine ⟨ch.toNat - 48, ?_, ?_⟩
  · have hnine : '9'.toNat = 57 := rfl
    omega
  · apply Char.toNat_inj.mp
    have hzero : '0'.toNat = 48 := rfl
    have hnine : '9'.toNat = 57 := rfl
    rw [hcodes _ (by omega)]
    omega

/-- What is written begins with a zero for zero only. -/
theorem head_toDigits {n : Nat} (h : 0 < n) : (Nat.toDigits 10 n).head? ≠ some '0' := by
  induction n using Nat.strongRecOn with
  | ind n ih =>
    rw [Nat.toDigits_eq_if (by decide)]
    split
    · intro hhead
      have hzero := Nat.digitChar_eq_zero.mp (Option.some.inj hhead)
      omega
    · rename_i hge
      have hpos : 0 < n / 10 := by omega
      have hrest := ih (n / 10) (by omega) hpos
      obtain ⟨first, rest, heq⟩ :=
        List.exists_cons_of_ne_nil (Nat.toDigits_ne_nil (n := n / 10) (b := 10))
      rw [heq] at hrest ⊢
      exact hrest

/-- A numeral without a leading zero is positive. -/
theorem value_pos {ds : List Char} (h : IsNumeral ds) (hzero : ds.head? ≠ some '0') :
    0 < value ds := by
  induction ds using List.reverseRecOn with
  | nil => exact absurd rfl h.1
  | append_singleton ds ch ih =>
    rw [value_concat]
    cases ds with
    | nil =>
      obtain ⟨d, hd, rfl⟩ := exists_digitChar (h.2 ch (by simp))
      rw [List.nil_append, List.head?_cons] at hzero
      have hne : d ≠ 0 := fun hd => hzero (congrArg some (Nat.digitChar_eq_zero.mpr hd))
      have hsub := Nat.toNat_digitChar_sub_48_of_lt_ten hd
      have hval : d.digitChar.toNat - '0'.toNat = d := hsub
      omega
    | cons first rest =>
      have hrest : IsNumeral (first :: rest) :=
        ⟨List.cons_ne_nil _ _, fun c hc => h.2 c (List.mem_append_left _ hc)⟩
      have hpos := ih hrest hzero
      omega

/-- A numeral without a leading zero is the one that is written for its value. -/
theorem toDigits_value {ds : List Char} (h : IsNumeral ds)
    (hzero : ds.length = 1 ∨ ds.head? ≠ some '0') : Nat.toDigits 10 (value ds) = ds := by
  induction ds using List.reverseRecOn with
  | nil => exact absurd rfl h.1
  | append_singleton ds ch ih =>
    obtain ⟨d, hd, rfl⟩ := exists_digitChar (h.2 ch (by simp))
    have hval : d.digitChar.toNat - '0'.toNat = d := Nat.toNat_digitChar_sub_48_of_lt_ten hd
    rw [value_concat, hval]
    cases ds with
    | nil =>
      rw [List.nil_append]
      show Nat.toDigits 10 (10 * 0 + d) = _
      rw [Nat.mul_zero, Nat.zero_add, Nat.toDigits_of_lt_base hd]
    | cons first rest =>
      have hrest : IsNumeral (first :: rest) :=
        ⟨List.cons_ne_nil _ _, fun c hc => h.2 c (List.mem_append_left _ hc)⟩
      have hhead : (first :: rest).head? ≠ some '0' := by
        rcases hzero with hlen | hhead
        · simp at hlen
        · exact hhead
      rw [← Nat.toDigits_append_toDigits (by decide) (value_pos hrest hhead) hd,
        ih hrest (.inr hhead), Nat.toDigits_of_lt_base hd]

end Decimal
