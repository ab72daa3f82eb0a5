/-!
# Decimal digits

What a written number looks like to a reader: digits only, none of them a needless zero in front,
and a run of digits ends where something else follows.
-/

namespace TypedModel.Text

/-- Written numbers consist of digits. -/
theorem toDigits_all (n : Nat) : (Nat.toDigits 10 n).all Char.isDigit = true :=
  List.all_eq_true.mpr fun _ h => Nat.isDigit_of_mem_toDigits (by decide) (by decide) h

/-- Zeros are digits. -/
theorem replicate_zero_all (n : Nat) : (List.replicate n '0').all Char.isDigit = true := by
  refine List.all_eq_true.mpr fun c h => ?_
  rw [List.eq_of_mem_replicate h]
  rfl

/-- What follows a text does not change how it starts. -/
theorem head?_append_ne {front : List Char} {c : Char} (hne : front ≠ [])
    (h : front.head? ≠ some c) (rest : List Char) : (front ++ rest).head? ≠ some c := by
  obtain ⟨first, cs, rfl⟩ := List.exists_cons_of_ne_nil hne
  exact h

/-- A written positive number does not start with zero. -/
theorem toDigits_head?_ne {n : Nat} (hn : 0 < n) : (Nat.toDigits 10 n).head? ≠ some '0' := by
  induction n using Nat.strongRecOn with
  | ind n ih =>
    rw [Nat.toDigits_eq_if (by decide)]
    split
    · rw [List.head?_cons]
      intro h
      have := Nat.digitChar_eq_zero.mp (Option.some.inj h)
      omega
    · have hfront := ih (n / 10) (by omega) (by omega)
      exact head?_append_ne Nat.toDigits_ne_nil hfront _

/-- Nor does it with zeros behind it. -/
theorem head?_append_zeros_ne {n : Nat} (hn : 0 < n) (k : Nat) :
    (Nat.toDigits 10 n ++ List.replicate k '0').head? ≠ some '0' :=
  head?_append_ne Nat.toDigits_ne_nil (toDigits_head?_ne hn) _

/-- Whether a text goes on without a digit. -/
def noDigitAhead (rest : List Char) : Bool := !(rest.head?.any Char.isDigit)

/-- A run of digits is read up to its end. -/
theorem takeWhile_digits {digits rest : List Char} (hd : digits.all Char.isDigit = true)
    (hr : noDigitAhead rest = true) : (digits ++ rest).takeWhile Char.isDigit = digits := by
  rw [List.takeWhile_append_of_pos (List.all_eq_true.mp hd)]
  cases rest with
  | nil => exact List.append_nil digits
  | cons c rest =>
    have hc : c.isDigit = false := by simpa [noDigitAhead] using hr
    rw [List.takeWhile_cons, hc]
    exact List.append_nil digits

/-- Behind a run of digits the text goes on. -/
theorem dropWhile_digits {digits rest : List Char} (hd : digits.all Char.isDigit = true)
    (hr : noDigitAhead rest = true) : (digits ++ rest).dropWhile Char.isDigit = rest := by
  rw [List.dropWhile_append_of_pos (List.all_eq_true.mp hd)]
  cases rest with
  | nil => rfl
  | cons c rest =>
    have hc : c.isDigit = false := by simpa [noDigitAhead] using hr
    rw [List.dropWhile_cons, hc]
    rfl

end TypedModel.Text
