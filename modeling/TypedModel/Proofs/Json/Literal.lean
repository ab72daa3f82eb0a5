import TypedModel.Json.Printer
import TypedModel.Json.Token
import TypedModel.Proofs.Double.Shortest
import TypedModel.Proofs.Text.Digits

/-!
# Numbers read back

A written number of a document is a literal in normal form, and reading the literal gives the
number: an integer in range as itself, and a finite double as the double of its shortest decimal.
-/

namespace TypedModel.Json

open Text

/-! ## Values of digit strings -/

/-- A written number has its digits' value. -/
theorem digitsToNat_toDigits (n : Nat) : digitsToNat (Nat.toDigits 10 n) = n :=
  Nat.ofDigitChars_ten_toDigits

/-- Zeros in front do not count. -/
theorem digitsToNat_zeros_append (k : Nat) (digits : List Char) :
    digitsToNat (List.replicate k '0' ++ digits) = digitsToNat digits := by
  show Nat.ofDigitChars 10 _ 0 = Nat.ofDigitChars 10 _ 0
  rw [Nat.ofDigitChars_append, Nat.ofDigitChars_replicate_zero, Nat.mul_zero]

/-- Zeros at the end multiply by ten. -/
theorem digitsToNat_append_zeros (digits : List Char) (k : Nat) :
    digitsToNat (digits ++ List.replicate k '0') = digitsToNat digits * 10 ^ k := by
  show Nat.ofDigitChars 10 _ 0 = Nat.ofDigitChars 10 _ 0 * _
  rw [Nat.ofDigitChars_append, Nat.ofDigitChars_replicate_zero, Nat.mul_comm]

/-! ## Literals -/

namespace Literal

/-- Characters of a sign. -/
def writtenSign (negative : Bool) : List Char := if negative then ['-'] else []

/-- Characters of a fraction. -/
def writtenFraction : Option (List Char) → List Char
  | none => []
  | some digits => '.' :: digits

/-- Characters of an exponent. -/
def writtenExponent : Option (Bool × List Char) → List Char
  | none => []
  | some (negative, digits) => 'e' :: (if negative then '-' else '+') :: digits

/-- Characters of a literal. -/
def written (l : Literal) : List Char :=
  writtenSign l.negative ++ (l.whole ++ (writtenFraction l.fraction ++ writtenExponent l.exponent))

/-- The form that a literal has to have. -/
structure WellFormed (l : Literal) : Prop where
  /-- Digits stand in front of the point. -/
  whole_ne_nil : l.whole ≠ []
  /-- Only digits stand in front of the point. -/
  whole_digits : l.whole.all Char.isDigit = true
  /-- No zero stands in front of other digits. -/
  no_leading_zero : l.whole.head? = some '0' → l.whole.length ≤ 1
  /-- Digits and nothing else stand behind a point. -/
  fraction_digits : ∀ digits, l.fraction = some digits →
    digits ≠ [] ∧ digits.all Char.isDigit = true
  /-- Digits and nothing else stand in an exponent. -/
  exponent_digits : ∀ negative digits, l.exponent = some (negative, digits) →
    digits ≠ [] ∧ digits.all Char.isDigit = true

/-- No digit starts an exponent. -/
theorem noDigitAhead_exponent (e : Option (Bool × List Char)) :
    noDigitAhead (writtenExponent e) = true := by
  rcases e with - | ⟨negative, digits⟩ <;> rfl

/-- No digit starts a fraction or an exponent. -/
theorem noDigitAhead_fraction (f : Option (List Char)) (e : Option (Bool × List Char)) :
    noDigitAhead (writtenFraction f ++ writtenExponent e) = true := by
  cases f with
  | none => exact noDigitAhead_exponent e
  | some digits => rfl

/-- A written exponent is read. -/
theorem exponentOf?_written {e : Option (Bool × List Char)}
    (h : ∀ negative digits, e = some (negative, digits) →
      digits ≠ [] ∧ digits.all Char.isDigit = true) :
    exponentOf? (writtenExponent e) = some e := by
  rcases e with - | ⟨negative, digits⟩
  · rfl
  · have hdigits := h negative digits rfl
    cases negative with
    | false => simp only [writtenExponent, exponentOf?]; simp [hdigits]
    | true => simp only [writtenExponent, exponentOf?]; simp [hdigits]

/-- Digits are read up to what follows them. -/
theorem spanDigits_append {digits rest : List Char} (hd : digits.all Char.isDigit = true)
    (hr : noDigitAhead rest = true) : spanDigits (digits ++ rest) = (digits, rest) := by
  rw [spanDigits, takeWhile_digits hd hr, dropWhile_digits hd hr]

/-- A literal without a sign in front starts with a digit. -/
theorem whole_ne_minus {l : Literal} (h : l.WellFormed) (tail rest : List Char) :
    l.whole ++ tail ≠ '-' :: rest := by
  intro heq
  obtain ⟨c, cs, hc⟩ := List.exists_cons_of_ne_nil h.whole_ne_nil
  have hdigit := List.all_eq_true.mp h.whole_digits c (by rw [hc]; exact List.mem_cons_self)
  rw [hc, List.cons_append] at heq
  rw [(List.cons.inj heq).1] at hdigit
  exact absurd hdigit (by decide)

/-- A written literal is read. -/
theorem ofChars?_written {l : Literal} (h : l.WellFormed) : ofChars? l.written = some l := by
  have hspan := spanDigits_append h.whole_digits (noDigitAhead_fraction l.fraction l.exponent)
  have hminus := whole_ne_minus h (writtenFraction l.fraction ++ writtenExponent l.exponent)
  have hexponent := exponentOf?_written h.exponent_digits
  have hzero : ¬ (l.whole = [] ∨ (l.whole.head? = some '0' ∧ 1 < l.whole.length)) := by
    rintro (hnil | ⟨hhead, hlength⟩)
    · exact h.whole_ne_nil hnil
    · have := h.no_leading_zero hhead
      omega
  have hfraction := h.fraction_digits
  obtain ⟨negative, whole, fraction, exponent⟩ := l
  rw [written]
  cases negative
  case' true => rw [writtenSign, if_pos rfl, List.singleton_append, ofChars?]
  case' false => rw [writtenSign, if_neg Bool.false_ne_true, List.nil_append, ofChars?.eq_2 _ hminus]
  all_goals
    simp only at hspan hzero hexponent hfraction ⊢
    simp only [hspan, if_neg hzero]
    cases fraction with
    | none =>
      rcases exponent with - | ⟨sign, digits⟩
      · rfl
      · exact congrArg (Option.map (Literal.mk _ whole none)) hexponent
    | some digits =>
      obtain ⟨hne, hdigits⟩ := hfraction digits rfl
      have hspan' := spanDigits_append hdigits (noDigitAhead_exponent exponent)
      simp only [writtenFraction, List.cons_append, hspan', if_neg hne, hexponent, Option.map_some]

/-- A literal starts with a minus sign or a digit. -/
theorem exists_written_eq_cons {l : Literal} (h : l.WellFormed) :
    ∃ c rest, l.written = c :: rest ∧ (c = '-' ∨ c.isDigit = true) := by
  obtain ⟨c, cs, hc⟩ := List.exists_cons_of_ne_nil h.whole_ne_nil
  have hdigit := List.all_eq_true.mp h.whole_digits c (by rw [hc]; exact List.mem_cons_self)
  rw [written, hc]
  cases l.negative with
  | true => exact ⟨'-', _, rfl, Or.inl rfl⟩
  | false => exact ⟨c, _, rfl, Or.inr hdigit⟩

/-- A literal is none of the names. -/
theorem ofList_written_ne {l : Literal} (h : l.WellFormed) {name : String} {c : Char}
    {rest : List Char} (hn : name.toList = c :: rest) (hc : c ≠ '-') (hd : c.isDigit = false) :
    String.ofList l.written ≠ name := by
  intro heq
  obtain ⟨first, cs, hfirst, hkind⟩ := exists_written_eq_cons h
  rw [← heq, String.toList_ofList, hfirst] at hn
  obtain rfl := (List.cons.inj hn).1
  rcases hkind with hminus | hdigit
  · exact hc hminus
  · rw [hd] at hdigit
    cases hdigit

/-- The token of a written literal is its value. -/
theorem ofWord_written {l : Literal} (h : l.WellFormed) :
    Token.ofWord l.written = .scalar l.toJson := by
  unfold Token.ofWord
  split
  next heq => exact absurd heq (ofList_written_ne h rfl (by decide) (by decide))
  next heq => exact absurd heq (ofList_written_ne h rfl (by decide) (by decide))
  next heq => exact absurd heq (ofList_written_ne h rfl (by decide) (by decide))
  next => rw [ofChars?_written h]

/-- Digits continue a word. -/
theorem isWordChar_of_isDigit {c : Char} (h : c.isDigit = true) : isWordChar c = true := by
  simp [isWordChar, Char.isAlphanum, h]

/-- A literal is one word. -/
theorem isWordChar_of_mem_written {l : Literal} (h : l.WellFormed) {c : Char}
    (hc : c ∈ l.written) : isWordChar c = true := by
  simp only [written, List.mem_append] at hc
  rcases hc with hsign | hwhole | hfraction | hexponent
  · cases hneg : l.negative with
    | false =>
      rw [hneg] at hsign
      cases hsign
    | true =>
      rw [hneg] at hsign
      rw [List.mem_singleton.mp hsign]
      rfl
  · exact isWordChar_of_isDigit (List.all_eq_true.mp h.whole_digits c hwhole)
  · cases hf : l.fraction with
    | none =>
      rw [hf] at hfraction
      cases hfraction
    | some digits =>
      rw [hf] at hfraction
      rcases List.mem_cons.mp hfraction with rfl | hmem
      · rfl
      · exact isWordChar_of_isDigit (List.all_eq_true.mp (h.fraction_digits digits hf).2 c hmem)
  · cases he : l.exponent with
    | none =>
      rw [he] at hexponent
      cases hexponent
    | some e =>
      obtain ⟨negative, digits⟩ := e
      rw [he] at hexponent
      rcases List.mem_cons.mp hexponent with rfl | hmem
      · rfl
      rcases List.mem_cons.mp hmem with rfl | hmem
      · cases negative <;> rfl
      · have hdigits := (h.exponent_digits negative digits he).2
        exact isWordChar_of_isDigit (List.all_eq_true.mp hdigits c hmem)

end Literal

/-! ## Numbers -/

/-- Numbers that have a form of their own: integers in range and finite doubles. -/
def Number.isWritable : Number → Bool
  | .int n => -2 ^ 63 ≤ n && n < 2 ^ 64
  | .double (.finite _ _) => true
  | .double _ => false

/-- An integer in range is written as a literal of that value. -/
theorem exists_literal_int {n : Int} (h : (Number.int n).isWritable = true) :
    ∃ l : Literal, l.WellFormed ∧ l.written = (Number.int n).render ∧
      l.toJson = .number (.int n) := by
  simp only [Number.isWritable, Bool.and_eq_true, decide_eq_true_eq] at h
  refine ⟨⟨n < 0, Nat.toDigits 10 n.natAbs, none, none⟩, ⟨Nat.toDigits_ne_nil, toDigits_all _, ?_,
    by simp, by simp⟩, ?_, ?_⟩
  · intro hhead
    rcases Nat.eq_zero_or_pos n.natAbs with hz | hpos
    · simp [hz]
    · exact absurd hhead (toDigits_head?_ne hpos)
  · simp [Literal.written, Literal.writtenSign, Literal.writtenFraction, Literal.writtenExponent,
      Number.render]
  · have hnat : (digitsToNat (Nat.toDigits 10 n.natAbs) : Int) = n.natAbs := by
      rw [digitsToNat_toDigits]
    simp only [Literal.toJson, hnat, Option.isNone_none, Bool.true_and, decide_eq_true_eq]
    by_cases hn : n < 0
    · rw [if_pos hn, if_pos hn, if_pos (by simp only [Bool.and_eq_true, decide_eq_true_eq]; omega)]
      rw [ofInt, show -(n.natAbs : Int) = n by omega]
    · rw [if_neg hn, if_neg hn, if_pos (by simp only [decide_eq_true_eq]; omega)]
      rw [ofInt, show (n.natAbs : Int) = n by omega]

/-! ## Doubles -/

namespace Literal

/-- Value of an exponent. -/
def exponentValue : Option (Bool × List Char) → Int
  | some (true, digits) => -(digitsToNat digits : Int)
  | some (false, digits) => digitsToNat digits
  | none => 0

/-- A literal of few digits is read by all of them. -/
theorem toDouble_of_length_le {l : Literal}
    (h : l.whole.length + (l.fraction.getD []).length ≤ digitLimit) :
    l.toDouble = Double.ofDecimal l.negative (digitsToNat (l.whole ++ l.fraction.getD []))
      (exponentValue l.exponent - (l.fraction.getD []).length) := by
  simp only [toDouble, if_pos h]
  rcases l.exponent with - | ⟨- | -, digits⟩ <;> rfl

/-- A literal for the digits of `m`, the leading one standing for `10 ^ lead`. -/
structure Represents (l : Literal) (negative : Bool) (m : Nat) (lead : Int) : Prop where
  /-- It has the form of a literal. -/
  wellFormed : l.WellFormed
  /-- It reads as the decimal. -/
  toDouble_eq : l.toDouble = Double.ofDecimal negative m (lead + 1 - Double.digitCount m)
  /-- It is not written like an integer. -/
  not_int : (l.fraction.isNone && l.exponent.isNone) = false

/-- Below one the digits stand behind the point and zeros. -/
theorem exists_represents_small (negative : Bool) {m : Nat} {lead : Int}
    (hlength : Double.digitCount m ≤ 18) (hlow : -5 ≤ lead) (hhigh : lead < 0) :
    ∃ l : Literal, l.Represents negative m lead ∧
      l.written = writtenSign negative ++ Double.positional (Nat.toDigits 10 m) lead := by
  have hcount : (Nat.toDigits 10 m).length = Double.digitCount m := rfl
  have hfraction : (List.replicate (lead.natAbs - 1) '0' ++ Nat.toDigits 10 m).length =
      lead.natAbs - 1 + Double.digitCount m := by
    rw [List.length_append, List.length_replicate, hcount]
  refine ⟨⟨negative, ['0'], some (List.replicate (lead.natAbs - 1) '0' ++ Nat.toDigits 10 m), none⟩,
    ⟨⟨by simp, rfl, by simp, ?_, by simp⟩, ?_, rfl⟩, ?_⟩
  · rintro digits ⟨⟩
    refine ⟨by simp, ?_⟩
    rw [List.all_append, replicate_zero_all, toDigits_all]
    rfl
  · have hshort : 1 + (lead.natAbs - 1 + Double.digitCount m) ≤ digitLimit := by
      rw [digitLimit]
      omega
    rw [toDouble_of_length_le (by simpa [hfraction] using hshort)]
    have hzeros : ['0'] ++ (List.replicate (lead.natAbs - 1) '0' ++ Nat.toDigits 10 m) =
        List.replicate (lead.natAbs - 1 + 1) '0' ++ Nat.toDigits 10 m := rfl
    simp only [Option.getD_some, hfraction]
    rw [hzeros, digitsToNat_zeros_append, digitsToNat_toDigits, exponentValue]
    congr 1
    omega
  · simp [written, writtenFraction, writtenExponent, Double.positional, hhigh]

/-- With the point behind the last digit, zeros fill up to the point. -/
theorem exists_represents_whole (negative : Bool) {m : Nat} {lead : Int} (hm : 0 < m)
    (hlow : 0 ≤ lead) (hhigh : lead ≤ 15) (hpoint : Double.digitCount m ≤ lead.natAbs + 1) :
    ∃ l : Literal, l.Represents negative m lead ∧
      l.written = writtenSign negative ++ Double.positional (Nat.toDigits 10 m) lead := by
  have hcount : (Nat.toDigits 10 m).length = Double.digitCount m := rfl
  obtain ⟨k, hk⟩ : ∃ k, lead.natAbs + 1 = Double.digitCount m + k :=
    ⟨lead.natAbs + 1 - Double.digitCount m, by omega⟩
  have hlength : (Nat.toDigits 10 m ++ List.replicate k '0').length = lead.natAbs + 1 := by
    rw [List.length_append, List.length_replicate, hcount, hk]
  refine ⟨⟨negative, Nat.toDigits 10 m ++ List.replicate k '0', some ['0'], none⟩,
    ⟨⟨by simp, ?_, ?_, ?_, by simp⟩, ?_, rfl⟩, ?_⟩
  · rw [List.all_append, replicate_zero_all, toDigits_all]
    rfl
  · exact fun hhead => absurd hhead (head?_append_zeros_ne hm k)
  · rintro digits ⟨⟩
    exact ⟨by simp, rfl⟩
  · have hshort : lead.natAbs + 1 + 1 ≤ digitLimit := by
      rw [digitLimit]
      omega
    rw [toDouble_of_length_le (by simpa [hcount, hk] using hshort)]
    have hzeros : Nat.toDigits 10 m ++ List.replicate k '0' ++ ['0'] =
        Nat.toDigits 10 m ++ List.replicate (k + 1) '0' := by
      rw [List.append_assoc, List.replicate_succ']
    simp only [Option.getD_some]
    rw [hzeros, digitsToNat_append_zeros, digitsToNat_toDigits, Double.ofDecimal_mul_pow _ hm]
    congr 1
    simp only [exponentValue, List.length_singleton]
    omega
  · have hdrop : (Nat.toDigits 10 m ++ List.replicate k '0').drop (lead.natAbs + 1) = [] :=
      List.drop_of_length_le (by omega)
    have hpad : lead.natAbs + 1 - (Nat.toDigits 10 m).length = k := by omega
    simp only [Double.positional, if_neg (Int.not_lt.mpr hlow), hpad, hdrop]
    simp [written, writtenFraction, writtenExponent]

/-- With the point among the digits, they stand on both sides of it. -/
theorem exists_represents_split (negative : Bool) {m : Nat} {lead : Int} (hm : 0 < m)
    (hlength : Double.digitCount m ≤ 18) (hlow : 0 ≤ lead)
    (hpoint : lead.natAbs + 1 < Double.digitCount m) :
    ∃ l : Literal, l.Represents negative m lead ∧
      l.written = writtenSign negative ++ Double.positional (Nat.toDigits 10 m) lead := by
  have hcount : (Nat.toDigits 10 m).length = Double.digitCount m := rfl
  have hall := List.all_eq_true.mp (toDigits_all m)
  have htake : ((Nat.toDigits 10 m).take (lead.natAbs + 1)).length = lead.natAbs + 1 := by
    rw [List.length_take]
    omega
  have hdrop : ((Nat.toDigits 10 m).drop (lead.natAbs + 1)).length =
      Double.digitCount m - (lead.natAbs + 1) := by
    rw [List.length_drop, hcount]
  have hfront : (Nat.toDigits 10 m).take (lead.natAbs + 1) ≠ [] :=
    List.ne_nil_of_length_pos (by omega)
  have hback : (Nat.toDigits 10 m).drop (lead.natAbs + 1) ≠ [] :=
    List.ne_nil_of_length_pos (by omega)
  refine ⟨⟨negative, (Nat.toDigits 10 m).take (lead.natAbs + 1),
      some ((Nat.toDigits 10 m).drop (lead.natAbs + 1)), none⟩,
    ⟨⟨hfront, ?_, ?_, ?_, by simp⟩, ?_, rfl⟩, ?_⟩
  · exact List.all_eq_true.mpr fun c hc => hall c (List.mem_of_mem_take hc)
  · intro hhead
    rw [List.head?_take, if_neg (by omega)] at hhead
    exact absurd hhead (toDigits_head?_ne hm)
  · rintro digits ⟨⟩
    exact ⟨hback, List.all_eq_true.mpr fun c hc => hall c (List.mem_of_mem_drop hc)⟩
  · rw [toDouble_of_length_le (by rw [Option.getD_some, htake, hdrop, digitLimit]; omega)]
    simp only [Option.getD_some, List.take_append_drop, hdrop, digitsToNat_toDigits, exponentValue]
    congr 1
    omega
  · have hpad : lead.natAbs + 1 - (Nat.toDigits 10 m).length = 0 := by omega
    obtain ⟨c, rest, hcons⟩ := List.exists_cons_of_ne_nil hback
    simp only [Double.positional, if_neg (Int.not_lt.mpr hlow), hpad, List.replicate_zero,
      List.append_nil, hcons, written, writtenFraction, writtenExponent]

/-- An exponent is read back from its sign and its digits. -/
theorem exponentValue_toDigits (lead : Int) :
    exponentValue (some (decide (lead < 0), Nat.toDigits 10 lead.natAbs)) = lead := by
  by_cases hneg : lead < 0
  · simp only [hneg, decide_true, exponentValue, digitsToNat_toDigits]
    omega
  · simp only [hneg, decide_false, exponentValue, digitsToNat_toDigits]
    omega

/-- In scientific form the point stands behind the first digit. -/
theorem exists_represents_scientific (negative : Bool) {m : Nat} (lead : Int) (hm : 0 < m)
    (hlength : Double.digitCount m ≤ 18) :
    ∃ l : Literal, l.Represents negative m lead ∧
      l.written = writtenSign negative ++ Double.scientific true (Nat.toDigits 10 m) lead := by
  have hcount : (Nat.toDigits 10 m).length = Double.digitCount m := rfl
  have hall := toDigits_all m
  have hvalue := digitsToNat_toDigits m
  have hhead := toDigits_head?_ne hm
  have hexponent := exponentValue_toDigits lead
  have hdigits : ∀ (negative : Bool) (digits : List Char),
      some (decide (lead < 0), Nat.toDigits 10 lead.natAbs) = some (negative, digits) →
        digits ≠ [] ∧ digits.all Char.isDigit = true := by
    rintro _ _ ⟨⟩
    exact ⟨Nat.toDigits_ne_nil, toDigits_all _⟩
  obtain ⟨d, rest, hcons⟩ := List.exists_cons_of_ne_nil (Nat.toDigits_ne_nil (n := m) (b := 10))
  rw [hcons] at hcount hall hvalue hhead ⊢
  rw [List.all_cons, Bool.and_eq_true] at hall
  rw [List.length_cons] at hcount
  cases rest with
  | nil =>
    refine ⟨⟨negative, [d], none, some (lead < 0, Nat.toDigits 10 lead.natAbs)⟩,
      ⟨⟨by simp, by simp [hall.1], by simp, by simp, hdigits⟩, ?_, rfl⟩, ?_⟩
    · rw [toDouble_of_length_le (by simp [digitLimit]), hexponent]
      simp only [Option.getD_none, List.append_nil, hvalue]
      congr 1
      simp only [List.length_nil] at hcount ⊢
      omega
    · by_cases hneg : lead < 0 <;>
        simp [written, writtenFraction, writtenExponent, Double.scientific, hneg]
  | cons e rest =>
    refine ⟨⟨negative, [d], some (e :: rest), some (lead < 0, Nat.toDigits 10 lead.natAbs)⟩,
      ⟨⟨by simp, by simp [hall.1], by simp, ?_, hdigits⟩, ?_, rfl⟩, ?_⟩
    · rintro digits ⟨⟩
      exact ⟨by simp, hall.2⟩
    · have hshort : 1 + (e :: rest).length ≤ digitLimit := by
        rw [digitLimit]
        omega
      rw [toDouble_of_length_le (by simpa [Nat.add_comm] using hshort), hexponent]
      simp only [Option.getD_some, List.singleton_append, hvalue]
      congr 1
      omega
    · by_cases hneg : lead < 0 <;>
        simp [written, writtenFraction, writtenExponent, Double.scientific, hneg]

/-- The digits are written in the layout of documents. -/
theorem exists_represents (negative : Bool) {m : Nat} (lead : Int) (hm : 0 < m)
    (hlength : Double.digitCount m ≤ 18) :
    ∃ l : Literal, l.Represents negative m lead ∧
      l.written = writtenSign negative ++
        (if Double.Layout.json.least ≤ lead ∧ lead ≤ Double.Layout.json.greatest then
          Double.positional (Nat.toDigits 10 m) lead
        else Double.scientific Double.Layout.json.plus (Nat.toDigits 10 m) lead) := by
  split
  next hpositional =>
    obtain ⟨hlow, hhigh⟩ : -5 ≤ lead ∧ lead ≤ 15 := hpositional
    rcases Int.lt_or_le lead 0 with hneg | hpos
    · exact exists_represents_small negative hlength hlow hneg
    rcases Nat.lt_or_ge (lead.natAbs + 1) (Double.digitCount m) with hpoint | hpoint
    · exact exists_represents_split negative hm hlength hpos hpoint
    · exact exists_represents_whole negative hm hpos hhigh hpoint
  next => exact exists_represents_scientific negative lead hm hlength

/-- A literal that represents the decimal of a finite double has it as its value. -/
theorem toJson_of_represents {l : Literal} {negative : Bool} {m : Nat} {lead : Int}
    {rank : Fin (2047 * 2 ^ 52)} (hl : l.Represents negative m lead)
    (heq : Double.ofDecimal negative m (lead + 1 - Double.digitCount m) = .finite negative rank) :
    l.toJson = .number (.double (.finite negative rank)) := by
  have hdouble := hl.toDouble_eq.trans heq
  simp only [toJson, hl.not_int, Bool.false_and, hdouble]
  rfl

/-- A finite double is written as a literal that reads as it. -/
theorem exists_literal_double (negative : Bool) (rank : Fin (2047 * 2 ^ 52)) :
    ∃ l : Literal, l.WellFormed ∧
      l.written = writtenSign negative ++ Double.renderRank .json rank.val ∧
      l.toJson = .number (.double (.finite negative rank)) := by
  rcases Nat.eq_zero_or_pos rank.val with hz | hr
  · refine ⟨⟨negative, ['0'], some ['0'], none⟩, ⟨by simp, rfl, by simp, ?_, by simp⟩, ?_, ?_⟩
    · rintro digits ⟨⟩
      exact ⟨by simp, rfl⟩
    · rw [Double.renderRank, if_pos hz]
      rfl
    · obtain rfl : rank = ⟨0, by decide⟩ := Fin.ext hz
      cases negative <;> rfl
  · obtain ⟨heq, hm, hlength⟩ := Double.ofDecimal_shortest .even hr rank.isLt negative
    have hfinite : Double.ofRank negative rank.val = .finite negative rank := dif_pos rank.isLt
    have hne : ¬ rank.val = 0 := by omega
    obtain ⟨l, hl, hwritten⟩ := exists_represents negative
      ((Double.shortest .even rank.val).exponent +
        Double.digitCount (Double.shortest .even rank.val).digits - 1) hm hlength
    refine ⟨l, hl.wellFormed, ?_, toJson_of_represents hl ?_⟩
    · rw [hwritten, Double.renderRank, if_neg hne]
      rfl
    · rw [Int.sub_add_cancel, Int.add_sub_cancel, heq, hfinite]

end Literal

/-- A writable number is written as a literal of that value. -/
theorem exists_literal {n : Number} (h : n.isWritable = true) :
    ∃ l : Literal, l.WellFormed ∧ l.written = n.render ∧ l.toJson = .number n := by
  match n, h with
  | .int n, h => exact exists_literal_int h
  | .double (.finite negative rank), _ =>
    obtain ⟨l, hl, hwritten, hvalue⟩ := Literal.exists_literal_double negative rank
    refine ⟨l, hl, ?_, hvalue⟩
    rw [hwritten, Number.render, Double.render, String.toList_ofList]
    rfl

/-- The word of a writable number is read as that number. -/
theorem ofWord_render {n : Number} (h : n.isWritable = true) :
    Token.ofWord n.render = .scalar (.number n) := by
  obtain ⟨l, hl, hwritten, hvalue⟩ := exists_literal h
  rw [← hwritten, Literal.ofWord_written hl, hvalue]

/-- A writable number is one word. -/
theorem isWordChar_of_mem_render {n : Number} (h : n.isWritable = true) {c : Char}
    (hc : c ∈ n.render) : isWordChar c = true := by
  obtain ⟨l, hl, hwritten, -⟩ := exists_literal h
  exact Literal.isWordChar_of_mem_written hl (hwritten ▸ hc)

/-- A writable number has characters. -/
theorem render_ne_nil {n : Number} (h : n.isWritable = true) : n.render ≠ [] := by
  obtain ⟨l, hl, hwritten, -⟩ := exists_literal h
  obtain ⟨c, rest, hcons, -⟩ := Literal.exists_written_eq_cons hl
  rw [← hwritten, hcons]
  exact List.cons_ne_nil c rest

end TypedModel.Json
