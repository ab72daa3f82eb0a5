import Mathlib.Algebra.Order.Ring.Nat
import Mathlib.Data.String.Basic

/-!
# Octets of texts

The UTF-8 octets of a text are those of its characters in order. They tell texts apart, and they
order texts as the code points of their characters do: the first octet of a character grows with its
code point and says how many others there are, and these hold the rest of the code point to base 64.
-/

namespace TypedModel.Text

/-! ## Octets of a text -/

/-- Octets are listed behind those already collected. -/
theorem toList_loop_eq (octets : ByteArray) (i : Nat) (collected : List UInt8) :
    ByteArray.toList.loop octets i collected = collected.reverse ++ octets.data.toList.drop i := by
  fun_induction ByteArray.toList.loop octets i collected with
  | case1 i collected h ih =>
    have hi : i < octets.data.toList.length := h
    have hoctet : octets.get! i = octets.data.toList[i] := getElem!_pos octets.data i h
    rw [ih, List.drop_eq_getElem_cons hi, hoctet, List.reverse_cons, List.append_assoc,
      List.singleton_append]
  | case2 i collected h =>
    have hi : octets.data.toList.length ≤ i := Nat.le_of_not_lt h
    rw [List.drop_eq_nil_of_le hi, List.append_nil]

/-- The list of octets is what they are kept in. -/
theorem toList_eq (octets : ByteArray) : octets.toList = octets.data.toList :=
  toList_loop_eq octets 0 []

/-- Texts are told apart by their octets. -/
theorem octets_inj {s t : String} : s.toUTF8.toList = t.toUTF8.toList ↔ s = t := by
  rw [toList_eq, toList_eq, Array.toList_inj, ← ByteArray.ext_iff]
  exact String.toByteArray_inj

/-- Octets of a text are those of its characters. -/
theorem octets_eq (s : String) : s.toUTF8.toList = s.toList.flatMap String.utf8EncodeChar := by
  have hencoded : s.toByteArray = (s.toList.flatMap String.utf8EncodeChar).toByteArray := by
    rw [← List.utf8Encode, ← String.toByteArray_ofList, String.ofList_toList]
  rw [toList_eq, String.toUTF8_eq_toByteArray, hencoded, List.toList_data_toByteArray]

/-! ## Octets of a character -/

/-- How many octets follow the first one of a code point. -/
def followingCount (code : Nat) : Nat :=
  if code ≤ 0x7f then 0 else if code ≤ 0x7ff then 1 else if code ≤ 0xffff then 2 else 3

/-- The first octet of a code point as a number. -/
def leadingOctet (code : Nat) : Nat :=
  if code ≤ 0x7f then code
  else if code ≤ 0x7ff then code / 64 + 0xc0
  else if code ≤ 0xffff then code / 64 ^ 2 + 0xe0
  else code / 64 ^ 3 + 0xf0

/-- The last digits of a number to base 64, each as an octet that follows others. -/
def followingOctets : Nat → Nat → List UInt8
  | 0, _ => []
  | count + 1, code => UInt8.ofNat (code / 64 ^ count % 64 + 0x80) :: followingOctets count code

/-- A character is written as its first octet and those that follow. -/
theorem utf8EncodeChar_eq (c : Char) :
    String.utf8EncodeChar c =
      UInt8.ofNat (leadingOctet c.val.toNat) ::
        followingOctets (followingCount c.val.toNat) c.val.toNat := by
  have hcode : c.val.toNat < 0x110000 := by
    rcases c.valid with h | h <;> omega
  unfold String.utf8EncodeChar leadingOctet followingCount
  generalize c.val.toNat = n at hcode
  dsimp only
  -- the first octet has room for the digits in front of those that follow
  split_ifs
  · rfl
  · simp [followingOctets, Nat.mod_eq_of_lt (by omega : n / 64 < 32)]
  · simp [followingOctets, Nat.mod_eq_of_lt (by omega : n / 4096 < 16)]
  · simp [followingOctets, Nat.mod_eq_of_lt (by omega : n / 262144 < 8)]

/-- Octets are compared as numbers. -/
theorem ofNat_lt_ofNat {m n : Nat} (h : m < n) (hn : n < 256) : UInt8.ofNat m < UInt8.ofNat n := by
  rw [UInt8.lt_iff_toNat_lt, UInt8.toNat_ofNat', UInt8.toNat_ofNat']
  omega

/-- Of two numbers that agree in front of their last digits the smaller one has the smaller digits,
whatever follows. -/
theorem followingOctets_lt {count m n : Nat} (h : m < n) (hfront : m / 64 ^ count = n / 64 ^ count)
    (ms ns : List UInt8) : followingOctets count m ++ ms < followingOctets count n ++ ns := by
  induction count with
  | zero =>
    rw [pow_zero, Nat.div_one, Nat.div_one] at hfront
    exact absurd hfront h.ne
  | succ count ih =>
    have hle : m / 64 ^ count ≤ n / 64 ^ count := Nat.div_le_div_right h.le
    rw [pow_succ, ← Nat.div_div_eq_div_mul, ← Nat.div_div_eq_div_mul] at hfront
    rw [followingOctets, followingOctets, List.cons_append, List.cons_append,
      List.cons_lt_cons_iff]
    rcases hle.eq_or_lt with hsame | hless
    · exact .inr ⟨by rw [hsame], ih hsame⟩
    · exact .inl (ofNat_lt_ofNat (by omega) (by omega))

/-- The first octet grows with the code point, or the code points differ only in what follows. -/
theorem leadingOctet_lt_or {m n : Nat} (h : m < n) :
    leadingOctet m < leadingOctet n ∨
      leadingOctet m = leadingOctet n ∧ followingCount m = followingCount n ∧
        m / 64 ^ followingCount m = n / 64 ^ followingCount m := by
  unfold leadingOctet followingCount
  split_ifs <;> omega

/-- The octets of a smaller character are smaller, whatever follows. -/
theorem utf8EncodeChar_lt {c d : Char} (h : c < d) (cs ds : List UInt8) :
    String.utf8EncodeChar c ++ cs < String.utf8EncodeChar d ++ ds := by
  have hcode : c.val.toNat < d.val.toNat := h
  have hbound : leadingOctet d.val.toNat < 256 := by
    have hvalid : d.val.toNat < 0x110000 := by
      rcases d.valid with h | h <;> omega
    unfold leadingOctet
    split_ifs <;> omega
  rw [utf8EncodeChar_eq, utf8EncodeChar_eq, List.cons_append, List.cons_append,
    List.cons_lt_cons_iff]
  rcases leadingOctet_lt_or hcode with hless | ⟨hlead, hcount, hfront⟩
  · exact .inl (ofNat_lt_ofNat hless hbound)
  · rw [hlead, ← hcount]
    exact .inr ⟨rfl, followingOctets_lt hcode hfront cs ds⟩

/-! ## The order of texts -/

/-- Smaller characters have smaller octets. -/
theorem flatMap_utf8EncodeChar_lt {cs ds : List Char} (h : cs < ds) :
    cs.flatMap String.utf8EncodeChar < ds.flatMap String.utf8EncodeChar := by
  induction cs generalizing ds with
  | nil =>
    cases ds with
    | nil => exact absurd h (List.lt_irrefl [])
    | cons d ds =>
      rw [List.flatMap_cons, utf8EncodeChar_eq]
      exact List.nil_lt_cons _ _
  | cons c cs ih =>
    cases ds with
    | nil => exact absurd h (List.not_lt_nil _)
    | cons d ds =>
      rw [List.flatMap_cons, List.flatMap_cons]
      rcases List.cons_lt_cons_iff.mp h with hless | ⟨rfl, hrest⟩
      · exact utf8EncodeChar_lt hless _ _
      · exact List.append_left_lt (ih hrest)

/-- Texts are ordered as their octets are. -/
theorem octets_lt_iff {s t : String} : s.toUTF8.toList < t.toUTF8.toList ↔ s < t := by
  have hforward {s t : String} (h : s < t) : s.toUTF8.toList < t.toUTF8.toList := by
    rw [octets_eq, octets_eq]
    exact flatMap_utf8EncodeChar_lt (String.lt_iff_toList_lt.mp h)
  refine ⟨fun h => ?_, hforward⟩
  rcases lt_trichotomy s t with hless | rfl | hgreater
  · exact hless
  · exact absurd h (List.lt_irrefl _)
  · exact absurd h (List.lt_asymm (hforward hgreater))

end TypedModel.Text
