import TypedModel.Proofs.ModelId
import Mathlib.Data.List.DropRight

/-!
# Spellings of identifiers

An identifier is read from its digits in either case: alone, in groups, in groups between braces and
in groups behind `urn:uuid:`. Nothing else is read as an identifier, and an address is such a
spelling behind its scheme, with any number of slashes behind it.
-/

namespace TypedModel.ModelId

/-! ## Digits -/

/-- The digits of an identifier, each in either case. -/
def IsDigits (id : ModelId) (ds : List Char) : Prop := ds.map Char.toLower = id.digits

/-- There are 32 digits. -/
theorem IsDigits.length_eq {id : ModelId} {ds : List Char} (h : id.IsDigits ds) :
    ds.length = 32 := by
  rw [← List.length_map Char.toLower, h]
  exact Text.hexDigits_length 32 _

/-- An identifier is read from its digits. -/
theorem ofDigits?_eq_some_iff {id : ModelId} {ds : List Char} :
    ofDigits? ds = some id ↔ id.IsDigits ds := by
  by_cases hlength : ds.length = 32
  · have hbound : (16 : Nat) ^ 32 = Nat.pow 2 128 := by decide
    rw [ofDigits?, if_pos hlength, Option.bind_eq_some_iff, IsDigits, digits]
    constructor
    · rintro ⟨n, hn, hid⟩
      obtain ⟨-, hdigits⟩ := Text.hexNumber?_eq_some_iff.mp hn
      split at hid
      · cases hid
        rwa [hlength] at hdigits
      · cases hid
    · intro h
      have hlt := id.code.isLt
      refine ⟨id.code.val, Text.hexNumber?_eq_some_iff.mpr ?_, dif_pos hlt⟩
      rw [hlength, hbound]
      exact ⟨hlt, h⟩
  · rw [ofDigits?, if_neg hlength]
    exact iff_of_false (Option.some_ne_none id).symm fun h => hlength h.length_eq

/-! ## Groups -/

/-- Digits are read from groups exactly if the groups are those of the digits. -/
theorem ungroup?_eq_some_iff {n : Nat} {rest : List Nat} {cs ds : List Char} :
    ungroup? (n :: rest) cs = some ds ↔
      (n :: rest).sum = ds.length ∧ cs = group (n :: rest) ds := by
  refine ⟨fun h => ?_, fun ⟨hsum, hcs⟩ => hcs ▸ ungroup?_group hsum⟩
  induction rest generalizing n cs ds with
  | nil =>
    rw [ungroup?] at h
    split at h
    · cases h
      exact ⟨by simpa using Eq.symm ‹_›, rfl⟩
    · cases h
  | cons m rest ih =>
    rw [ungroup?] at h
    · split at h
      · rename_i tail hdrop
        obtain ⟨others, htail, rfl⟩ := Option.map_eq_some_iff.mp h
        obtain ⟨hsum, hgroup⟩ := ih htail
        have hfront : (cs.take n).length = n := by
          have hrest := congrArg List.length hdrop
          rw [List.length_drop, List.length_cons] at hrest
          rw [List.length_take]
          omega
        constructor
        · rw [List.sum_cons, hsum, List.length_append, hfront]
        · rw [group, List.take_left' hfront, List.drop_left' hfront, ← hgroup, ← hdrop,
            List.take_append_drop]
          simp
      · cases h
    · simp

/-- An identifier is read from groups exactly if they are those of its digits. -/
theorem ofGroups?_eq_some_iff {id : ModelId} {cs : List Char} :
    ofGroups? cs = some id ↔ ∃ ds, id.IsDigits ds ∧ cs = group groups ds := by
  simp only [ofGroups?, groups, Option.bind_eq_some_iff, ungroup?_eq_some_iff,
    ofDigits?_eq_some_iff]
  constructor
  · rintro ⟨ds, ⟨-, hcs⟩, hds⟩
    exact ⟨ds, hds, hcs⟩
  · rintro ⟨ds, hds, hcs⟩
    exact ⟨ds, ⟨hds.length_eq.symm, hcs⟩, hds⟩

/-- Groups of digits have 36 characters. -/
theorem IsDigits.length_group {id : ModelId} {ds : List Char} (h : id.IsDigits ds) :
    (group groups ds).length = 36 := by
  have hsum : groups.sum = ds.length := h.length_eq.symm
  rw [groups, ModelId.length_group hsum, h.length_eq]
  rfl

/-! ## Spellings -/

/-- What stands for an identifier. -/
inductive IsSpelling (id : ModelId) : List Char → Prop
  /-- Its digits alone. -/
  | simple {ds : List Char} (h : id.IsDigits ds) : IsSpelling id ds
  /-- Its digits in groups. -/
  | hyphenated {ds : List Char} (h : id.IsDigits ds) : IsSpelling id (group groups ds)
  /-- Its groups between braces. -/
  | braced {ds : List Char} (h : id.IsDigits ds) : IsSpelling id ('{' :: (group groups ds ++ ['}']))
  /-- Its groups behind `urn:uuid:` in either case. -/
  | urn {front ds : List Char} (hfront : front.map Char.toLower = urn) (h : id.IsDigits ds) :
    IsSpelling id (front ++ group groups ds)

/-- An identifier is read from its spellings and from nothing else. -/
theorem parse?_eq_some_iff {id : ModelId} {text : String} :
    parse? text = some id ↔ id.IsSpelling text.toList := by
  generalize hcs : text.toList = cs
  constructor
  · intro h
    unfold parse? at h
    rw [hcs] at h
    simp only at h
    split at h
    · exact .simple (ofDigits?_eq_some_iff.mp h)
    · split at h
      · obtain ⟨ds, hds, rfl⟩ := ofGroups?_eq_some_iff.mp h
        exact .hyphenated hds
      · split at h
        · rename_i rest
          split at h
          · rename_i hlast
            obtain ⟨ds, hds, hgroup⟩ := ofGroups?_eq_some_iff.mp h
            rw [← List.dropLast_append_getLast? '}' hlast, hgroup]
            exact .braced hds
          · cases h
        · split at h
          · rename_i hfront
            obtain ⟨ds, hds, hgroup⟩ := ofGroups?_eq_some_iff.mp h
            rw [← List.take_append_drop 9 cs, hgroup]
            exact .urn hfront hds
          · cases h
  · intro h
    have hread {ds : List Char} (hds : id.IsDigits ds) : ofGroups? (group groups ds) = some id :=
      ofGroups?_eq_some_iff.mpr ⟨ds, hds, rfl⟩
    unfold parse?
    rw [hcs]
    cases h with
    | simple hds =>
      simp only [hds.length_eq, if_true, ofDigits?_eq_some_iff.mpr hds]
    | hyphenated hds =>
      have hlength := hds.length_group
      simp only [hlength, Nat.reduceEqDiff, if_true, if_false, hread hds]
    | @braced ds hds =>
      have hlength : ('{' :: (group groups ds ++ ['}'])).length = 38 := by
        rw [List.length_cons, List.length_append, hds.length_group]
        rfl
      simp only [hlength, Nat.reduceEqDiff, if_false, List.getLast?_concat, if_true,
        List.dropLast_concat, hread hds]
    | @urn front ds hfront hds =>
      have hnine : front.length = 9 := by
        rw [← List.length_map Char.toLower, hfront]
        rfl
      have hlength : (front ++ group groups ds).length = 45 := by
        rw [List.length_append, hnine, hds.length_group]
      simp only [hlength, Nat.reduceEqDiff, if_false, List.take_left' hnine,
        List.drop_left' hnine, hfront, if_true, hread hds]
      split
      · -- no brace begins the word in front
        rename_i rest hbrace
        obtain ⟨c, word, rfl, hc, -⟩ := List.map_eq_cons_iff.mp hfront
        rw [List.cons_append, List.cons.injEq] at hbrace
        rw [hbrace.1] at hc
        exact absurd hc (by decide)
      · rfl

/-! ## Addresses -/

/-- Slashes behind an address. -/
def slashes (n : Nat) : String := String.ofList (List.replicate n '/')

/-- Texts that are an address of an identifier: the scheme, a spelling and any number of slashes. -/
def IsAddress (id : ModelId) (text : String) : Prop :=
  ∃ spelling n, id.IsSpelling spelling ∧
    text.toList = scheme ++ (spelling ++ List.replicate n '/')

/-- No slash stands among digits. -/
theorem IsDigits.notMem {id : ModelId} {ds : List Char} (h : id.IsDigits ds) : '/' ∉ ds := by
  intro hslash
  have hdigit : Char.toLower '/' ∈ id.digits := h ▸ List.mem_map_of_mem hslash
  exact Text.notMem_hexDigits (by decide) 32 _ hdigit

/-- No slash stands among groups of digits. -/
theorem IsDigits.notMem_group {id : ModelId} {ds : List Char} (h : id.IsDigits ds) :
    '/' ∉ group groups ds := by
  intro hslash
  rcases mem_of_mem_group hslash with hhyphen | hdigit
  · exact absurd hhyphen (by decide)
  · exact h.notMem hdigit

/-- No slash stands in a spelling. -/
theorem IsSpelling.notMem {id : ModelId} {cs : List Char} (h : id.IsSpelling cs) : '/' ∉ cs := by
  cases h with
  | simple hds => exact hds.notMem
  | hyphenated hds => exact hds.notMem_group
  | braced hds =>
    have hgroup := hds.notMem_group
    simpa using hgroup
  | @urn front ds hfront hds =>
    rw [List.mem_append, not_or]
    refine ⟨fun hslash => ?_, hds.notMem_group⟩
    have hword : Char.toLower '/' ∈ ModelId.urn := hfront ▸ List.mem_map_of_mem hslash
    exact absurd hword (by decide)

/-- Slashes behind a text that has none are dropped. -/
theorem dropSlashes_append {cs : List Char} (h : '/' ∉ cs) (n : Nat) :
    dropSlashes (cs ++ List.replicate n '/') = cs := by
  have hslashes : ∀ c ∈ List.replicate n '/', (c == '/') = true := by simp
  rw [dropSlashes, List.reverse_append, List.reverse_replicate,
    List.dropWhile_append_of_pos hslashes]
  exact dropSlashes_of_notMem h

/-- A text is what stays of it and slashes behind that. -/
theorem exists_eq_dropSlashes_append (cs : List Char) :
    ∃ n, cs = dropSlashes cs ++ List.replicate n '/' := by
  have hslashes : ∀ c ∈ cs.rtakeWhile (· == '/'), c = '/' := by
    intro c hc
    simpa using List.mem_rtakeWhile_imp hc
  refine ⟨(cs.rtakeWhile (· == '/')).length, ?_⟩
  rw [← List.eq_replicate_of_mem hslashes]
  exact List.rdropWhile_append_rtakeWhile.symm

/-- An identifier is read from its addresses and from nothing else. -/
theorem ofUri?_eq_some_iff {id : ModelId} {text : String} :
    ofUri? text = some id ↔ id.IsAddress text := by
  unfold ofUri? IsAddress
  generalize text.toList = cs
  simp only
  constructor
  · intro h
    split at h
    · rename_i hscheme
      obtain ⟨rest, rfl⟩ := List.isPrefixOf_iff_prefix.mp hscheme
      rw [List.drop_left, parse?_eq_some_iff, String.toList_ofList] at h
      obtain ⟨n, hrest⟩ := exists_eq_dropSlashes_append rest
      exact ⟨_, n, h, by rw [← hrest]⟩
    · cases h
  · rintro ⟨spelling, n, hspelling, rfl⟩
    rw [if_pos (List.isPrefixOf_iff_prefix.mpr (List.prefix_append _ _)), List.drop_left,
      dropSlashes_append hspelling.notMem, parse?_eq_some_iff, String.toList_ofList]
    exact hspelling

/-- The address of an identifier is one, also with slashes behind it. -/
theorem isAddress_uri (id : ModelId) (n : Nat) : id.IsAddress (id.uri ++ slashes n) := by
  have hdigits : id.IsDigits id.digits := ofDigits?_eq_some_iff.mp id.ofDigits?_digits
  refine ⟨_, n, .hyphenated hdigits, ?_⟩
  rw [String.toList_append, toList_uri, slashes, String.toList_ofList, List.append_assoc]

/-- Identifiers are told apart by their addresses. -/
theorem uri_inj {a b : ModelId} : a.uri = b.uri ↔ a = b := by
  rw [uri, uri, String.append_right_inj, render_inj]

end TypedModel.ModelId
