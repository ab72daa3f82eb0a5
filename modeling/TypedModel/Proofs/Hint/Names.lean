import TypedModel.Proofs.Hint.Meaning
import TypedModel.Proofs.Hint.Position

/-!
# Names in hints

A name of the documented form is identifiers between single points. The scanner looks at identifiers
only where a name begins: the components behind a point may be empty or begin with a digit, and such
a name is a hint all the same, of a record or of a class of that name.
-/

namespace TypedModel.Hint

open Sequence Spacing

/-! ## Names of a text -/

/-- The names of a text, which are its longest runs of characters that continue a name. -/
def names (cs : List Char) : List (List Char) :=
  (cs.splitOnP fun c => !continuesName c).filter fun run => !run.isEmpty

/-- A character that stands in no name may be left out in front. -/
theorem names_cons_of_not {c : Char} (h : continuesName c = false) (cs : List Char) :
    names (c :: cs) = names cs := by
  simp [names, List.splitOnP_cons_eq_if_modifyHead, h]

/-- A run that nothing behind it continues is the first name. -/
theorem names_run {run rest : List Char} (hne : run ≠ []) (hrun : run.all continuesName = true)
    (hrest : ∀ c ∈ rest.head?, continuesName c = false) : names (run ++ rest) = run :: names rest := by
  have hinside : ∀ c ∈ run, (!continuesName c) = false := by simpa using hrun
  have hkept : (!run.isEmpty) = true := by simpa using hne
  cases rest with
  | nil =>
    rw [names, List.append_nil, List.splitOnP_eq_singleton hinside]
    simp [hkept, names]
  | cons c rest =>
    have hc : continuesName c = false := hrest c rfl
    have houtside : (!continuesName c) = true := by rw [hc]; rfl
    rw [names_cons_of_not hc, names, List.splitOnP_append_cons_of_forall_mem hinside c houtside,
      List.filter_cons, if_pos hkept, names]

/-- A character that stands in a name begins one with those that continue it. -/
theorem names_cons_of_continues {c : Char} (h : continuesName c = true) (cs : List Char) :
    names (c :: cs) = (c :: cs.takeWhile continuesName) :: names (cs.dropWhile continuesName) := by
  have hrun : (c :: cs.takeWhile continuesName).all continuesName = true := by
    rw [List.all_cons, h, Bool.true_and]
    exact List.all_takeWhile
  have hrest : ∀ d ∈ (cs.dropWhile continuesName).head?, continuesName d = false := by
    intro d hd
    have hnot := List.head?_dropWhile_not continuesName cs
    rw [Option.mem_def.mp hd] at hnot
    simpa using hnot
  rw [← names_run (by simp) hrun hrest, List.cons_append, List.takeWhile_append_dropWhile]

/-- No name stands in a blank text. -/
theorem names_of_blank {cs : List Char} (h : cs.all Text.isBlank = true) : names cs = [] := by
  induction cs with
  | nil => rfl
  | cons c cs ih =>
    rw [List.all_cons, Bool.and_eq_true] at h
    rw [names_cons_of_not (continuesName_of_isBlank h.1), ih h.2]

/-! ## Forms of names -/

/-- Characters of identifiers: letters, digits and underscores. -/
def isIdentChar (c : Char) : Bool := Text.isLetterOrDigit c || c == '_'

/-- An identifier: it begins with a letter or an underscore and goes on with letters, digits and
underscores. -/
def IsIdent (cs : List Char) : Prop := cs.head?.any startsName = true ∧ cs.all isIdentChar = true

instance : DecidablePred IsIdent := fun _ => inferInstanceAs (Decidable (_ ∧ _))

/-- A name of the documented form: every component between points is an identifier. -/
def IsDottedName (cs : List Char) : Prop := ∀ part ∈ cs.splitOn '.', IsIdent part

instance : DecidablePred IsDottedName := fun _ => inferInstanceAs (Decidable (∀ _ ∈ _, _))

/-- A name whose first component is an identifier; the others need not be, and may be empty. -/
def IsLooseName (cs : List Char) : Prop :=
  ∃ first others, cs.splitOn '.' = first :: others ∧ IsIdent first ∧
    ∀ part ∈ others, part.all isIdentChar = true

/-- A component at which a name is misspelt: it is empty, or begins with what starts no name. -/
def IsMisspelt (part : List Char) : Prop := part.head?.any startsName = false

/-- A point in front ends an empty component. -/
theorem splitOn_point (cs : List Char) : ('.' :: cs).splitOn '.' = [] :: cs.splitOn '.' :=
  List.splitOn_append_cons_self [] cs

/-- Characters in front of the first point are in the first component. -/
theorem splitOn_cons_of_ne {c : Char} (h : c ≠ '.') {cs first : List Char}
    {others : List (List Char)} (hsplit : cs.splitOn '.' = first :: others) :
    (c :: cs).splitOn '.' = (c :: first) :: others := by
  rw [List.splitOn_cons_eq_if_modifyHead, if_neg (by simpa using h), hsplit, List.modifyHead_cons]

/-- Components are of the characters of identifiers where the whole is of those of names. -/
theorem forall_splitOn_iff {cs : List Char} :
    (∀ part ∈ cs.splitOn '.', part.all isIdentChar = true) ↔ cs.all continuesName = true := by
  induction cs with
  | nil => simp
  | cons c cs ih =>
    obtain ⟨first, others, hsplit⟩ := List.exists_cons_of_ne_nil (List.splitOn_ne_nil '.' cs)
    by_cases hc : c = '.'
    · rw [hc, splitOn_point, List.forall_mem_cons, ih]
      simp [continuesName]
    · have hchar : continuesName c = isIdentChar c := by simp [continuesName, isIdentChar, hc]
      rw [hsplit, List.forall_mem_cons] at ih
      rw [splitOn_cons_of_ne hc hsplit, List.forall_mem_cons, List.all_cons, List.all_cons, hchar,
        Bool.and_eq_true, Bool.and_eq_true, and_assoc, ih]

/-- All characters of a name continue one. -/
theorem IsWord.all_continuesName {cs : List Char} (h : IsWord cs) :
    cs.all continuesName = true := by
  obtain ⟨c, more, rfl, hstart, hmore⟩ := h
  rw [List.all_cons, continuesName_of_startsName hstart, hmore]
  rfl

/-- A name is the only one in it. -/
theorem IsWord.names_eq {cs : List Char} (h : IsWord cs) : names cs = [cs] := by
  have hne : cs ≠ [] := by
    obtain ⟨c, more, rfl, -⟩ := h
    exact List.cons_ne_nil c more
  have hrun := @names_run cs [] hne h.all_continuesName nofun
  rwa [List.append_nil] at hrun

/-- The scanner's names are those whose first component is an identifier. -/
theorem isWord_iff {cs : List Char} : IsWord cs ↔ IsLooseName cs := by
  constructor
  · intro hword
    have hparts := forall_splitOn_iff.mpr hword.all_continuesName
    obtain ⟨c, more, rfl, hstart, -⟩ := hword
    have hc : c ≠ '.' := by
      rintro rfl
      exact absurd hstart (by decide)
    obtain ⟨first, others, hsplit⟩ := List.exists_cons_of_ne_nil (List.splitOn_ne_nil '.' more)
    rw [splitOn_cons_of_ne hc hsplit, List.forall_mem_cons] at hparts
    exact ⟨c :: first, others, splitOn_cons_of_ne hc hsplit, ⟨hstart, hparts.1⟩, hparts.2⟩
  · rintro ⟨first, others, hsplit, ⟨hstart, hfirst⟩, hothers⟩
    have hparts : ∀ part ∈ cs.splitOn '.', part.all isIdentChar = true := by
      rw [hsplit, List.forall_mem_cons]
      exact ⟨hfirst, hothers⟩
    have hall := forall_splitOn_iff.mp hparts
    cases cs with
    | nil =>
      cases hsplit
      cases hstart
    | cons c more =>
      rw [List.all_cons, Bool.and_eq_true] at hall
      refine ⟨c, more, rfl, ?_, hall.2⟩
      by_cases hc : c = '.'
      · rw [hc, splitOn_point] at hsplit
        cases hsplit
        cases hstart
      · obtain ⟨front, later, hmore⟩ := List.exists_cons_of_ne_nil (List.splitOn_ne_nil '.' more)
        rw [splitOn_cons_of_ne hc hmore] at hsplit
        cases hsplit
        exact hstart

/-- A name has the documented form if it is a name of the scanner none of whose components behind a
point is misspelt. -/
theorem isDottedName_iff {cs : List Char} :
    IsDottedName cs ↔ IsLooseName cs ∧ ∀ part ∈ (cs.splitOn '.').tail, ¬ IsMisspelt part := by
  obtain ⟨first, others, hsplit⟩ := List.exists_cons_of_ne_nil (List.splitOn_ne_nil '.' cs)
  rw [IsDottedName, hsplit, List.forall_mem_cons, List.tail_cons]
  constructor
  · rintro ⟨hfirst, hothers⟩
    refine ⟨⟨first, others, hsplit, hfirst, fun part hpart => (hothers part hpart).2⟩, ?_⟩
    intro part hpart hmisspelt
    rw [IsMisspelt, (hothers part hpart).1] at hmisspelt
    cases hmisspelt
  · rintro ⟨⟨_, _, hloose, hfirst, hothers⟩, hspelt⟩
    rw [hsplit] at hloose
    cases hloose
    refine ⟨hfirst, fun part hpart => ⟨?_, hothers part hpart⟩⟩
    exact Bool.not_eq_false _ ▸ hspelt part hpart

/-! ## The scanner -/

/-- Characters that may stand in a hint: those of names, blanks, and those that are a token. -/
def IsKnown (c : Char) : Prop :=
  continuesName c = true ∨ Text.isBlank c = true ∨ (punctuation? c).isSome = true

/-- Whether characters have tokens behind what the scanner has open, by their names alone: what
continues an open name belongs to it, whatever it is. -/
def Lexes (word : OpenName) (cs : List Char) : Prop :=
  (∀ name ∈ names (if word.isSome then cs.dropWhile continuesName else cs), IsWord name) ∧
    ∀ c ∈ cs, IsKnown c

/-- A character in no name ends what is open. -/
theorem lexes_cons_of_not {c : Char} (h : continuesName c = false) (word : OpenName)
    (cs : List Char) :
    Lexes word (c :: cs) ↔ (Text.isBlank c = true ∨ (punctuation? c).isSome = true) ∧
      Lexes none cs := by
  have hkept : (if word.isSome then (c :: cs).dropWhile continuesName else c :: cs) = c :: cs := by
    cases word <;> simp [h]
  rw [Lexes, Lexes, hkept, names_cons_of_not h, List.forall_mem_cons, IsKnown]
  simp only [h, Bool.false_eq_true, false_or, Option.isSome_none, if_false]
  exact and_left_comm

/-- A character of a name belongs to the open one. -/
theorem lexes_open_cons {c : Char} (h : continuesName c = true) (name : Nat × List Char)
    (cs : List Char) : Lexes (some name) (c :: cs) ↔ Lexes (some name) cs := by
  rw [Lexes, Lexes, List.forall_mem_cons, IsKnown]
  simp [h]

/-- A character of a name opens one if it starts names. -/
theorem lexes_none_cons {c : Char} (h : continuesName c = true) (name : Nat × List Char)
    (cs : List Char) : Lexes none (c :: cs) ↔ startsName c = true ∧ Lexes (some name) cs := by
  have hword : IsWord (c :: cs.takeWhile continuesName) ↔ startsName c = true := by
    constructor
    · rintro ⟨_, _, ⟨⟩, hstart, -⟩
      exact hstart
    · exact fun hstart => ⟨c, _, rfl, hstart, List.all_takeWhile⟩
  have hknown : IsKnown c := .inl h
  rw [Lexes, Lexes, List.forall_mem_cons]
  simp only [Option.isSome_none, Option.isSome_some, Bool.false_eq_true, if_false, if_true,
    names_cons_of_continues h, List.forall_mem_cons, hword, hknown, true_and, and_assoc]

/-- The scanner takes all names and nothing but known characters. -/
theorem scan_lexes {word : OpenName} {offset : Nat} {cs : List Char} :
    (∃ ts, scan word offset cs = .ok ts) ↔ Lexes word cs := by
  have hmap {x : Except ParseError (List Located)} {f : List Located → List Located} :
      (∃ ts, x.map f = .ok ts) ↔ ∃ ts, x = .ok ts := by
    cases x <;> simp [Except.map]
  induction cs generalizing word offset with
  | nil =>
    have hnames : ∀ name ∈ names [], IsWord name := nofun
    cases word with
    | none => exact iff_of_true ⟨_, rfl⟩ ⟨hnames, nofun⟩
    | some name => exact iff_of_true ⟨_, rfl⟩ ⟨hnames, nofun⟩
  | cons c cs ih =>
    cases hc : continuesName c with
    | true =>
      cases word with
      | some name =>
        rw [scan_continues hc, lexes_open_cons hc]
        exact ih
      | none =>
        rw [lexes_none_cons hc (offset, [c]), scan_none_cons, isBlank_of_continuesName hc,
          punctuation?_of_continuesName hc]
        simp only [Bool.false_eq_true, if_false]
        split
        next hstart => exact ih.trans (and_iff_right hstart).symm
        next hstart => exact iff_of_false nofun fun h => hstart h.1
    | false =>
      have hends : (∃ ts, scan word offset (c :: cs) = .ok ts) ↔
          ∃ ts, scan none offset (c :: cs) = .ok ts := by
        cases word with
        | none => exact Iff.rfl
        | some name =>
          have hhead : ∀ d ∈ (c :: cs).head?, continuesName d = false := by
            rintro d ⟨⟩
            exact hc
          rw [scan_ends hhead name.1 name.2]
          exact hmap
      have hstart : startsName c = false := by
        cases hs : startsName c with
        | false => rfl
        | true =>
          rw [continuesName_of_startsName hs] at hc
          cases hc
      rw [hends, lexes_cons_of_not hc, scan_none_cons, hstart]
      split
      next hblank => exact ih.trans (and_iff_right (.inl hblank)).symm
      next hblank =>
        split
        next t ht =>
          have htoken : (punctuation? c).isSome = true := by rw [ht]; rfl
          exact hmap.trans (ih.trans (and_iff_right (.inr htoken)).symm)
        next hnone =>
          refine iff_of_false nofun ?_
          rintro ⟨hb | ht, -⟩
          · exact hblank hb
          · rw [hnone] at ht
            cases ht

/-- A text has tokens where its names are such as the scanner takes and all else in it is blanks and
tokens of one character. -/
theorem exists_tokens_iff {text : String} : (∃ ts, tokens text = .ok ts) ↔
    (∀ name ∈ names text.toList, IsLooseName name) ∧ ∀ c ∈ text.toList, IsKnown c := by
  simp only [← isWord_iff]
  exact scan_lexes

/-! ## The reader -/

variable (p : Parser)

/-- A text that is not blank and has no tokens has a character that is not expected. -/
theorem exists_unexpectedChar {text : String} (hblank : Text.isBlankText text = false)
    (hnone : ∀ ts, tokens text ≠ .ok ts) :
    ∃ c offset, p.parse text = .error (.unexpectedChar c offset) := by
  cases ht : tokens text with
  | ok ts => exact absurd ht (hnone ts)
  | error e =>
    obtain ⟨⟨c, offset, rfl⟩, -⟩ := isPlaced_of_tokens (p := p) ht
    refine ⟨c, offset, parse_eq_error_iff.mpr ?_⟩
    rw [hblank]
    exact .inl ht

/-- A hint that a name stands for is its own union. -/
theorem unionOf_resolveName (name : String) :
    TypeHint.unionOf [p.resolveName name] = p.resolveName name := by
  have hbuiltin : ∀ e ∈ builtinNames, TypeHint.unionOf [e.2] = e.2 := by
    simp [builtinNames, TypeHint.unionOf, TypeHint.asMembers, TypeHint.addMember]
  rw [Parser.resolveName]
  split
  next hint hknown => exact hbuiltin _ (builtin?_eq_some_iff.mp hknown)
  next => split <;> rfl

/-- A name of the scanner is a hint by itself, the one that the name stands for. -/
theorem parse_word {cs : List Char} (h : IsWord cs) :
    p.parse (String.ofList cs) = .ok (p.resolveName (String.ofList cs)) := by
  have htokens : tokens (String.ofList cs) =
      .ok [⟨.name (String.ofList cs), 0⟩, ⟨.endOfText, 0 + size cs⟩] := by
    have hscan := @scan_word cs h 0 [] nofun
    rw [List.append_nil] at hscan
    rw [tokens, String.toList_ofList, hscan]
    rfl
  have hrun : p.run .start [⟨.name (String.ofList cs), 0⟩, ⟨.endOfText, 0 + size cs⟩] =
      .ok (TypeHint.unionOf [p.resolveName (String.ofList cs)]) := rfl
  rw [parse_eq_ok_iff htokens, hrun, unionOf_resolveName]

/-- A name that is not of the documented form stands for a record or a class of that name. -/
theorem resolveName_of_not_dotted {name : String} (h : ¬ IsDottedName name.toList) :
    p.resolveName name = (p.records.get? name).elim (.foreign name) .record := by
  have hdotted : ∀ e ∈ builtinNames, IsDottedName e.1.toList ∧
      IsDottedName ("typing." ++ e.1).toList := by
    decide +kernel
  have hbuiltin : Parser.builtin? (Parser.shortName name) = none := by
    refine builtin?_eq_none_iff.mpr fun hint hin => h ?_
    rcases isShort_iff.mpr (Eq.refl (Parser.shortName name)) with hname | ⟨hname, -⟩
    · rw [hname]
      exact (hdotted _ hin).2
    · rw [hname]
      exact (hdotted _ hin).1
  rw [Parser.resolveName, hbuiltin]
  cases p.records.get? name <;> rfl

/-- Names in hints need the documented form only up to their first point. A text has tokens exactly if
each of its names is an identifier up to there, with letters, digits, underscores and points behind
it, and all else in it is known. So every name of an accepted text is of this kind, and a text with
another one has an unexpected character. Such a name is of the documented form exactly if no
component behind a point is empty or begins with a digit; if one does, the name is a hint
nevertheless, of a record or of a class of that name. -/
theorem names_of_accepted_texts (p : Parser) :
    (∀ text, (∃ ts, tokens text = .ok ts) ↔
      (∀ name ∈ names text.toList, IsLooseName name) ∧ ∀ c ∈ text.toList, IsKnown c) ∧
    (∀ text h, p.parse text = .ok h → ∀ name ∈ names text.toList, IsLooseName name) ∧
    (∀ text, (∃ name ∈ names text.toList, ¬ IsLooseName name) →
      ∃ c offset, p.parse text = .error (.unexpectedChar c offset)) ∧
    (∀ name, IsDottedName name ↔
      IsLooseName name ∧ ∀ part ∈ (name.splitOn '.').tail, ¬ IsMisspelt part) ∧
    (∀ name, IsLooseName name → names name = [name] ∧
      p.parse (String.ofList name) = .ok (p.resolveName (String.ofList name))) ∧
    (∀ name : String, ¬ IsDottedName name.toList →
      p.resolveName name = (p.records.get? name).elim (.foreign name) .record) := by
  refine ⟨fun text => exists_tokens_iff, fun text h hparse => ?_, fun text hname => ?_,
    fun name => isDottedName_iff, fun name hname => ?_, fun name => resolveName_of_not_dotted p⟩
  · exact (exists_tokens_iff.mp (exists_tokens_of_parse p hparse)).1
  · obtain ⟨name, hmem, hnot⟩ := hname
    have hblank : Text.isBlankText text = false := by
      cases hb : Text.isBlankText text with
      | false => rfl
      | true =>
        rw [names_of_blank hb] at hmem
        cases hmem
    refine exists_unexpectedChar p hblank fun ts hts => hnot ?_
    exact (exists_tokens_iff.mp ⟨ts, hts⟩).1 name hmem
  · have hword := isWord_iff.mpr hname
    exact ⟨hword.names_eq, parse_word p hword⟩

/-- Two points in a row, a point at the end and a digit behind a point are hints; a digit in front
is not. -/
theorem names_of_accepted_texts_points :
    Parser.empty.parse "a..b" = .ok (.foreign "a..b") ∧
    Parser.empty.parse "int." = .ok (.foreign "int.") ∧
    Parser.empty.parse "a.1" = .ok (.foreign "a.1") ∧
    ∃ c offset, Parser.empty.parse "int | 1a" = .error (.unexpectedChar c offset) := by
  obtain ⟨-, -, hrejected, -, haccepted, hresolved⟩ := names_of_accepted_texts Parser.empty
  have hclass (name : String) (hloose : IsLooseName name.toList)
      (hnot : ¬ IsDottedName name.toList) : Parser.empty.parse name = .ok (.foreign name) := by
    have hparse := (haccepted name.toList hloose).2
    rw [String.ofList_toList, hresolved name hnot] at hparse
    exact hparse
  refine ⟨hclass _ ?_ (by decide +kernel), hclass _ ?_ (by decide +kernel),
    hclass _ ?_ (by decide +kernel), hrejected _ ?_⟩
  · exact ⟨['a'], [[], ['b']], by decide +kernel, by decide +kernel, by decide +kernel⟩
  · exact ⟨['i', 'n', 't'], [[]], by decide +kernel, by decide +kernel, by decide +kernel⟩
  · exact ⟨['a'], [['1']], by decide +kernel, by decide +kernel, by decide +kernel⟩
  · refine ⟨['1', 'a'], by decide +kernel, fun hloose => ?_⟩
    obtain ⟨c, more, ⟨⟩, hstart, -⟩ := isWord_iff.mpr hloose
    exact absurd hstart (by decide)

end TypedModel.Hint
