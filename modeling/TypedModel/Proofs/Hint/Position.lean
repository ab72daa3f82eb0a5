import TypedModel.Proofs.Hint.Reader

/-!
# Where errors point

The reader takes tokens from left to right, so an error tells of the text in front of it: up to there
the text has tokens, and the reader stands in the same state as at the end of that text. What the
state expects there is therefore what is reported, of the whole text and of this beginning alike. The
main statement is that every error of a text that is no hint stands at the octet it names.
-/

namespace TypedModel.Hint

open Sequence Spacing

variable {p : Parser}

/-! ## Characters that start no token -/

/-- In front of a token a character is an error by itself, or it gives tokens and leaves a name open,
whatever is behind it. -/
theorem scan_none_cases (offset : Nat) (c : Char) :
    (∀ cs, scan none offset (c :: cs) = .error (.unexpectedChar c offset)) ∨
      ∃ found opened, ∀ cs, scan none offset (c :: cs) =
        (scan opened (offset + c.utf8Size) cs).map (found ++ ·) := by
  have hnothing (x : Except ParseError (List Located)) : x = x.map ([] ++ ·) := by
    cases x <;> rfl
  simp only [scan_none_cons]
  split
  next => exact .inr ⟨[], none, fun _ => hnothing _⟩
  next =>
    split
    next t _ => exact .inr ⟨[⟨t, offset⟩], none, fun _ => rfl⟩
    next =>
      split
      next => exact .inr ⟨[], some (offset, [c]), fun _ => hnothing _⟩
      next => exact .inl fun _ => rfl

/-- The same behind an open name, which the character may continue. -/
theorem scan_cons_cases (word : OpenName) (offset : Nat) (c : Char) :
    (∀ cs, scan word offset (c :: cs) = .error (.unexpectedChar c offset)) ∨
      ∃ found opened, ∀ cs, scan word offset (c :: cs) =
        (scan opened (offset + c.utf8Size) cs).map (found ++ ·) := by
  cases word with
  | none => exact scan_none_cases offset c
  | some name =>
    obtain ⟨start, w⟩ := name
    cases hc : continuesName c with
    | true =>
      refine .inr ⟨[], some (start, c :: w), fun cs => ?_⟩
      rw [scan_continues hc]
      cases scan (some (start, c :: w)) (offset + c.utf8Size) cs <;> rfl
    | false =>
      have hends (cs : List Char) : scan (some (start, w)) offset (c :: cs) =
          (scan none offset (c :: cs)).map (finishName (some (start, w)) ++ ·) := by
        refine scan_ends ?_ start w offset
        rintro d ⟨⟩
        exact hc
      rcases scan_none_cases offset c with herror | ⟨found, opened, hnext⟩
      · refine .inl fun cs => ?_
        rw [hends, herror]
        rfl
      · refine .inr ⟨finishName (some (start, w)) ++ found, opened, fun cs => ?_⟩
        rw [hends, hnext]
        cases scan opened (offset + c.utf8Size) cs <;> simp [Except.map]

/-- The scanner fails at a character behind others that have tokens. -/
theorem exists_split_of_scan_eq_error {word : OpenName} {offset : Nat} {cs : List Char}
    {e : ParseError} (h : scan word offset cs = .error e) :
    ∃ before c after, cs = before ++ c :: after ∧ e = .unexpectedChar c (offset + size before) ∧
      ∃ ts, scan word offset before = .ok ts := by
  induction cs generalizing word offset with
  | nil => cases h
  | cons c rest ih =>
    rcases scan_cons_cases word offset c with herror | ⟨found, opened, hnext⟩
    · rw [herror] at h
      cases h
      exact ⟨[], c, rest, rfl, rfl, _, rfl⟩
    · rw [hnext] at h
      obtain ⟨before, d, after, rfl, rfl, ts, hts⟩ := ih (map_eq_error_iff.mp h)
      refine ⟨c :: before, d, after, rfl, ?_, found ++ ts, ?_⟩
      · rw [size_cons, Nat.add_assoc]
      · rw [hnext, hts]
        rfl

/-! ## Tokens that are not expected -/

/-- What a text has to go on with behind a complete member: the end of the arguments that are open,
if any are. -/
def Parser.closing? : List Parser.Bracket → Option Expectation
  | [] => none
  | _ :: _ => some .closeBracket

/-- What a text has to go on with behind what was read, unless it may end there. -/
def Parser.State.expected? (s : Parser.State) : Option Expectation :=
  match s.place with
  | .start => some .typeName
  | _ => Parser.closing? s.brackets

/-- Where something is expected the end of the text is an error. -/
theorem step_end_of_expected {s : Parser.State} {expected : Expectation}
    (h : s.expected? = some expected) (offset : Nat) :
    p.step s ⟨.endOfText, offset⟩ = .error (.unexpectedToken expected .endOfText offset) := by
  obtain ⟨brackets, members, place⟩ := s
  cases place <;> cases brackets <;> cases h <;> rfl

/-- Where nothing is expected the text may end. -/
theorem step_end_of_unexpected {s : Parser.State} (h : s.expected? = none) :
    ∃ hint, ∀ offset, p.step s ⟨.endOfText, offset⟩ = .ok (.done hint) := by
  obtain ⟨brackets, members, place⟩ := s
  cases place with
  | start => cases h
  | named | closed =>
    cases brackets with
    | nil => exact ⟨_, fun _ => rfl⟩
    | cons => cases h

/-- The end of the text leads no further. -/
theorem step_end_ne_next (s s' : Parser.State) (offset : Nat) :
    p.step s ⟨.endOfText, offset⟩ ≠ .ok (.next s') := by
  cases hexpected : s.expected? with
  | some expected => rw [step_end_of_expected hexpected]; exact nofun
  | none =>
    obtain ⟨hint, hdone⟩ := step_end_of_unexpected (p := p) hexpected
    rw [hdone]
    exact nofun

/-- Only the number of arguments is wrong where a name is applied to hints. -/
theorem exists_wrongArity {name : String} {args : List TypeHint} {e : ParseError}
    (h : Parser.resolveApplied name args = .error e) :
    ∃ name expected got, e = .wrongArity name expected got := by
  unfold Parser.resolveApplied at h
  dsimp only at h
  split at h <;> cases h <;> exact ⟨_, _, _, rfl⟩

/-- Behind a complete member a token is an error in place of the bracket that is to be closed, or
where none is, or for the arguments it completes. -/
theorem afterMember_eq_error {brackets : List Parser.Bracket} {members : List TypeHint}
    {t : Located} {e : ParseError} (h : Parser.afterMember brackets members t = .error e) :
    (∃ expected, Parser.closing? brackets = some expected ∧
        e = .unexpectedToken expected t.token t.offset) ∨
      (Parser.closing? brackets = none ∧ e = .trailingInput t.offset) ∨
      ∃ name expected got, e = .wrongArity name expected got := by
  unfold Parser.afterMember at h
  split at h
  case h_3 => exact .inr (.inr (exists_wrongArity (bind_ok_eq_error_iff.mp h)))
  case h_5 =>
    cases h
    exact .inr (.inl ⟨rfl, rfl⟩)
  case h_6 =>
    cases h
    exact .inl ⟨_, rfl, rfl⟩
  all_goals cases h

/-- A token is an error in place of what is expected, or where nothing is, or for the arguments it
completes. -/
theorem step_eq_error {s : Parser.State} {t : Located} {e : ParseError}
    (h : p.step s t = .error e) :
    (∃ expected, s.expected? = some expected ∧
        e = .unexpectedToken expected t.token t.offset) ∨
      (s.expected? = none ∧ e = .trailingInput t.offset) ∨
      ∃ name expected got, e = .wrongArity name expected got := by
  obtain ⟨brackets, members, place⟩ := s
  cases place with
  | start =>
    obtain ⟨token, offset⟩ := t
    cases token <;> cases h <;> exact .inl ⟨_, rfl, rfl⟩
  | named name =>
    have hopen : t.token ≠ .openBracket := by
      intro hopen
      rw [step_named_open hopen] at h
      cases h
    rw [step_named hopen] at h
    exact afterMember_eq_error h
  | closed => exact afterMember_eq_error h

/-! ## The text in front of a token -/

/-- A run fails at its first token or behind it. -/
theorem run_cons_eq_error {s : Parser.State} {t : Located} {rest : List Located} {e : ParseError}
    (h : p.run s (t :: rest) = .error e) :
    p.step s t = .error e ∨ ∃ s', p.step s t = .ok (.next s') ∧ p.run s' rest = .error e := by
  rw [Parser.run] at h
  rcases bind_eq_error_iff.mp h with hstep | ⟨step, hstep, hrest⟩
  · exact .inl hstep
  · cases step with
    | next s' => exact .inr ⟨s', hstep, hrest⟩
    | done hint => cases hrest

/-- A run fails at one token, and over the text in front of it, which has tokens too, it comes to the
same state. -/
theorem exists_beginning_of_run_eq_error {items : Spacing} {trailing : List Char}
    {afterName : Bool} (hspaced : IsSpaced afterName items trailing) {s : Parser.State}
    {offset : Nat} {e : ParseError} (h : p.run s (located offset items trailing) = .error e) :
    ∃ before blanks after s' t, IsSpaced afterName before blanks ∧
      text items trailing = text before blanks ++ after ∧
      t.offset = offset + size (text before blanks) ∧
      p.run s (located offset before blanks) = p.run s' [⟨.endOfText, t.offset⟩] ∧
      p.step s' t = .error e := by
  induction items generalizing afterName s offset with
  | nil =>
    rcases run_cons_eq_error h with hstep | ⟨s', hstep, -⟩
    · exact ⟨[], trailing, [], s, _, hspaced, (List.append_nil _).symm, rfl, rfl, hstep⟩
    · exact absurd hstep (step_end_ne_next s s' _)
  | cons item rest ih =>
    obtain ⟨blanks, token⟩ := item
    obtain ⟨hblanks, hwritable, hseparate, hrest⟩ := hspaced
    rcases run_cons_eq_error h with hstep | ⟨s', hstep, hrun⟩
    · exact ⟨[], blanks, token.chars ++ text rest trailing, s, _, hblanks, rfl, rfl, rfl, hstep⟩
    · obtain ⟨before, last, after, s'', t, hbefore, htext, hoffset, hbegun, herror⟩ :=
        ih hrest hrun
      refine ⟨(blanks, token) :: before, last, after, s'', t,
        ⟨hblanks, hwritable, hseparate, hbefore⟩, ?_, ?_, ?_, herror⟩
      · simp only [text, htext, List.append_assoc]
      · rw [hoffset]
        simp only [text, size_append]
        omega
      · rw [← hbegun]
        exact run_cons_of_step hstep _

/-! ## Positions -/

/-- Whether a text is cut in two behind so many octets. -/
structure IsCut (text : String) (offset : Nat) (before after : String) : Prop where
  /-- The parts are all of the text. -/
  append : text = before ++ after
  /-- The first part has these octets. -/
  size : before.utf8ByteSize = offset

/-- A text is cut in front of a character, within its octets. -/
theorem IsCut.isValid {text before after : String} {offset : Nat}
    (h : IsCut text offset before after) :
    offset ≤ text.utf8ByteSize ∧ String.Pos.Raw.IsValid text ⟨offset⟩ := by
  obtain ⟨rfl, rfl⟩ := h
  refine ⟨?_, String.Pos.Raw.isValid_iff_exists_append.mpr ⟨before, after, rfl, rfl⟩⟩
  rw [String.utf8ByteSize_append]
  exact Nat.le_add_right _ _

/-- Characters are cut where the octets of the first ones end. -/
theorem isCut_of_toList {text : String} {cs ds : List Char} (h : text.toList = cs ++ ds) :
    IsCut text (size cs) (String.ofList cs) (String.ofList ds) where
  append := by rw [← String.ofList_append, ← h, String.ofList_toList]
  size := utf8ByteSize_ofList cs

/-- The position an error names, if it does. -/
def ParseError.offset? : ParseError → Option Nat
  | .empty | .wrongArity _ _ _ => none
  | .unexpectedChar _ offset | .unexpectedToken _ _ offset | .trailingInput offset => some offset

/-- What an error says of the text in front of it: up to an unexpected character it has tokens, up to
an unexpected token it ends too early, and what is in front of trailing input is a hint. -/
def ParseError.IsPlaced (p : Parser) (text : String) : ParseError → Prop
  | .empty => Text.isBlankText text = true
  | .unexpectedChar c offset => (∀ ts, tokens text ≠ .ok ts) ∧
    ∃ before after, IsCut text offset before (String.singleton c ++ after) ∧
      ∃ ts, tokens before = .ok ts
  | .unexpectedToken expected _ offset => ∃ before after, IsCut text offset before after ∧
    p.parse before = .error
      (if Text.isBlankText before then .empty else .unexpectedToken expected .endOfText offset)
  | .trailingInput offset => ∃ before after, IsCut text offset before after ∧
    ∃ hint, p.parse before = .ok hint
  | .wrongArity _ _ _ => True

/-- A placed error names a position in front of a character, within the text. -/
theorem ParseError.IsPlaced.isValid {text : String} {e : ParseError} (h : e.IsPlaced p text)
    {offset : Nat} (hoffset : e.offset? = some offset) :
    offset ≤ text.utf8ByteSize ∧ String.Pos.Raw.IsValid text ⟨offset⟩ := by
  cases e with
  | empty | wrongArity => cases hoffset
  | unexpectedChar =>
    cases hoffset
    obtain ⟨-, before, after, hcut, -⟩ := h
    exact hcut.isValid
  | unexpectedToken | trailingInput =>
    cases hoffset
    obtain ⟨before, after, hcut, -⟩ := h
    exact hcut.isValid

/-- A text that has no tokens has a character that starts none. -/
theorem isPlaced_of_tokens {text : String} {e : ParseError} (h : tokens text = .error e) :
    (∃ c offset, e = .unexpectedChar c offset) ∧ e.IsPlaced p text := by
  obtain ⟨before, c, after, hsplit, he, ts, hts⟩ := exists_split_of_scan_eq_error h
  rw [Nat.zero_add] at he
  subst he
  refine ⟨⟨_, _, rfl⟩, ?_, String.ofList before, String.ofList after, ?_, ts, ?_⟩
  · rw [h]
    exact fun _ => nofun
  · rw [← String.ofList_cons]
    exact isCut_of_toList hsplit
  · rwa [tokens, String.toList_ofList]

/-- Where a text has tokens, blanks are no hint and all else is read. -/
theorem parse_of_tokens {text : String} {ts : List Located} (h : tokens text = .ok ts) :
    p.parse text = if Text.isBlankText text then .error .empty else p.run .start ts := by
  rw [Parser.parse, h, ok_bind]

/-- An error of the reader stands where it says. -/
theorem isPlaced_of_run {text : String} {ts : List Located} (ht : tokens text = .ok ts)
    {e : ParseError} (h : p.run .start ts = .error e) : e.IsPlaced p text := by
  obtain ⟨items, trailing, hspaced, htext, rfl⟩ := tokens_eq_ok_iff.mp ht
  obtain ⟨before, blanks, after, s, t, hbefore, hsplit, hoffset, hrun, hstep⟩ :=
    exists_beginning_of_run_eq_error hspaced h
  rw [hsplit] at htext
  have hcut := isCut_of_toList htext
  rw [← Nat.zero_add (Spacing.size _), ← hoffset] at hcut
  have htokens : tokens (String.ofList (Spacing.text before blanks)) =
      .ok (located 0 before blanks) :=
    tokens_eq_ok_iff.mpr ⟨before, blanks, hbefore, String.toList_ofList, rfl⟩
  rcases step_eq_error hstep with ⟨expected, hexpected, rfl⟩ | ⟨hexpected, rfl⟩ | ⟨_, _, _, rfl⟩
  · refine ⟨_, _, hcut, ?_⟩
    rw [parse_of_tokens htokens, hrun, Parser.run, step_end_of_expected hexpected]
    split <;> rfl
  · obtain ⟨hint, hdone⟩ := step_end_of_unexpected (p := p) hexpected
    refine ⟨_, _, hcut, hint, ?_⟩
    rw [parse_eq_ok_iff htokens, hrun, Parser.run, hdone]
    rfl
  · trivial

/-- A text is no hint where it is blank, or else has no tokens, or has tokens that the reader does not
take. -/
theorem parse_eq_error_iff {text : String} {e : ParseError} :
    p.parse text = .error e ↔
      if Text.isBlankText text then e = .empty
      else tokens text = .error e ∨ ∃ ts, tokens text = .ok ts ∧ p.run .start ts = .error e := by
  unfold Parser.parse
  split
  · rw [Except.error.injEq]
    exact eq_comm
  · exact bind_eq_error_iff

/-- Every error points at the right place. The text is empty exactly if it is blank, and it has an
unexpected character exactly if it has no tokens, whatever the reader would say of those in front of
it. What the error says of the text up to its position is so, and a position is in front of a
character, within the octets of the text. -/
theorem parse_error_placed (p : Parser) {text : String} {e : ParseError}
    (h : p.parse text = .error e) :
    (e = .empty ↔ Text.isBlankText text = true) ∧
    ((∃ c offset, e = .unexpectedChar c offset) ↔
      Text.isBlankText text = false ∧ ∀ ts, tokens text ≠ .ok ts) ∧
    e.IsPlaced p text ∧
    ∀ offset, e.offset? = some offset →
      offset ≤ text.utf8ByteSize ∧ String.Pos.Raw.IsValid text ⟨offset⟩ := by
  rw [parse_eq_error_iff] at h
  have hplaced : e.IsPlaced p text := by
    split at h
    next hblank => exact h ▸ hblank
    next =>
      rcases h with htokens | ⟨ts, htokens, hrun⟩
      · exact (isPlaced_of_tokens htokens).2
      · exact isPlaced_of_run htokens hrun
  refine ⟨⟨?_, ?_⟩, ⟨?_, ?_⟩, hplaced, fun offset => hplaced.isValid⟩
  · rintro rfl
    exact hplaced
  · intro hblank
    rwa [if_pos hblank] at h
  · rintro ⟨c, offset, rfl⟩
    refine ⟨Bool.eq_false_iff.mpr fun hblank => ?_, hplaced.1⟩
    rw [if_pos hblank] at h
    cases h
  · rintro ⟨hblank, hnone⟩
    rw [if_neg (Bool.eq_false_iff.mp hblank)] at h
    rcases h with htokens | ⟨ts, htokens, -⟩
    · exact (isPlaced_of_tokens (p := p) htokens).1
    · exact absurd htokens (hnone ts)

/-- A letter of two octets stands in front of the bar behind which no name follows. -/
theorem parse_error_placed_umlaut :
    let text := "Größe | [int]"
    let e := ParseError.unexpectedToken .typeName .openBracket 10
    Parser.empty.parse text = .error e ∧ e.IsPlaced .empty text ∧
      10 ≤ text.utf8ByteSize ∧ String.Pos.Raw.IsValid text ⟨10⟩ := by
  intro text e
  have ht : tokens text = .ok [⟨.name "Größe", 0⟩, ⟨.bar, 8⟩, ⟨.openBracket, 10⟩, ⟨.name "int", 11⟩,
      ⟨.closeBracket, 14⟩, ⟨.endOfText, 15⟩] := by
    decide +kernel
  have hblank : Text.isBlankText text = false := by decide +kernel
  have h : Parser.empty.parse text = .error e := by
    rw [parse_of_tokens ht, hblank]
    rfl
  obtain ⟨-, -, hplaced, hvalid⟩ := parse_error_placed Parser.empty h
  exact ⟨h, hplaced, hvalid 10 rfl⟩

end TypedModel.Hint
