import TypedModel.Proofs.Json.Literal
import TypedModel.Proofs.Sequence

/-!
# Scanning written documents

The scanner turns the text of a document into the tokens of its tree. Text in front of a token is
scanned on its own as long as no character behind it continues a word, which no separator does.
-/

namespace TypedModel.Json

open Text

/-! ## Tokens of a tree -/

/-- Token lists with commas between them. -/
def joinTokens : List (List Token) → List Token
  | [] => []
  | [entry] => entry
  | entry :: rest => entry ++ .comma :: joinTokens rest

mutual

/-- The tokens of a tree. -/
def toTokens : Json → List Token
  | .string s => [.text (some s)]
  | .array items => .openArray :: (joinTokens (itemsToTokens items) ++ [.closeArray])
  | .object fields => .openObject :: (joinTokens (fieldsToTokens fields) ++ [.closeObject])
  | j => [.scalar j]
termination_by structural j => j

/-- The tokens of items. -/
def itemsToTokens : List Json → List (List Token)
  | [] => []
  | item :: rest => toTokens item :: itemsToTokens rest
termination_by structural items => items

/-- The tokens of fields. -/
def fieldsToTokens : List (String × Json) → List (List Token)
  | [] => []
  | (name, value) :: rest =>
    (.text (some name) :: .colon :: toTokens value) :: fieldsToTokens rest
termination_by structural fields => fields

end

mutual

/-- Trees without flaws whose numbers have a form of their own. -/
def isWritable : Json → Bool
  | .number n => n.isWritable
  | .array items => itemsWritable items
  | .object fields => fieldsWritable fields
  | .flawed _ => false
  | _ => true
termination_by structural j => j

/-- Items that are writable. -/
def itemsWritable : List Json → Bool
  | [] => true
  | item :: rest => isWritable item && itemsWritable rest
termination_by structural items => items

/-- Fields that are writable. -/
def fieldsWritable : List (String × Json) → Bool
  | [] => true
  | (_, value) :: rest => isWritable value && fieldsWritable rest
termination_by structural fields => fields

end

/-- Fields of two lists are writable if those of both are. -/
theorem fieldsWritable_append {fields later : List (String × Json)}
    (h : fieldsWritable fields = true) (hl : fieldsWritable later = true) :
    fieldsWritable (fields ++ later) = true := by
  induction fields with
  | nil => exact hl
  | cons f rest ih =>
    rw [fieldsWritable, Bool.and_eq_true] at h
    rw [List.cons_append, fieldsWritable, h.1, ih h.2]
    rfl

/-! ## Characters of a string -/

/-- A string in the making, every character so far complete. -/
def Unfinished.plain (chars : List Char) : Unfinished := ⟨chars, none, true, .plain⟩

/-- Escapes that are undone when a string is read: a letter is that of its character, a code is that
of a character by itself, and what is written as itself may stand in a string. -/
structure Undone (e : Escapes) : Prop where
  /-- A letter is read as the character it is written for. -/
  letters : ∀ p ∈ e.letters, Unfinished.letter? p.2 = some p.1 ∧ p.2 ≠ 'u'
  /-- A code is no half of a surrogate pair. -/
  coded : ∀ c, e.coded c = true → c.toNat < 0xD800
  /-- All other characters may stand in a string as themselves. -/
  plain : ∀ c, e.coded c = false → e.letters.lookup c = none →
    c ≠ '"' ∧ c ≠ '\\' ∧ ¬ c.toNat < 0x20

/-- The escapes of documents are undone. -/
theorem undone_json : Undone .json where
  letters := by decide
  coded c h := by
    have hcode : c.toNat < 0x20 := by simpa [Escapes.json] using h
    omega
  plain c hcoded hletter := by
    refine ⟨?_, ?_, by simpa [Escapes.json] using hcoded⟩
    · rintro rfl
      cases hletter
    · rintro rfl
      cases hletter

/-- The escapes of log lines are undone. -/
theorem undone_log : Undone .log where
  letters := by decide
  coded c h := by
    have hcode : c.toNat < 0x20 ∨ 0x7f ≤ c.toNat ∧ c.toNat ≤ 0x9f := by
      simpa [Escapes.log] using h
    omega
  plain c hcoded hletter := by
    have hcode : 0x20 ≤ c.toNat ∧ (0x7f ≤ c.toNat → 0x9f < c.toNat) := by
      simpa [Escapes.log] using hcoded
    refine ⟨?_, ?_, by omega⟩
    · rintro rfl
      cases hletter
    · rintro rfl
      cases hletter

/-- Four hexadecimal digits add the character of their number. -/
theorem scan_code (chars : List Char) {code : Nat} (h : code < 0xD800) (rest : List Char) :
    scan (.inText (.plain chars)) ('\\' :: 'u' :: hexDigits 4 code ++ rest) =
      scan (.inText (.plain (Char.ofNat code :: chars))) rest := by
  have hdigits : hexDigits 4 code = [hexDigit (code / 16 / 16 / 16 % 16),
      hexDigit (code / 16 / 16 % 16), hexDigit (code / 16 % 16), hexDigit (code % 16)] := rfl
  have hread (n : Nat) : hexValue? (hexDigit (n % 16)) = some (n % 16) :=
    hexValue?_hexDigit (Nat.mod_lt n (by decide))
  have hcode : ((code / 16 / 16 / 16 % 16 * 16 + code / 16 / 16 % 16) * 16 + code / 16 % 16) * 16 +
      code % 16 = code := by omega
  rw [hdigits]
  simp [scan, Unfinished.plain, Unfinished.step, hread, Unfinished.pushCode, Unfinished.push, hcode]
  rw [if_neg (by omega), if_neg (by omega)]

section

variable {e : Escapes}

/-- An escaped character adds itself. -/
theorem scan_escapeChar (he : Undone e) (chars : List Char) (c : Char) (rest : List Char) :
    scan (.inText (.plain chars)) (escapeChar e c ++ rest) =
      scan (.inText (.plain (c :: chars))) rest := by
  unfold escapeChar
  cases hletter : e.letters.lookup c with
  | some letter =>
    have hread := he.letters (c, letter) (Sequence.mem_of_lookup hletter)
    simp [scan, Unfinished.plain, Unfinished.step, hread, Unfinished.push]
  | none =>
    simp only
    split
    next hcoded => rw [scan_code chars (he.coded c hcoded), Char.ofNat_toNat]
    next hcoded =>
      obtain ⟨hquote, hbackslash, hcode⟩ := he.plain c (by simpa using hcoded) hletter
      simp [scan, Unfinished.plain, Unfinished.step, hquote, hbackslash, hcode, Unfinished.push]

/-- Escaped characters add themselves up to the closing quote. -/
theorem scan_escaped (he : Undone e) (cs chars rest : List Char) :
    scan (.inText (.plain chars)) (cs.flatMap (escapeChar e) ++ '"' :: rest) =
      .text (some (String.ofList (chars.reverse ++ cs))) :: scan .between rest := by
  induction cs generalizing chars with
  | nil => simp [scan, Unfinished.plain, Unfinished.finish]
  | cons c cs ih =>
    rw [List.flatMap_cons, List.append_assoc, scan_escapeChar he, ih, List.reverse_cons,
      List.append_assoc, List.singleton_append]

/-- A quoted string is its token. -/
theorem scan_quote (he : Undone e) (s : String) (rest : List Char) :
    scan .between (quote e s ++ rest) = .text (some s) :: scan .between rest := by
  have hescaped := scan_escaped he s.toList [] rest
  rw [List.reverse_nil, List.nil_append, String.ofList_toList] at hescaped
  rw [← hescaped, quote, List.cons_append, List.append_assoc, List.singleton_append]
  rfl

end

/-! ## Words -/

/-- Whether no character behind a text continues a word. -/
def noWordAhead (rest : List Char) : Bool := !(rest.head?.any isWordChar)

/-- A word starts with any character that continues one. -/
theorem startToken_word {c : Char} (h : isWordChar c = true) :
    startToken c = some ([], .inWord [c]) := by
  unfold startToken
  split
  case h_8 =>
    have hspace : isSpace c = false := by
      refine Bool.eq_false_iff.mpr fun hspace => ?_
      simp only [isSpace, Bool.or_eq_true, beq_iff_eq] at hspace
      rcases hspace with ((rfl | rfl) | rfl) | rfl <;> cases h
    rw [hspace, h]
    rfl
  all_goals cases h

/-- A word ends where no character continues it. -/
theorem scan_inWord (word cs rest : List Char) (hcs : ∀ c ∈ cs, isWordChar c = true)
    (hrest : noWordAhead rest = true) :
    scan (.inWord word) (cs ++ rest) = .ofWord (word.reverse ++ cs) :: scan .between rest := by
  induction cs generalizing word with
  | nil =>
    rw [List.nil_append, List.append_nil]
    cases rest with
    | nil => rfl
    | cons c rest =>
      have hc : isWordChar c = false := by simpa [noWordAhead] using hrest
      simp only [scan, hc, Bool.false_eq_true, if_false]
  | cons c cs ih =>
    have hc := hcs c List.mem_cons_self
    have htail := ih (c :: word) fun d hd => hcs d (List.mem_cons_of_mem c hd)
    rw [List.cons_append, scan, if_pos hc, htail, List.reverse_cons, List.append_assoc,
      List.singleton_append]

/-- A word is its token. -/
theorem scan_word {word rest : List Char} (hne : word ≠ [])
    (hword : ∀ c ∈ word, isWordChar c = true) (hrest : noWordAhead rest = true) :
    scan .between (word ++ rest) = .ofWord word :: scan .between rest := by
  obtain ⟨c, cs, rfl⟩ := List.exists_cons_of_ne_nil hne
  have htail := scan_inWord [c] cs rest (fun d hd => hword d (List.mem_cons_of_mem c hd)) hrest
  rw [List.cons_append, scan, startToken_word (hword c List.mem_cons_self)]
  exact htail

/-! ## Parts of a text -/

/-- A text is scanned to tokens wherever it does not run into a word behind it. -/
def Scans (cs : List Char) (tokens : List Token) : Prop :=
  ∀ rest, noWordAhead rest = true → scan .between (cs ++ rest) = tokens ++ scan .between rest

/-- Blanks in front of a text do not count. -/
theorem scans_newline (level : Nat) {cs : List Char} {tokens : List Token}
    (h : Scans cs tokens) : Scans (newline level ++ cs) tokens := by
  intro rest hrest
  have hblanks (n : Nat) (tail : List Char) :
      scan .between (List.replicate n ' ' ++ tail) = scan .between tail := by
    induction n with
    | zero => rfl
    | succ n ih => exact ih
  rw [newline, List.cons_append, List.cons_append, List.append_assoc, ← h rest hrest,
    ← hblanks (2 * level) (cs ++ rest)]
  rfl

/-- A quoted string is scanned to its token. -/
theorem scans_quote {e : Escapes} (he : Undone e) (s : String) :
    Scans (quote e s) [.text (some s)] := fun rest _ => scan_quote he s rest

/-- The blank behind the colon of a field. -/
theorem scans_field (name : String) {cs : List Char} {tokens : List Token} (h : Scans cs tokens) :
    Scans (quote .json name ++ ':' :: ' ' :: cs) (.text (some name) :: .colon :: tokens) := by
  intro rest hrest
  simp only [List.append_assoc, List.cons_append, scan_quote undone_json, ← h rest hrest]
  rfl

/-- A field without a blank behind its colon. -/
theorem scans_compactField {e : Escapes} (he : Undone e) (name : String) {cs : List Char}
    {tokens : List Token} (h : Scans cs tokens) :
    Scans (quote e name ++ ':' :: cs) (.text (some name) :: .colon :: tokens) := by
  intro rest hrest
  simp only [List.append_assoc, List.cons_append, scan_quote he, ← h rest hrest]
  rfl

/-- Texts with commas between them. -/
theorem scans_joinComma {entries : List (List Char)} {tokens : List (List Token)}
    (h : List.Forall₂ Scans entries tokens) : Scans (joinComma entries) (joinTokens tokens) := by
  induction h with
  | nil => exact fun rest _ => rfl
  | @cons entry first entries others hfirst htail ih =>
    cases htail with
    | nil => exact hfirst
    | @cons next second entries others hsecond htail =>
      intro rest hrest
      have hcomma := hfirst (',' :: (joinComma (next :: entries) ++ rest)) rfl
      rw [joinComma, List.append_assoc, List.cons_append, hcomma, joinTokens, List.append_assoc,
        List.cons_append, ← ih rest hrest]
      · rfl
      · simp
      · simp

/-- A text between a pair of brackets. -/
theorem scans_enclosed {opening closing : Char} {first last : Token} {cs : List Char}
    {tokens : List Token} (hopening : startToken opening = some ([first], .between))
    (hclosing : startToken closing = some ([last], .between))
    (hend : isWordChar closing = false) (h : Scans cs tokens) :
    Scans (opening :: (cs ++ [closing])) (first :: (tokens ++ [last])) := by
  intro rest hrest
  have hopen (tail : List Char) : scan .between (opening :: tail) = first :: scan .between tail := by
    simp [scan, hopening]
  have hclose : scan .between (closing :: rest) = last :: scan .between rest := by
    simp [scan, hclosing]
  have hahead : noWordAhead (closing :: rest) = true := by simp [noWordAhead, hend]
  have hinner := h (closing :: rest) hahead
  rw [List.cons_append, hopen, List.append_assoc, List.singleton_append, hinner, hclose,
    List.cons_append, List.append_assoc, List.singleton_append]

/-- Texts on lines of their own between a pair of brackets. -/
theorem scans_block {opening closing : Char} {first last : Token} (level : Nat)
    {entries : List (List Char)} {tokens : List (List Token)}
    (hopening : startToken opening = some ([first], .between))
    (hclosing : startToken closing = some ([last], .between))
    (h : List.Forall₂ Scans entries tokens) :
    Scans (block opening closing level entries) (first :: (joinTokens tokens ++ [last])) := by
  have hclose (rest : List Char) : scan .between (closing :: rest) = last :: scan .between rest := by
    simp [scan, hclosing]
  have hopen (rest : List Char) : scan .between (opening :: rest) = first :: scan .between rest := by
    simp [scan, hopening]
  intro rest hrest
  cases h with
  | nil =>
    show scan .between (opening :: closing :: rest) = _
    rw [hopen, hclose]
    rfl
  | @cons entry token entries tokens hfirst htail =>
    have hlines : List.Forall₂ Scans ((entry :: entries).map (newline (level + 1) ++ ·))
        (token :: tokens) :=
      List.forall₂_map_left_iff.mpr
        ((List.Forall₂.cons hfirst htail).imp fun _ _ => scans_newline (level + 1))
    have hend : scan .between (newline level ++ closing :: rest) = last :: scan .between rest := by
      have hskip : Scans (newline level ++ [closing]) [last] :=
        scans_newline level fun tail _ => hclose tail
      have hrest := hskip rest hrest
      rwa [List.append_assoc] at hrest
    rw [block]
    · have hjoin := scans_joinComma hlines (newline level ++ closing :: rest) rfl
      rw [List.cons_append, hopen, List.append_assoc, List.append_assoc, List.singleton_append,
        hjoin, hend, List.cons_append, List.append_assoc, List.singleton_append]
    · simp

/-! ## Documents -/

/-- A name or number is one token. -/
theorem scans_word {word : List Char} {token : Token} (hne : word ≠ [])
    (hword : word.all isWordChar = true) (htoken : Token.ofWord word = token) :
    Scans word [token] := by
  intro rest hrest
  rw [scan_word hne (List.all_eq_true.mp hword) hrest, htoken]
  rfl

/-- Trees that are no containers are scanned to their tokens. -/
theorem scans_compact_leaf {j : Json} (h : j.isWritable = true)
    (hitems : ∀ items, j ≠ .array items) (hfields : ∀ fields, j ≠ .object fields) :
    Scans j.compact j.toTokens := by
  cases j with
  | null => exact scans_word (by decide) (by decide) rfl
  | bool b => cases b <;> exact scans_word (by decide) (by decide) rfl
  | number n =>
    have hword : n.render.all isWordChar = true :=
      List.all_eq_true.mpr fun c hc => isWordChar_of_mem_render h hc
    exact scans_word (render_ne_nil h) hword (ofWord_render h)
  | string s => exact scans_quote undone_json s
  | array items => exact absurd rfl (hitems items)
  | object fields => exact absurd rfl (hfields fields)
  | flawed flaw => cases h

mutual

/-- The indented text of a writable document is scanned to its tokens. -/
theorem scans_indented : ∀ (j : Json) (level : Nat), j.isWritable = true →
    Scans (j.indented level) j.toTokens
  | .null, level, h => scans_compact_leaf h (by simp) (by simp)
  | .bool _, level, h => scans_compact_leaf h (by simp) (by simp)
  | .number _, level, h => scans_compact_leaf h (by simp) (by simp)
  | .string _, level, h => scans_compact_leaf h (by simp) (by simp)
  | .array items, level, h =>
    scans_block level rfl rfl (scans_indentedItems items (level + 1) h)
  | .object fields, level, h =>
    scans_block level rfl rfl (scans_indentedFields fields (level + 1) h)

/-- Indented items are scanned to their tokens. -/
theorem scans_indentedItems : ∀ (items : List Json) (level : Nat), itemsWritable items = true →
    List.Forall₂ Scans (indentedItems level items) (itemsToTokens items)
  | [], _, _ => .nil
  | item :: rest, level, h => by
    rw [itemsWritable, Bool.and_eq_true] at h
    exact .cons (scans_indented item level h.1) (scans_indentedItems rest level h.2)

/-- Indented fields are scanned to their tokens. -/
theorem scans_indentedFields : ∀ (fields : List (String × Json)) (level : Nat),
    fieldsWritable fields = true →
    List.Forall₂ Scans (indentedFields level fields) (fieldsToTokens fields)
  | [], _, _ => .nil
  | (name, value) :: rest, level, h => by
    rw [fieldsWritable, Bool.and_eq_true] at h
    exact .cons (scans_field name (scans_indented value level h.1))
      (scans_indentedFields rest level h.2)

end

mutual

/-- The compact text of a writable document is scanned to its tokens. -/
theorem scans_compact : ∀ j : Json, j.isWritable = true → Scans j.compact j.toTokens
  | .null, h => scans_compact_leaf h (by simp) (by simp)
  | .bool _, h => scans_compact_leaf h (by simp) (by simp)
  | .number _, h => scans_compact_leaf h (by simp) (by simp)
  | .string _, h => scans_compact_leaf h (by simp) (by simp)
  | .array items, h => scans_enclosed rfl rfl rfl (scans_joinComma (scans_compactItems items h))
  | .object fields, h => scans_enclosed rfl rfl rfl (scans_joinComma (scans_compactFields fields h))

/-- Compact items are scanned to their tokens. -/
theorem scans_compactItems : ∀ items : List Json, itemsWritable items = true →
    List.Forall₂ Scans (compactItems items) (itemsToTokens items)
  | [], _ => .nil
  | item :: rest, h => by
    rw [itemsWritable, Bool.and_eq_true] at h
    exact .cons (scans_compact item h.1) (scans_compactItems rest h.2)

/-- Compact fields are scanned to their tokens. -/
theorem scans_compactFields : ∀ fields : List (String × Json), fieldsWritable fields = true →
    List.Forall₂ Scans (compactFields fields) (fieldsToTokens fields)
  | [], _ => .nil
  | (name, value) :: rest, h => by
    rw [fieldsWritable, Bool.and_eq_true] at h
    exact .cons (scans_compactField undone_json name (scans_compact value h.1))
      (scans_compactFields rest h.2)

end

/-- A document written compactly has the tokens of its tree. -/
theorem tokens_toText {j : Json} (h : j.isWritable = true) : tokens j.toText = j.toTokens := by
  have hscan := scans_compact j h [] rfl
  rw [List.append_nil] at hscan
  rw [tokens, toText, String.toList_ofList, hscan]
  exact List.append_nil _

/-- A document written on lines of their own has the tokens of its tree. -/
theorem tokens_toIndentedText {j : Json} (h : j.isWritable = true) :
    tokens j.toIndentedText = j.toTokens := by
  have hscan := scans_indented j 0 h [] rfl
  rw [List.append_nil] at hscan
  rw [tokens, toIndentedText, String.toList_ofList, hscan]
  exact List.append_nil _

end TypedModel.Json
