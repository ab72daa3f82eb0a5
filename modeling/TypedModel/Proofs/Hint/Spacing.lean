import TypedModel.Hint.Token
import TypedModel.Proofs.Sequence

/-!
# Spaced tokens

A text that has tokens is nothing but its tokens with blanks in front of them and at the end: names
begin with a letter or an underscore, and two names in a row have a blank between them. The scanner
finds exactly these tokens in it, each at the offset at which it is written.
-/

namespace TypedModel.Hint

/-! ## Classes of characters -/

/-- Code points of the blanks. -/
def blankCodes : List Nat :=
  [9, 10, 11, 12, 13, 0x20, 0x85, 0xA0, 0x1680, 0x2000, 0x2001, 0x2002, 0x2003, 0x2004, 0x2005,
    0x2006, 0x2007, 0x2008, 0x2009, 0x200A, 0x2028, 0x2029, 0x202F, 0x205F, 0x3000]

/-- Blanks are the characters of these code points. -/
theorem mem_blankCodes {c : Char} (h : Text.isBlank c = true) : c.toNat ∈ blankCodes := by
  simp only [Text.isBlank, Bool.or_eq_true, Bool.and_eq_true, decide_eq_true_eq, beq_iff_eq] at h
  simp only [blankCodes, List.mem_cons]
  generalize c.toNat = n at h
  rcases h with (((((((((h | h) | h) | h) | h) | h) | h) | h) | h) | h) | h
  all_goals omega

/-- Blanks stand in no name. -/
theorem continuesName_of_isBlank {c : Char} (h : Text.isBlank c = true) :
    continuesName c = false := by
  have hcodes : ∀ n ∈ blankCodes, continuesName (Char.ofNat n) = false := by decide +kernel
  have hc := hcodes c.toNat (mem_blankCodes h)
  rwa [Char.ofNat_toNat] at hc

/-- What starts a name may also continue it. -/
theorem continuesName_of_startsName {c : Char} (h : startsName c = true) :
    continuesName c = true := by
  simp only [startsName, Bool.or_eq_true] at h
  rcases h with h | h <;> simp [continuesName, Text.isLetterOrDigit, h]

/-- Tokens that are one character stand in no name. -/
theorem continuesName_of_punctuation {c : Char} {t : Token} (h : punctuation? c = some t) :
    continuesName c = false := by
  unfold punctuation? at h
  split at h
  case h_5 => cases h
  all_goals decide +kernel

/-- What continues a name is no blank. -/
theorem isBlank_of_continuesName {c : Char} (h : continuesName c = true) :
    Text.isBlank c = false := by
  cases hblank : Text.isBlank c with
  | false => rfl
  | true =>
    rw [continuesName_of_isBlank hblank] at h
    cases h

/-- What continues a name is no token by itself. -/
theorem punctuation?_of_continuesName {c : Char} (h : continuesName c = true) :
    punctuation? c = none := by
  cases hpunctuation : punctuation? c with
  | none => rfl
  | some t =>
    rw [continuesName_of_punctuation hpunctuation] at h
    cases h

/-! ## Spacings -/

/-- Characters of a token. -/
def Token.chars : Token → List Char
  | .name s => s.toList
  | .openBracket => ['[']
  | .closeBracket => [']']
  | .comma => [',']
  | .bar => ['|']
  | .endOfText => []

/-- Whether a token is a name. -/
def Token.isName : Token → Bool
  | .name _ => true
  | _ => false

/-- Characters of a name: a letter or an underscore, and then letters, digits, underscores and
points. -/
def IsWord (cs : List Char) : Prop :=
  ∃ c more, cs = c :: more ∧ startsName c = true ∧ more.all continuesName = true

/-- A token that can be written: not the end of the text, and a name only with the characters of
one. -/
def Token.IsWritable (t : Token) : Prop :=
  t ≠ .endOfText ∧ ∀ s, t = .name s → IsWord s.toList

/-- Brackets, commas and bars can be written. -/
theorem Token.isWritable_of_punctuation {t : Token} (hend : t ≠ .endOfText)
    (hname : t.isName = false) : t.IsWritable := by
  refine ⟨hend, fun s hs => ?_⟩
  rw [hs] at hname
  cases hname

/-- A name can be written if it has the characters of one. -/
theorem Token.isWritable_name {name : String} (h : IsWord name.toList) :
    (Token.name name).IsWritable := by
  refine ⟨nofun, fun s hs => ?_⟩
  cases hs
  exact h

/-- Tokens, each with the blanks in front of it. -/
abbrev Spacing := List (List Char × Token)

namespace Spacing

/-- The text of tokens with blanks in front of them and at the end. -/
def text : Spacing → List Char → List Char
  | [], trailing => trailing
  | (blanks, t) :: rest, trailing => blanks ++ (t.chars ++ text rest trailing)

/-- Whether tokens are spaced as they have to be, behind a name or not: blanks are blank, tokens are
writable, and two names in a row have a blank between them. -/
def IsSpaced : Bool → Spacing → List Char → Prop
  | _, [], trailing => trailing.all Text.isBlank = true
  | afterName, (blanks, t) :: rest, trailing =>
    blanks.all Text.isBlank = true ∧ t.IsWritable ∧
      (afterName = true → t.isName = true → blanks ≠ []) ∧ IsSpaced t.isName rest trailing

/-- The text of tokens in front of a text. -/
theorem text_append (items others : Spacing) (trailing : List Char) :
    text (items ++ others) trailing =
      text items (text others trailing) := by
  induction items with
  | nil => rfl
  | cons item rest ih => rw [List.cons_append, text, text, ih]

/-- The text of tokens, and what follows it. -/
theorem text_eq_append (items : Spacing) (trailing : List Char) :
    text items trailing = text items [] ++ trailing := by
  induction items with
  | nil => rfl
  | cons item rest ih => rw [text, text, ih, List.append_assoc, List.append_assoc]

/-- The text of tokens is cut at each of them. -/
theorem text_split (before after : Spacing) (blanks : List Char) (t : Token)
    (trailing : List Char) :
    text (before ++ (blanks, t) :: after) trailing =
      text before blanks ++ (t.chars ++ text after trailing) := by
  rw [text_append, text, text_eq_append, ← List.append_assoc, ← text_eq_append]

/-- UTF-8 octets of characters. -/
def size : List Char → Nat
  | [] => 0
  | c :: cs => c.utf8Size + size cs

/-- Octets of one character and of those behind it. -/
theorem size_cons (c : Char) (cs : List Char) : size (c :: cs) = c.utf8Size + size cs := rfl

/-- Octets of characters behind others. -/
theorem size_append (cs ds : List Char) : size (cs ++ ds) = size cs + size ds := by
  induction cs with
  | nil => simp [size]
  | cons c cs ih => rw [List.cons_append, size_cons, size_cons, ih, Nat.add_assoc]

/-- The octets of characters are those of their text. -/
theorem utf8ByteSize_ofList (cs : List Char) : (String.ofList cs).utf8ByteSize = size cs := by
  induction cs with
  | nil => rfl
  | cons c cs ih =>
    rw [String.ofList_cons, String.utf8ByteSize_append, String.utf8ByteSize_singleton, ih,
      size_cons]

/-- The tokens from an offset on, each where it is written, and the end of the text. -/
def located (offset : Nat) : Spacing → List Char → List Located
  | [], trailing => [⟨.endOfText, offset + size trailing⟩]
  | (blanks, t) :: rest, trailing =>
    ⟨t, offset + size blanks⟩ :: located (offset + size blanks + size t.chars) rest trailing

/-- The located tokens are the spaced ones and the end of the text. -/
theorem map_token_located (offset : Nat) (items : Spacing) (trailing : List Char) :
    (located offset items trailing).map Located.token = items.map Prod.snd ++ [.endOfText] := by
  induction items generalizing offset with
  | nil => rfl
  | cons item rest ih => simp [located, ih]

end Spacing

open Spacing

/-! ## Steps of the scanner -/

/-- One character of a text. -/
theorem scan_cons (word : OpenName) (offset : Nat) (c : Char) (cs : List Char) :
    scan word offset (c :: cs) =
      match word, continuesName c with
      | some (start, w), true => scan (some (start, c :: w)) (offset + c.utf8Size) cs
      | _, _ =>
        if Text.isBlank c then (scan none (offset + c.utf8Size) cs).map (finishName word ++ ·)
        else
          match punctuation? c with
          | some t =>
            (scan none (offset + c.utf8Size) cs).map (finishName word ++ ⟨t, offset⟩ :: ·)
          | none =>
            if startsName c then
              (scan (some (offset, [c])) (offset + c.utf8Size) cs).map (finishName word ++ ·)
            else .error (.unexpectedChar c offset) := rfl

/-- An open name takes in what continues it. -/
theorem scan_continues {c : Char} (h : continuesName c = true) (start : Nat) (word : List Char)
    (offset : Nat) (cs : List Char) :
    scan (some (start, word)) offset (c :: cs) =
      scan (some (start, c :: word)) (offset + c.utf8Size) cs := by
  rw [scan_cons, h]

/-- Without an open name a blank is passed over, a token of one character is found, and a name is
opened. -/
theorem scan_none_cons (offset : Nat) (c : Char) (cs : List Char) :
    scan none offset (c :: cs) =
      if Text.isBlank c then scan none (offset + c.utf8Size) cs
      else
        match punctuation? c with
        | some t => (scan none (offset + c.utf8Size) cs).map (⟨t, offset⟩ :: ·)
        | none =>
          if startsName c then scan (some (offset, [c])) (offset + c.utf8Size) cs
          else .error (.unexpectedChar c offset) := by
  have hnothing (x : Except ParseError (List Located)) : x.map (finishName none ++ ·) = x := by
    cases x <;> rfl
  rw [scan_cons]
  generalize continuesName c = b
  simp only [hnothing]
  rfl

/-- A name ends where nothing continues it. -/
theorem scan_ends {cs : List Char} (h : ∀ c ∈ cs.head?, continuesName c = false) (start : Nat)
    (word : List Char) (offset : Nat) :
    scan (some (start, word)) offset cs =
      (scan none offset cs).map (finishName (some (start, word)) ++ ·) := by
  cases cs with
  | nil => rfl
  | cons c rest =>
    have hc : continuesName c = false := h c rfl
    rw [scan_none_cons, scan_cons, hc]
    dsimp only
    split
    · rfl
    · split
      · cases scan none (offset + c.utf8Size) rest <;> rfl
      · split <;> rfl

/-! ## Spaced tokens are found -/

/-- Blanks in front of tokens only move them. -/
theorem scan_blanks {blanks : List Char} (h : blanks.all Text.isBlank = true) (offset : Nat)
    (cs : List Char) : scan none offset (blanks ++ cs) = scan none (offset + size blanks) cs := by
  induction blanks generalizing offset with
  | nil => rfl
  | cons c rest ih =>
    simp only [List.all_cons, Bool.and_eq_true] at h
    rw [List.cons_append, scan_none_cons, if_pos h.1, ih h.2, size_cons, Nat.add_assoc]

/-- An open name takes in all that continues it. -/
theorem scan_continued {more : List Char} (h : more.all continuesName = true) (start : Nat)
    (word : List Char) (offset : Nat) (cs : List Char) :
    scan (some (start, word)) offset (more ++ cs) =
      scan (some (start, more.reverse ++ word)) (offset + size more) cs := by
  induction more generalizing word offset with
  | nil => rfl
  | cons c rest ih =>
    simp only [List.all_cons, Bool.and_eq_true] at h
    rw [List.cons_append, scan_continues h.1, ih h.2, size_cons, Nat.add_assoc, List.reverse_cons,
      List.append_assoc, List.singleton_append]

/-- A name is found that nothing behind it continues. -/
theorem scan_word {word : List Char} (hword : IsWord word) (offset : Nat) {cs : List Char}
    (h : ∀ c ∈ cs.head?, continuesName c = false) :
    scan none offset (word ++ cs) =
      (scan none (offset + size word) cs).map (⟨.name (String.ofList word), offset⟩ :: ·) := by
  obtain ⟨c, more, rfl, hstart, hmore⟩ := hword
  have hcontinues := continuesName_of_startsName hstart
  rw [List.cons_append, scan_none_cons, isBlank_of_continuesName hcontinues,
    punctuation?_of_continuesName hcontinues, if_neg Bool.false_ne_true]
  dsimp only
  rw [if_pos hstart, scan_continued hmore, scan_ends h, size_cons, Nat.add_assoc]
  simp [finishName]

/-- What follows a name in spaced tokens does not continue it. -/
theorem head_text {items : Spacing} {trailing : List Char} (h : IsSpaced true items trailing) :
    ∀ c ∈ (text items trailing).head?, continuesName c = false := by
  have hblank {cs : List Char} (hcs : cs.all Text.isBlank = true) (c : Char) (hc : c ∈ cs.head?) :
      continuesName c = false :=
    continuesName_of_isBlank (List.all_eq_true.mp hcs c (List.mem_of_mem_head? hc))
  intro c hc
  match items with
  | [] => exact hblank h c hc
  | (blank :: blanks, t) :: rest => exact hblank h.1 c hc
  | ([], t) :: rest =>
    obtain ⟨-, hwritable, hseparate, -⟩ := h
    cases t with
    | name s => exact absurd rfl (hseparate rfl rfl)
    | endOfText => exact absurd rfl hwritable.1
    | _ =>
      cases hc
      decide +kernel

/-- A token of one character is found. -/
theorem scan_token {t : Token} (ht : t.IsWritable) (hname : t.isName = false) (offset : Nat)
    (cs : List Char) :
    scan none offset (t.chars ++ cs) =
      (scan none (offset + size t.chars) cs).map (⟨t, offset⟩ :: ·) := by
  cases t with
  | name s => cases hname
  | endOfText => exact absurd rfl ht.1
  | _ => exact scan_none_cons offset _ cs

/-- Spaced tokens are found where they are written. -/
theorem scan_text {afterName : Bool} {items : Spacing} {trailing : List Char}
    (h : IsSpaced afterName items trailing) (offset : Nat) :
    scan none offset (text items trailing) = .ok (located offset items trailing) := by
  induction items generalizing afterName offset with
  | nil =>
    have htrailing := scan_blanks h offset []
    rw [List.append_nil] at htrailing
    exact htrailing
  | cons item rest ih =>
    obtain ⟨blanks, t⟩ := item
    obtain ⟨hblanks, ht, -, hrest⟩ := h
    have hcons : scan none (offset + size blanks) (t.chars ++ text rest trailing) =
        (scan none (offset + size blanks + size t.chars) (text rest trailing)).map
          (⟨t, offset + size blanks⟩ :: ·) := by
      cases hname : t.isName with
      | false => exact scan_token ht hname _ _
      | true =>
        cases t with
        | name s =>
          have hfound := scan_word (ht.2 s rfl) (offset + size blanks) (head_text (hname ▸ hrest))
          rwa [String.ofList_toList] at hfound
        | _ => cases hname
    rw [text, scan_blanks hblanks, hcons, ih hrest]
    rfl

/-! ## Nothing else has tokens -/

/-- Tokens whose text does not continue a name may follow one. -/
theorem Spacing.IsSpaced.afterName {items : Spacing} {trailing : List Char}
    (h : IsSpaced false items trailing)
    (hhead : ∀ c ∈ (text items trailing).head?, continuesName c = false) :
    IsSpaced true items trailing := by
  match items with
  | [] => exact h
  | (blanks, t) :: rest =>
    obtain ⟨hblanks, hwritable, -, hrest⟩ := h
    refine ⟨hblanks, hwritable, fun _ hname hnil => ?_, hrest⟩
    subst hnil
    cases t with
    | name s =>
      obtain ⟨c, more, hword, hstart, -⟩ := hwritable.2 s rfl
      have hc := hhead c (by simp [text, Token.chars, hword])
      rw [continuesName_of_startsName hstart] at hc
      cases hc
    | _ => cases hname

/-- Characters from an offset on that are spaced tokens, and the tokens. -/
def HasTokens (offset : Nat) (cs : List Char) (ts : List Located) : Prop :=
  ∃ items trailing, IsSpaced false items trailing ∧ cs = text items trailing ∧
    ts = located offset items trailing

/-- Characters from an offset on that continue an open name, with spaced tokens behind it, and the
tokens from this name on. -/
def ContinuesTokens (start : Nat) (word : List Char) (offset : Nat) (cs : List Char)
    (ts : List Located) : Prop :=
  ∃ more items trailing, more.all continuesName = true ∧ IsSpaced true items trailing ∧
    cs = more ++ text items trailing ∧
    ts = ⟨.name (String.ofList (word.reverse ++ more)), start⟩ ::
      located (offset + size more) items trailing

/-- One more blank in front moves the tokens. -/
theorem HasTokens.blank {c : Char} (hc : Text.isBlank c = true) {offset : Nat} {cs : List Char}
    {ts : List Located} (h : HasTokens (offset + c.utf8Size) cs ts) :
    HasTokens offset (c :: cs) ts := by
  obtain ⟨items, trailing, hspaced, rfl, rfl⟩ := h
  match items with
  | [] =>
    refine ⟨[], c :: trailing, ?_, rfl, ?_⟩
    · exact List.all_eq_true.mpr (List.forall_mem_cons.mpr ⟨hc, List.all_eq_true.mp hspaced⟩)
    · rw [located, located, size_cons, Nat.add_assoc]
  | (blanks, t) :: rest =>
    obtain ⟨hblanks, hwritable, -, hrest⟩ := hspaced
    refine ⟨(c :: blanks, t) :: rest, trailing, ⟨?_, hwritable, nofun, hrest⟩, rfl, ?_⟩
    · exact List.all_eq_true.mpr (List.forall_mem_cons.mpr ⟨hc, List.all_eq_true.mp hblanks⟩)
    · rw [located, located, size_cons, Nat.add_assoc]

/-- A token of one character is written as it. -/
theorem chars_of_punctuation {c : Char} {t : Token} (h : punctuation? c = some t) :
    t.chars = [c] ∧ t.isName = false ∧ t.IsWritable := by
  unfold punctuation? at h
  split at h
  case h_5 => cases h
  all_goals
    cases h
    exact ⟨rfl, rfl, nofun, nofun⟩

/-- A character that is a token by itself stands in front of the others. -/
theorem HasTokens.punctuation {c : Char} {t : Token} (ht : punctuation? c = some t) {offset : Nat}
    {cs : List Char} {ts : List Located} (h : HasTokens (offset + c.utf8Size) cs ts) :
    HasTokens offset (c :: cs) (⟨t, offset⟩ :: ts) := by
  obtain ⟨items, trailing, hspaced, rfl, rfl⟩ := h
  obtain ⟨hchars, hname, hwritable⟩ := chars_of_punctuation ht
  refine ⟨([], t) :: items, trailing, ⟨rfl, hwritable, nofun, hname ▸ hspaced⟩, ?_, ?_⟩
  · rw [text, hchars]
    rfl
  · rw [located, hchars]
    rfl

/-- A character that starts a name makes a token with what continues the name. -/
theorem ContinuesTokens.name {c : Char} (hc : startsName c = true) {offset : Nat} {cs : List Char}
    {ts : List Located} (h : ContinuesTokens offset [c] (offset + c.utf8Size) cs ts) :
    HasTokens offset (c :: cs) ts := by
  obtain ⟨more, items, trailing, hmore, hspaced, rfl, rfl⟩ := h
  refine ⟨([], .name (String.ofList (c :: more))) :: items, trailing,
    ⟨rfl, ⟨nofun, ?_⟩, nofun, hspaced⟩, ?_, ?_⟩
  · rintro s ⟨⟩
    exact ⟨c, more, String.toList_ofList, hc, hmore⟩
  · simp [text, Token.chars]
  · simp [located, Token.chars, size, Nat.add_assoc]

/-- A character that continues a name is taken into it. -/
theorem ContinuesTokens.more {c : Char} (hc : continuesName c = true) {start offset : Nat}
    {word cs : List Char} {ts : List Located}
    (h : ContinuesTokens start (c :: word) (offset + c.utf8Size) cs ts) :
    ContinuesTokens start word offset (c :: cs) ts := by
  obtain ⟨more, items, trailing, hmore, hspaced, rfl, rfl⟩ := h
  refine ⟨c :: more, items, trailing, ?_, hspaced, rfl, ?_⟩
  · rw [List.all_cons, hc, hmore]
    rfl
  · simp [size, Nat.add_assoc]

/-- Where nothing continues a name it ends, and tokens follow it. -/
theorem HasTokens.afterName {start offset : Nat} {word cs : List Char} {ts : List Located}
    (hhead : ∀ c ∈ cs.head?, continuesName c = false) (h : HasTokens offset cs ts) :
    ContinuesTokens start word offset cs (finishName (some (start, word)) ++ ts) := by
  obtain ⟨items, trailing, hspaced, rfl, rfl⟩ := h
  exact ⟨[], items, trailing, rfl, hspaced.afterName hhead, rfl, by simp [finishName, size]⟩

/-- A text that is scanned to its end is spaced tokens, behind what continues an open name. -/
theorem hasTokens_of_scan {word : OpenName} {offset : Nat} {cs : List Char} {ts : List Located}
    (h : scan word offset cs = .ok ts) :
    match word with
    | none => HasTokens offset cs ts
    | some (start, w) => ContinuesTokens start w offset cs ts := by
  induction cs generalizing word offset ts with
  | nil =>
    cases h
    cases word with
    | none => exact ⟨[], [], rfl, rfl, rfl⟩
    | some opened => exact ⟨[], [], [], rfl, rfl, rfl, by simp [finishName, located, size]⟩
  | cons c rest ih =>
    have hfresh {ts : List Located} (h : scan none offset (c :: rest) = .ok ts) :
        HasTokens offset (c :: rest) ts := by
      rw [scan_none_cons] at h
      split at h
      next hblank => exact (ih h).blank hblank
      next =>
        split at h
        next t ht =>
          obtain ⟨later, hlater, rfl⟩ := Sequence.map_eq_ok_iff.mp h
          exact (ih hlater).punctuation ht
        next =>
          split at h
          next hstart => exact (ih h).name hstart
          next => cases h
    cases word with
    | none => exact hfresh h
    | some opened =>
      obtain ⟨start, w⟩ := opened
      cases hc : continuesName c with
      | true =>
        rw [scan_continues hc] at h
        exact (ih h).more hc
      | false =>
        have hhead : ∀ d ∈ (c :: rest).head?, continuesName d = false := by
          rintro d ⟨⟩
          exact hc
        rw [scan_ends hhead] at h
        obtain ⟨later, hlater, rfl⟩ := Sequence.map_eq_ok_iff.mp h
        exact (hfresh hlater).afterName hhead

/-- A text has tokens exactly if it is spaced tokens, and they are the ones it has, each where it is
written. -/
theorem tokens_eq_ok_iff {s : String} {ts : List Located} :
    tokens s = .ok ts ↔ ∃ items trailing, IsSpaced false items trailing ∧
      s.toList = text items trailing ∧ ts = located 0 items trailing := by
  constructor
  · exact hasTokens_of_scan
  · rintro ⟨items, trailing, hspaced, htext, rfl⟩
    rw [tokens, htext, scan_text hspaced]

/-! ## Where tokens are written -/

/-- Each token is found behind the octets in front of it. -/
theorem Spacing.located_getElem? (offset : Nat) (before after : Spacing) (blanks : List Char)
    (t : Token) (trailing : List Char) :
    (located offset (before ++ (blanks, t) :: after) trailing)[before.length]? =
      some ⟨t, offset + size (text before blanks)⟩ := by
  induction before generalizing offset with
  | nil => rfl
  | cons item rest ih =>
    rw [List.cons_append, located, List.length_cons, List.getElem?_cons_succ, ih, text,
      size_append, size_append]
    simp only [Nat.add_assoc]

/-- The end of the text is found behind all of it. -/
theorem Spacing.located_getElem?_length (offset : Nat) (items : Spacing) (trailing : List Char) :
    (located offset items trailing)[items.length]? =
      some ⟨.endOfText, offset + size (text items trailing)⟩ := by
  induction items generalizing offset with
  | nil => rfl
  | cons item rest ih =>
    rw [located, List.length_cons, List.getElem?_cons_succ, ih, text, size_append, size_append]
    simp only [Nat.add_assoc]

/-- The scanner undoes the spacing of tokens, whatever blanks are in front of them and at the end.
The text has exactly these tokens and its end. Each of them is found behind as many octets as are
written in front of it, and its characters are written there; the end is found behind all octets of
the text. -/
theorem spaced_tokens_recovered {items : Spacing} {trailing : List Char}
    (h : IsSpaced false items trailing) :
    ∃ ts, tokens (String.ofList (text items trailing)) = .ok ts ∧
      ts.map Located.token = items.map Prod.snd ++ [.endOfText] ∧
      (∀ before blanks t after, items = before ++ (blanks, t) :: after →
        text items trailing = text before blanks ++ (t.chars ++ text after trailing) ∧
          ts[before.length]? = some ⟨t, (String.ofList (text before blanks)).utf8ByteSize⟩) ∧
      ts[items.length]? =
        some ⟨.endOfText, (String.ofList (text items trailing)).utf8ByteSize⟩ := by
  refine ⟨located 0 items trailing, ?_, map_token_located 0 items trailing, ?_, ?_⟩
  · exact tokens_eq_ok_iff.mpr ⟨items, trailing, h, String.toList_ofList, rfl⟩
  · rintro before blanks t after rfl
    refine ⟨text_split before after blanks t trailing, ?_⟩
    rw [located_getElem?, utf8ByteSize_ofList, Nat.zero_add]
  · rw [located_getElem?_length, utf8ByteSize_ofList, Nat.zero_add]

/-- Blanks of several octets, letters of two, and two names that a blank and a tab keep apart. -/
theorem spaced_tokens_recovered_blanks :
    ∃ ts, tokens "\u3000größe.1\u2003[_x \té" = .ok ts ∧
      ts.map Located.token =
        [.name "größe.1", .openBracket, .name "_x", .name "é", .endOfText] ∧
      ts[0]? = some ⟨.name "größe.1", 3⟩ ∧ ts[1]? = some ⟨.openBracket, 15⟩ ∧
      ts[2]? = some ⟨.name "_x", 16⟩ ∧ ts[3]? = some ⟨.name "é", 20⟩ ∧
      ts[4]? = some ⟨.endOfText, 22⟩ := by
  let items : Spacing := [(['\u3000'], .name "größe.1"), (['\u2003'], .openBracket),
    ([], .name "_x"), ([' ', '\t'], .name "é")]
  have hfirst : IsWord "größe.1".toList := ⟨'g', "röße.1".toList, rfl, by decide +kernel⟩
  have hsecond : IsWord "_x".toList := ⟨'_', ['x'], rfl, by decide +kernel⟩
  have hthird : IsWord "é".toList := ⟨'é', [], rfl, by decide +kernel⟩
  have hspaced : IsSpaced false items [] :=
    ⟨by decide +kernel, Token.isWritable_name hfirst, nofun, by decide +kernel,
      Token.isWritable_of_punctuation nofun rfl, nofun, rfl, Token.isWritable_name hsecond, nofun,
      by decide +kernel, Token.isWritable_name hthird, nofun, rfl⟩
  obtain ⟨ts, htokens, hmap, hplaces, hend⟩ := spaced_tokens_recovered hspaced
  refine ⟨ts, htokens, hmap, (hplaces [] _ _ _ rfl).2, (hplaces [_] _ _ _ rfl).2,
    (hplaces [_, _] _ _ _ rfl).2, (hplaces [_, _, _] _ _ _ rfl).2, hend⟩

end TypedModel.Hint
