import TypedModel.Hint.Parser

/-!
# The grammar of hints

A hint is written as a union, `union := primary ('|' primary)*`, of primaries,
`primary := NAME ('[' union (',' union)* ']')?`. A reading of a sequence of tokens is a tree of
these two rules; no sequence has two of them. What a tree stands for is said here on its own: built-in
names, records and foreign classes, the five names that take arguments, and unions without nesting
and repetition.
-/

namespace TypedModel.Hint

/-! ## Readings -/

mutual

/-- A reading as a union: a primary, and others behind bars. -/
inductive UnionTree where
  /-- The primaries in order. -/
  | mk (first : PrimaryTree) (others : List PrimaryTree)

/-- A reading as a primary. -/
inductive PrimaryTree where
  /-- A name alone. -/
  | bare (name : String)
  /-- A name with one argument in brackets, and others behind commas. -/
  | applied (name : String) (first : UnionTree) (others : List UnionTree)

end

mutual

/-- Tokens of a union. -/
def UnionTree.tokens : UnionTree → List Token
  | .mk first others => first.tokens ++ barredTokens others
termination_by structural t => t

/-- Tokens of a primary. -/
def PrimaryTree.tokens : PrimaryTree → List Token
  | .bare name => [.name name]
  | .applied name first others =>
    .name name :: .openBracket :: (first.tokens ++ (commaTokens others ++ [.closeBracket]))
termination_by structural t => t

/-- Tokens of primaries, each behind a bar. -/
def barredTokens : List PrimaryTree → List Token
  | [] => []
  | t :: rest => .bar :: (t.tokens ++ barredTokens rest)
termination_by structural ts => ts

/-- Tokens of unions, each behind a comma. -/
def commaTokens : List UnionTree → List Token
  | [] => []
  | t :: rest => .comma :: (t.tokens ++ commaTokens rest)
termination_by structural ts => ts

end

/-- Tokens that may follow a primary: no bracket opens behind it. -/
def NoBracket (ts : List Token) : Prop := ts.head? ≠ some .openBracket

/-- Tokens that may follow a union: neither a bracket nor a bar. -/
def NoBar (ts : List Token) : Prop := NoBracket ts ∧ ts.head? ≠ some .bar

/-- Behind a primary of a union no bracket opens. -/
theorem noBracket_barred {others : List PrimaryTree} {rest : List Token} (h : NoBracket rest) :
    NoBracket (barredTokens others ++ rest) := by
  cases others with
  | nil => exact h
  | cons t ts => simp [NoBracket, barredTokens]

/-- Behind an argument comes a comma or the closing bracket. -/
theorem noBar_comma (others : List UnionTree) (rest : List Token) :
    NoBar (commaTokens others ++ (.closeBracket :: rest)) := by
  cases others <;> simp [NoBar, NoBracket, commaTokens]

mutual

/-- Tokens have one reading as a primary, and one rest behind it. -/
theorem PrimaryTree.tokens_inj : ∀ (t u : PrimaryTree) (r s : List Token), NoBracket r →
    NoBracket s → t.tokens ++ r = u.tokens ++ s → t = u ∧ r = s
  | .bare m, .bare n, r, s, _, _, h => by
    simp only [PrimaryTree.tokens, List.singleton_append, List.cons.injEq, Token.name.injEq] at h
    exact ⟨by rw [h.1], h.2⟩
  | .bare m, .applied n first others, r, s, hr, _, h => by
    simp only [PrimaryTree.tokens, List.nil_append, List.cons_append, List.cons.injEq] at h
    exact absurd (by rw [h.2]; rfl) hr
  | .applied m first others, .bare n, r, s, _, hs, h => by
    simp only [PrimaryTree.tokens, List.nil_append, List.cons_append, List.cons.injEq] at h
    exact absurd (by rw [← h.2]; rfl) hs
  | .applied m a as, .applied n b bs, r, s, _, _, h => by
    simp only [PrimaryTree.tokens, List.cons_append, List.append_assoc, List.cons.injEq,
      Token.name.injEq, List.nil_append, true_and] at h
    obtain ⟨rfl, hargs⟩ := h
    obtain ⟨rfl, hothers⟩ :=
      UnionTree.tokens_inj a b _ _ (noBar_comma as r) (noBar_comma bs s) hargs
    obtain ⟨rfl, rfl⟩ := commaTokens_inj as bs r s hothers
    exact ⟨rfl, rfl⟩

/-- Tokens have one reading as a union, and one rest behind it. -/
theorem UnionTree.tokens_inj : ∀ (t u : UnionTree) (r s : List Token), NoBar r → NoBar s →
    t.tokens ++ r = u.tokens ++ s → t = u ∧ r = s
  | .mk a as, .mk b bs, r, s, hr, hs, h => by
    simp only [UnionTree.tokens, List.append_assoc] at h
    obtain ⟨rfl, hothers⟩ := PrimaryTree.tokens_inj a b _ _ (noBracket_barred hr.1)
      (noBracket_barred hs.1) h
    obtain ⟨rfl, rfl⟩ := barredTokens_inj as bs r s hr hs hothers
    exact ⟨rfl, rfl⟩

/-- Tokens have one reading as primaries behind bars, and one rest behind them. -/
theorem barredTokens_inj : ∀ (ts us : List PrimaryTree) (r s : List Token), NoBar r → NoBar s →
    barredTokens ts ++ r = barredTokens us ++ s → ts = us ∧ r = s
  | [], [], r, s, _, _, h => ⟨rfl, h⟩
  | [], u :: us, r, s, hr, _, h => by
    simp only [barredTokens, List.nil_append, List.cons_append] at h
    exact absurd (by rw [h]; rfl) hr.2
  | t :: ts, [], r, s, _, hs, h => by
    simp only [barredTokens, List.nil_append, List.cons_append] at h
    exact absurd (by rw [← h]; rfl) hs.2
  | t :: ts, u :: us, r, s, hr, hs, h => by
    simp only [barredTokens, List.cons_append, List.append_assoc, List.cons.injEq, true_and] at h
    obtain ⟨rfl, hrest⟩ := PrimaryTree.tokens_inj t u _ _ (noBracket_barred hr.1)
      (noBracket_barred hs.1) h
    obtain ⟨rfl, rfl⟩ := barredTokens_inj ts us r s hr hs hrest
    exact ⟨rfl, rfl⟩

/-- Tokens have one reading as arguments behind commas up to the closing bracket. -/
theorem commaTokens_inj : ∀ (ts us : List UnionTree) (r s : List Token),
    commaTokens ts ++ (.closeBracket :: r) = commaTokens us ++ (.closeBracket :: s) →
    ts = us ∧ r = s
  | [], [], r, s, h => ⟨rfl, by simpa [commaTokens] using h⟩
  | [], u :: us, r, s, h => by simp [commaTokens] at h
  | t :: ts, [], r, s, h => by simp [commaTokens] at h
  | t :: ts, u :: us, r, s, h => by
    simp only [commaTokens, List.cons_append, List.append_assoc, List.cons.injEq, true_and] at h
    obtain ⟨rfl, hrest⟩ := UnionTree.tokens_inj t u _ _ (noBar_comma ts r) (noBar_comma us s) h
    obtain ⟨rfl, rfl⟩ := commaTokens_inj ts us r s hrest
    exact ⟨rfl, rfl⟩

end

/-! ## Names -/

/-- What a name is called by: the name itself, or what stands behind one leading `typing.`. -/
def IsShort (name short : String) : Prop :=
  name = "typing." ++ short ∨ name = short ∧ ∀ rest, name ≠ "typing." ++ rest

/-- The names that stand for a hint by themselves. -/
def builtinNames : List (String × TypeHint) :=
  [("int", .scalar .int), ("str", .scalar .str), ("bool", .scalar .bool),
    ("float", .scalar .float), ("bytes", .scalar .bytes), ("datetime", .scalar .datetime),
    ("datetime.datetime", .scalar .datetime), ("Any", .any), ("None", .none), ("NoneType", .none),
    ("DataFrame", .frame), ("pd.DataFrame", .frame), ("pandas.DataFrame", .frame)]

/-- What a name without arguments stands for: a built-in hint, or else the record registered under
the full name, or else the class of that name. -/
inductive NameDenotes (p : Parser) (name : String) : TypeHint → Prop where
  /-- A built-in name. -/
  | builtin {short : String} {h : TypeHint} (hshort : IsShort name short)
      (hin : (short, h) ∈ builtinNames) : NameDenotes p name h
  /-- A registered record. -/
  | record {short : String} {d : RecordDef} (hshort : IsShort name short)
      (hout : ∀ h, (short, h) ∉ builtinNames) (hrecord : p.records.get? name = some d) :
      NameDenotes p name (.record d)
  /-- Any other name. -/
  | foreign {short : String} (hshort : IsShort name short)
      (hout : ∀ h, (short, h) ∉ builtinNames) (hrecord : p.records.get? name = none) :
      NameDenotes p name (.foreign name)

/-- The union of hints: members of unions among them stand for themselves, of equal ones the first
stays, and a single member is no union. -/
def unionHint (hints : List TypeHint) : TypeHint :=
  match (hints.flatMap TypeHint.asMembers).eraseDupsBy
      fun later earlier => earlier.sameAs later with
  | [h] => h
  | members => .union members

/-- Names of lists. -/
def listNames : List String := ["list", "List"]

/-- Names of dicts. -/
def dictNames : List String := ["dict", "Dict"]

/-- Text of a class with arguments. -/
def appliedText (name : String) (args : List TypeHint) : String :=
  name ++ "[" ++ String.intercalate ", " (args.map TypeHint.display) ++ "]"

/-- What a name with arguments stands for. -/
inductive AppliedDenotes (name : String) : List TypeHint → TypeHint → Prop where
  /-- Lists of one hint. -/
  | list {short : String} {element : TypeHint} (hshort : IsShort name short)
      (hin : short ∈ listNames) : AppliedDenotes name [element] (.list element)
  /-- Dicts from one hint to another. -/
  | dict {short : String} {key value : TypeHint} (hshort : IsShort name short)
      (hin : short ∈ dictNames) : AppliedDenotes name [key, value] (.dict key value)
  /-- One hint or nothing. -/
  | optional {inner : TypeHint} (hshort : IsShort name "Optional") :
      AppliedDenotes name [inner] (unionHint [inner, .none])
  /-- One of several hints. -/
  | union {args : List TypeHint} (hshort : IsShort name "Union") :
      AppliedDenotes name args (unionHint args)
  /-- A class with arguments. -/
  | foreign {short : String} {args : List TypeHint} (hshort : IsShort name short)
      (hout : short ∉ "Optional" :: "Union" :: (listNames ++ dictNames)) :
      AppliedDenotes name args (.foreign (appliedText name args))

/-- Whether a name may have so many arguments: lists have one, dicts two, and what is optional is
one hint. -/
def ArityFits (name : String) (count : Nat) : Prop :=
  ∀ short, IsShort name short → (short ∈ listNames → count = 1) ∧ (short ∈ dictNames → count = 2) ∧
    (short = "Optional" → count = 1)

/-! ## What readings stand for -/

mutual

/-- The hint that a union stands for. -/
def UnionTree.Denotes (p : Parser) : UnionTree → TypeHint → Prop
  | .mk first others, h => ∃ m ms, first.Denotes p m ∧ MembersDenote p others ms ∧
      h = unionHint (m :: ms)
termination_by structural t => t

/-- The hint that a primary stands for. -/
def PrimaryTree.Denotes (p : Parser) : PrimaryTree → TypeHint → Prop
  | .bare name, h => NameDenotes p name h
  | .applied name first others, h => ∃ a as, first.Denotes p a ∧ ArgsDenote p others as ∧
      AppliedDenotes name (a :: as) h
termination_by structural t => t

/-- The hints that members stand for, in order. -/
def MembersDenote (p : Parser) : List PrimaryTree → List TypeHint → Prop
  | [], hs => hs = []
  | t :: rest, hs => ∃ h others, hs = h :: others ∧ t.Denotes p h ∧ MembersDenote p rest others
termination_by structural ts => ts

/-- The hints that arguments stand for, in order. -/
def ArgsDenote (p : Parser) : List UnionTree → List TypeHint → Prop
  | [], hs => hs = []
  | t :: rest, hs => ∃ h others, hs = h :: others ∧ t.Denotes p h ∧ ArgsDenote p rest others
termination_by structural ts => ts

end

mutual

/-- Whether all names of a union have as many arguments as they may have. -/
def UnionTree.AritiesFit : UnionTree → Prop
  | .mk first others => first.AritiesFit ∧ MembersAritiesFit others
termination_by structural t => t

/-- Whether all names of a primary have as many arguments as they may have. -/
def PrimaryTree.AritiesFit : PrimaryTree → Prop
  | .bare _ => True
  | .applied name first others =>
    ArityFits name (others.length + 1) ∧ first.AritiesFit ∧ ArgsAritiesFit others
termination_by structural t => t

/-- Whether all names of members have as many arguments as they may have. -/
def MembersAritiesFit : List PrimaryTree → Prop
  | [] => True
  | t :: rest => t.AritiesFit ∧ MembersAritiesFit rest
termination_by structural ts => ts

/-- Whether all names of arguments have as many arguments as they may have. -/
def ArgsAritiesFit : List UnionTree → Prop
  | [] => True
  | t :: rest => t.AritiesFit ∧ ArgsAritiesFit rest
termination_by structural ts => ts

end

end TypedModel.Hint
