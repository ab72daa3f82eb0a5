import TypedModel.Proofs.Hint.Inheritance
import TypedModel.Proofs.Hint.Union
import TypedModel.Proofs.Entries

/-!
# Printed hints are read again

The text of a hint that was read is the text of a reading once more, though perhaps of another one:
unions are printed as `Optional` or `Union` and not with bars, names of several spellings in one of
them. What the new reading stands for coerces every value as the first hint does. It need not be the
same hint, since members may have become the same.
-/

namespace TypedModel.Hint

open Sequence

variable {p : Parser}

/-! ## Readings written out -/

mutual

/-- Tokens of a union with blanks around bars. -/
def UnionTree.spacing (blanks : List Char) : UnionTree → Spacing
  | .mk first others => first.spacing blanks ++ barredSpacing others
termination_by structural t => t

/-- Tokens of a primary with a blank behind each comma. -/
def PrimaryTree.spacing (blanks : List Char) : PrimaryTree → Spacing
  | .bare name => [(blanks, .name name)]
  | .applied name first others =>
    (blanks, .name name) :: ([], .openBracket) ::
      (first.spacing [] ++ (commaSpacing others ++ [([], .closeBracket)]))
termination_by structural t => t

/-- Tokens of primaries, each behind a bar between blanks. -/
def barredSpacing : List PrimaryTree → Spacing
  | [] => []
  | t :: rest => ([' '], .bar) :: (t.spacing [' '] ++ barredSpacing rest)
termination_by structural ts => ts

/-- Tokens of unions, each behind a comma and a blank. -/
def commaSpacing : List UnionTree → Spacing
  | [] => []
  | t :: rest => ([], .comma) :: (t.spacing [' '] ++ commaSpacing rest)
termination_by structural ts => ts

end

mutual

/-- A union is written with its tokens. -/
theorem UnionTree.map_snd_spacing : ∀ (t : UnionTree) (blanks : List Char),
    (t.spacing blanks).map Prod.snd = t.tokens
  | .mk first others, blanks => by
    rw [UnionTree.spacing, UnionTree.tokens, List.map_append,
      PrimaryTree.map_snd_spacing first blanks, map_snd_barredSpacing others]

/-- A primary is written with its tokens. -/
theorem PrimaryTree.map_snd_spacing : ∀ (t : PrimaryTree) (blanks : List Char),
    (t.spacing blanks).map Prod.snd = t.tokens
  | .bare _, _ => rfl
  | .applied name first others, blanks => by
    rw [PrimaryTree.spacing, PrimaryTree.tokens, List.map_cons, List.map_cons, List.map_append,
      List.map_append, UnionTree.map_snd_spacing first [], map_snd_commaSpacing others]
    rfl

/-- Primaries behind bars are written with their tokens. -/
theorem map_snd_barredSpacing : ∀ ts : List PrimaryTree,
    (barredSpacing ts).map Prod.snd = barredTokens ts
  | [] => rfl
  | t :: ts => by
    rw [barredSpacing, barredTokens, List.map_cons, List.map_append,
      PrimaryTree.map_snd_spacing t [' '], map_snd_barredSpacing ts]

/-- Unions behind commas are written with their tokens. -/
theorem map_snd_commaSpacing : ∀ ts : List UnionTree,
    (commaSpacing ts).map Prod.snd = commaTokens ts
  | [] => rfl
  | t :: ts => by
    rw [commaSpacing, commaTokens, List.map_cons, List.map_append,
      UnionTree.map_snd_spacing t [' '], map_snd_commaSpacing ts]

end

/-- What may follow a name may follow anything. -/
theorem Spacing.IsSpaced.of_afterName {items : Spacing} {trailing : List Char}
    (h : Spacing.IsSpaced true items trailing) : Spacing.IsSpaced false items trailing := by
  match items with
  | [] => exact h
  | (blanks, t) :: rest =>
    obtain ⟨hblanks, hwritable, -, hrest⟩ := h
    exact ⟨hblanks, hwritable, nofun, hrest⟩

/-- A bracket, a comma or a bar may stand behind anything. -/
theorem Spacing.isSpaced_punctuation {t : Token} (hname : t.isName = false) (ht : t.IsWritable)
    {blanks : List Char} (hblanks : blanks.all Text.isBlank = true) {items : Spacing}
    {trailing : List Char} (h : Spacing.IsSpaced false items trailing) (afterName : Bool) :
    Spacing.IsSpaced afterName ((blanks, t) :: items) trailing := by
  refine ⟨hblanks, ht, fun _ hn => ?_, ?_⟩
  · rw [hname] at hn
    cases hn
  · rwa [hname]

mutual

/-- A union of writable tokens is written as tokens are spaced. -/
theorem UnionTree.isSpaced : ∀ (t : UnionTree) {blanks : List Char} {rest : Spacing}
    {trailing : List Char}, (∀ tok ∈ t.tokens, tok.IsWritable) →
    blanks.all Text.isBlank = true → Spacing.IsSpaced true rest trailing →
    Spacing.IsSpaced false (t.spacing blanks ++ rest) trailing
  | .mk first others, blanks, rest, trailing, hwritable, hblanks, hrest => by
    rw [UnionTree.tokens, List.forall_mem_append] at hwritable
    rw [UnionTree.spacing, List.append_assoc]
    exact PrimaryTree.isSpaced first hwritable.1 hblanks
      (isSpaced_barredSpacing others hwritable.2 hrest)

/-- A primary of writable tokens is written as tokens are spaced. -/
theorem PrimaryTree.isSpaced : ∀ (t : PrimaryTree) {blanks : List Char} {rest : Spacing}
    {trailing : List Char}, (∀ tok ∈ t.tokens, tok.IsWritable) →
    blanks.all Text.isBlank = true → Spacing.IsSpaced true rest trailing →
    Spacing.IsSpaced false (t.spacing blanks ++ rest) trailing
  | .bare name, blanks, rest, trailing, hwritable, hblanks, hrest =>
    ⟨hblanks, hwritable _ List.mem_cons_self, nofun, hrest⟩
  | .applied name first others, blanks, rest, trailing, hwritable, hblanks, hrest => by
    simp only [PrimaryTree.tokens, List.forall_mem_cons, List.forall_mem_append] at hwritable
    obtain ⟨hname, hopen, hfirst, hothers, hclose, -⟩ := hwritable
    rw [PrimaryTree.spacing, List.cons_append, List.cons_append, List.append_assoc,
      List.append_assoc, List.singleton_append]
    refine ⟨hblanks, hname, nofun, ?_⟩
    have hend : Spacing.IsSpaced true (([], .closeBracket) :: rest) trailing :=
      Spacing.isSpaced_punctuation rfl hclose rfl hrest.of_afterName true
    exact Spacing.isSpaced_punctuation rfl hopen rfl
      (UnionTree.isSpaced first hfirst rfl (isSpaced_commaSpacing others hothers hend)) true

/-- Primaries of writable tokens are written behind bars as tokens are spaced. -/
theorem isSpaced_barredSpacing : ∀ (ts : List PrimaryTree) {rest : Spacing}
    {trailing : List Char}, (∀ tok ∈ barredTokens ts, tok.IsWritable) →
    Spacing.IsSpaced true rest trailing →
    Spacing.IsSpaced true (barredSpacing ts ++ rest) trailing
  | [], _, _, _, hrest => hrest
  | t :: ts, rest, trailing, hwritable, hrest => by
    simp only [barredTokens, List.forall_mem_cons, List.forall_mem_append] at hwritable
    obtain ⟨hbar, ht, hts⟩ := hwritable
    rw [barredSpacing, List.cons_append, List.append_assoc]
    exact Spacing.isSpaced_punctuation rfl hbar rfl
      (PrimaryTree.isSpaced t ht rfl (isSpaced_barredSpacing ts hts hrest)) true

/-- Unions of writable tokens are written behind commas as tokens are spaced. -/
theorem isSpaced_commaSpacing : ∀ (ts : List UnionTree) {rest : Spacing}
    {trailing : List Char}, (∀ tok ∈ commaTokens ts, tok.IsWritable) →
    Spacing.IsSpaced true rest trailing →
    Spacing.IsSpaced true (commaSpacing ts ++ rest) trailing
  | [], _, _, _, hrest => hrest
  | t :: ts, rest, trailing, hwritable, hrest => by
    simp only [commaTokens, List.forall_mem_cons, List.forall_mem_append] at hwritable
    obtain ⟨hcomma, ht, hts⟩ := hwritable
    rw [commaSpacing, List.cons_append, List.append_assoc]
    exact Spacing.isSpaced_punctuation rfl hcomma rfl
      (UnionTree.isSpaced t ht rfl (isSpaced_commaSpacing ts hts hrest)) true

end

/-- Characters of a reading. -/
def UnionTree.written (t : UnionTree) : List Char := Spacing.text (t.spacing []) []

/-- A reading is written behind blanks as it is written. -/
theorem UnionTree.text_spacing (t : UnionTree) (blanks trailing : List Char) :
    Spacing.text (t.spacing blanks) trailing = blanks ++ (t.written ++ trailing) := by
  rw [UnionTree.written, ← Spacing.text_eq_append]
  obtain ⟨first, others⟩ := t
  cases first <;> rfl

/-! ## Hints that can be read again -/

/-- A reading that a hint is printed as, and what it stands for: perhaps another hint, but one that
coerces every value as the printed one does. -/
structure Rereads (p : Parser) (h : TypeHint) (tree : UnionTree) (g : TypeHint) : Prop where
  /-- Names are written as names. -/
  writable : ∀ t ∈ tree.tokens, t.IsWritable
  /-- The reading is the text of the hint. -/
  written : tree.written = h.display.toList
  /-- The reading stands for the other hint. -/
  denotes : tree.Denotes p g
  /-- Both hints coerce alike. -/
  alike : g.CoercesAlike h

/-- Whether a hint is printed as something that is read as a hint that coerces alike. -/
def IsPrintable (p : Parser) (h : TypeHint) : Prop := ∃ tree g, Rereads p h tree g

/-- A printed reading is what its text is read as. -/
theorem Rereads.parse_display {h : TypeHint} {tree : UnionTree} {g : TypeHint}
    (hr : Rereads p h tree g) : p.parse h.display = .ok g := by
  have hspaced : Spacing.IsSpaced false (tree.spacing [] ++ []) [] :=
    tree.isSpaced hr.writable rfl rfl
  rw [List.append_nil] at hspaced
  have ht : tokens h.display = .ok (Spacing.located 0 (tree.spacing []) []) :=
    tokens_eq_ok_iff.mpr ⟨tree.spacing [], [], hspaced, hr.written.symm, rfl⟩
  refine (parse_eq_ok_iff_exists_tree ht).mpr ⟨tree, ?_, hr.denotes⟩
  rw [Spacing.map_token_located, tree.map_snd_spacing]

/-- A union of one hint coerces as this hint. -/
theorem plain_unionHint_singleton (h : TypeHint) (v : Value) :
    (unionHint [h]).plain v = h.plain v := by
  rw [← unionOf_eq_unionHint, TypeHint.plain_unionOf, TypeHint.plainFirst_singleton]

/-- A name that is the text of the hint it stands for is printed as that name. -/
theorem isPrintable_of_name {h : TypeHint} (hword : IsWord h.display.toList)
    (hdenotes : NameDenotes p h.display h) : IsPrintable p h := by
  refine ⟨.mk (.bare h.display) [], _, ?_, ?_, ⟨h, [], hdenotes, rfl, rfl⟩, fun v => ?_⟩
  · exact List.forall_mem_singleton.mpr (Token.isWritable_name hword)
  · simp [UnionTree.written, UnionTree.spacing, PrimaryTree.spacing, barredSpacing, Spacing.text,
      Token.chars]
  · exact plain_unionHint_singleton h v

/-- Hints behind commas are printed as arguments that stand for hints that coerce alike. -/
theorem exists_args_of_isPrintable {hs : List TypeHint} (hhs : ∀ h ∈ hs, IsPrintable p h) :
    ∃ trees gs, ArgsDenote p trees gs ∧ (∀ t ∈ commaTokens trees, t.IsWritable) ∧
      List.Forall₂ TypeHint.CoercesAlike gs hs ∧
      ∀ trailing, Spacing.text (commaSpacing trees) trailing =
        (hs.flatMap fun h => ", ".toList ++ h.display.toList) ++ trailing := by
  induction hs with
  | nil => exact ⟨[], [], rfl, nofun, .nil, fun _ => rfl⟩
  | cons h hs ih =>
    obtain ⟨⟨tree, g, hr⟩, hhs⟩ := List.forall_mem_cons.mp hhs
    obtain ⟨trees, gs, hdenotes, hwritable, halike, htext⟩ := ih hhs
    refine ⟨tree :: trees, g :: gs, ⟨g, gs, rfl, hr.denotes, hdenotes⟩, ?_,
      .cons hr.alike halike, fun trailing => ?_⟩
    · have hcomma : Token.comma.IsWritable := Token.isWritable_of_punctuation nofun rfl
      simp only [commaTokens, List.forall_mem_cons, List.forall_mem_append]
      exact ⟨hcomma, hr.writable, hwritable⟩
    · rw [commaSpacing, Spacing.text, Spacing.text_append, tree.text_spacing, hr.written, htext]
      simp [Token.chars]

/-- Texts with a separator between them are the first one and the others behind separators. -/
theorem toList_intercalate_cons (separator s : String) (rest : List String) :
    (String.intercalate separator (s :: rest)).toList =
      s.toList ++ rest.flatMap fun t => separator.toList ++ t.toList := by
  rw [String.toList_intercalate, List.map_cons]
  induction rest generalizing s with
  | nil => simp [List.intercalate]
  | cons t rest ih =>
    rw [List.map_cons, List.intercalate_cons_cons, ih t, List.flatMap_cons]
    simp only [List.append_assoc]

/-- Characters of a class with arguments. -/
theorem toList_appliedText (name : String) (a : TypeHint) (as : List TypeHint) :
    (appliedText name (a :: as)).toList =
      name.toList ++ '[' :: (a.display.toList ++
        ((as.flatMap fun h => ", ".toList ++ h.display.toList) ++ [']'])) := by
  have hopen : "[".toList = ['['] := rfl
  have hclose : "]".toList = [']'] := rfl
  rw [appliedText, List.map_cons, String.toList_append, String.toList_append,
    String.toList_append, toList_intercalate_cons, List.flatMap_map, hopen, hclose]
  simp only [List.append_assoc, List.cons_append, List.nil_append]

/-- A name with arguments is printed as such if its arguments are, and if it stands, with other
arguments that coerce alike, for something that does so too. -/
theorem isPrintable_of_applied {name : String} {a h : TypeHint} {as : List TypeHint}
    (hword : IsWord name.toList) (hdisplay : h.display = appliedText name (a :: as))
    (hargs : ∀ x ∈ a :: as, IsPrintable p x)
    (hdenotes : ∀ b bs, List.Forall₂ TypeHint.CoercesAlike (b :: bs) (a :: as) →
      ∃ g, AppliedDenotes name (b :: bs) g ∧ g.CoercesAlike h) :
    IsPrintable p h := by
  obtain ⟨⟨first, b, hr⟩, hrest⟩ := List.forall_mem_cons.mp hargs
  obtain ⟨others, bs, hothers, hwritable, halike, htext⟩ := exists_args_of_isPrintable hrest
  obtain ⟨g, hg, hgalike⟩ := hdenotes b bs (.cons hr.alike halike)
  refine ⟨.mk (.applied name first others) [], _, ?_, ?_,
    ⟨g, [], ⟨b, bs, hr.denotes, hothers, hg⟩, rfl, rfl⟩, fun v => ?_⟩
  · have hopen : Token.openBracket.IsWritable := Token.isWritable_of_punctuation nofun rfl
    have hclose : Token.closeBracket.IsWritable := Token.isWritable_of_punctuation nofun rfl
    simp only [UnionTree.tokens, PrimaryTree.tokens, barredTokens, List.append_nil,
      List.forall_mem_cons, List.forall_mem_append]
    exact ⟨Token.isWritable_name hword, hopen, hr.writable, hwritable, hclose, nofun⟩
  · rw [hdisplay, toList_appliedText, UnionTree.written, UnionTree.spacing, PrimaryTree.spacing,
      barredSpacing, List.append_nil, Spacing.text, Spacing.text, Spacing.text_append,
      first.text_spacing, Spacing.text_append, htext, hr.written]
    rfl
  · rw [plain_unionHint_singleton, hgalike v]

/-! ## Unions are printed -/

/-- A union of a hint and none is printed as optional. -/
theorem isPrintable_optional {h inner : TypeHint} (hinner : IsPrintable p inner)
    (hdisplay : h.display = appliedText "Optional" [inner])
    (hplain : ∀ v, h.plain v = TypeHint.plainFirst [inner, .none] v) : IsPrintable p h := by
  have hword : IsWord "Optional".toList := ⟨'O', "ptional".toList, rfl, by decide +kernel⟩
  have hshort : IsShort "Optional" "Optional" := isShort_iff.mpr rfl
  refine isPrintable_of_applied hword hdisplay (List.forall_mem_singleton.mpr hinner) ?_
  intro b bs hargs
  obtain ⟨hb, hbs⟩ := List.forall₂_cons.mp hargs
  obtain rfl := List.forall₂_nil_right_iff.mp hbs
  refine ⟨_, .optional hshort, fun v => ?_⟩
  rw [← unionOf_eq_unionHint, TypeHint.plain_unionOf, hplain]
  exact TypeHint.plainFirst_congr (.cons hb (.cons (fun _ => rfl) .nil)) v

/-- Texts of members are the texts of the hints. -/
theorem displayMembers_eq_map (members : List TypeHint) :
    TypeHint.displayMembers members = members.map TypeHint.display := by
  induction members with
  | nil => rfl
  | cons h rest ih => rw [TypeHint.displayMembers, ih, List.map_cons]

/-- Text of a union: a hint made optional, or all members. -/
theorem display_union (members : List TypeHint) :
    (TypeHint.union members).display =
      match TypeHint.optionalMember? members with
      | some inner => appliedText "Optional" [inner]
      | none => appliedText "Union" members := by
  rw [TypeHint.display, displayMembers_eq_map]
  match members with
  | [] | [_] | _ :: _ :: _ :: _ => rfl
  | [a, b] =>
    simp only [TypeHint.displayUnion, TypeHint.optionalMember?, List.map_cons, List.map_nil]
    cases a.isNone <;> cases b.isNone <;> rfl

/-- A union is printed if its members are. -/
theorem isPrintable_union {members : List TypeHint} (hne : members ≠ [])
    (hmembers : ∀ m ∈ members, IsPrintable p m) : IsPrintable p (.union members) := by
  have hdisplay := display_union members
  split at hdisplay
  next inner hoptional =>
    rcases TypeHint.eq_pair_of_optionalMember hoptional with rfl | rfl
    · exact isPrintable_optional (hmembers inner (by simp)) hdisplay fun _ => rfl
    · exact isPrintable_optional (hmembers inner (by simp)) hdisplay
        (TypeHint.plainFirst_none_comm inner)
  next =>
    obtain ⟨a, as, rfl⟩ := List.exists_cons_of_ne_nil hne
    have hword : IsWord "Union".toList := ⟨'U', "nion".toList, rfl, by decide +kernel⟩
    refine isPrintable_of_applied hword hdisplay hmembers fun b bs hargs => ?_
    refine ⟨_, .union (isShort_iff.mpr rfl), fun v => ?_⟩
    rw [← unionOf_eq_unionHint, TypeHint.plain_unionOf]
    exact TypeHint.plainFirst_congr hargs v

/-- Whether a hint and what it contributes to unions are printed: every member, and no member is a
union. -/
def HasPrintableMembers (p : Parser) (h : TypeHint) : Prop :=
  h.asMembers ≠ [] ∧ ∀ m ∈ h.asMembers, m.asMembers = [m] ∧ IsPrintable p m

/-- A hint is printed if its members are. -/
theorem HasPrintableMembers.isPrintable {h : TypeHint} (hm : HasPrintableMembers p h) :
    IsPrintable p h := by
  cases h with
  | union members => exact isPrintable_union hm.1 fun m hmem => (hm.2 m hmem).2
  | _ => exact (hm.2 _ (List.mem_singleton.mpr rfl)).2

/-- A hint that is no union contributes itself. -/
theorem IsPrintable.hasPrintableMembers {h : TypeHint} (hp : IsPrintable p h)
    (hsingle : h.asMembers = [h]) : HasPrintableMembers p h := by
  refine ⟨hsingle ▸ List.cons_ne_nil h [], fun m hm => ?_⟩
  rw [hsingle, List.mem_singleton] at hm
  exact hm ▸ ⟨hsingle, hp⟩

/-- A union of hints contributes some of the members that they contribute. -/
theorem hasPrintableMembers_unionHint {hs : List TypeHint} (hne : hs ≠ [])
    (hhs : ∀ h ∈ hs, HasPrintableMembers p h) : HasPrintableMembers p (unionHint hs) := by
  have hmembers : ∀ m ∈ (hs.flatMap TypeHint.asMembers).foldl TypeHint.addMember [],
      m.asMembers = [m] ∧ IsPrintable p m := by
    intro m hm
    rcases TypeHint.mem_of_mem_foldl_addMember hm with hm | hm
    · cases hm
    · obtain ⟨h, hh, hm⟩ := List.mem_flatMap.mp hm
      exact (hhs h hh).2 m hm
  have hsome : (hs.flatMap TypeHint.asMembers).foldl TypeHint.addMember [] ≠ [] := by
    obtain ⟨h, rest, rfl⟩ := List.exists_cons_of_ne_nil hne
    refine TypeHint.foldl_addMember_ne_nil ?_
    rw [List.nil_append, List.flatMap_cons]
    exact List.append_ne_nil_of_left_ne_nil (hhs h List.mem_cons_self).1 _
  rw [← unionOf_eq_unionHint]
  unfold TypeHint.unionOf
  split
  next h heq =>
    rw [heq] at hmembers
    obtain ⟨hsingle, hp⟩ := hmembers h (List.mem_singleton.mpr rfl)
    exact hp.hasPrintableMembers hsingle
  next => exact ⟨hsome, hmembers⟩

/-! ## Everything that is read is printed -/

/-- Built-in hints are printed as one of their names. -/
theorem isPrintable_of_builtin {short : String} {h : TypeHint} (hin : (short, h) ∈ builtinNames) :
    h.asMembers = [h] ∧ IsPrintable p h := by
  have hall : ∀ e ∈ builtinNames, e.2.asMembers = [e.2] ∧ IsWord e.2.display.toList ∧
      NameDenotes p e.2.display e.2 := by
    intro e he
    simp only [builtinNames, List.mem_cons, List.not_mem_nil, or_false] at he
    rcases he with rfl | rfl | rfl | rfl | rfl | rfl | rfl | rfl | rfl | rfl | rfl | rfl | rfl
    all_goals exact ⟨rfl, ⟨_, _, rfl, by decide +kernel⟩, nameDenotes_iff.mpr rfl⟩
  obtain ⟨hsingle, hword, hdenotes⟩ := hall _ hin
  exact ⟨hsingle, isPrintable_of_name hword hdenotes⟩

/-- Whether records are known by their names. -/
def Parser.KnowsByName (p : Parser) : Prop :=
  ∀ name d, p.records.get? name = some d → d.name = name

/-- What a name stands for is printed. -/
theorem hasPrintableMembers_of_name (hp : p.KnowsByName) {name : String} {h : TypeHint}
    (hword : IsWord name.toList) (hdenotes : NameDenotes p name h) : HasPrintableMembers p h := by
  cases hdenotes with
  | builtin hshort hin =>
    obtain ⟨hsingle, hprintable⟩ := isPrintable_of_builtin hin
    exact hprintable.hasPrintableMembers hsingle
  | @record _ d hshort hout hrecord =>
    have hname : (TypeHint.record d).display = name := by
      rw [← hp name d hrecord]
      cases d
      rfl
    refine (isPrintable_of_name ?_ ?_).hasPrintableMembers rfl
    · rwa [hname]
    · rw [hname]
      exact .record hshort hout hrecord
  | foreign hshort hout hrecord =>
    have hdenotes : NameDenotes p name (.foreign name) := .foreign hshort hout hrecord
    exact (@isPrintable_of_name p (.foreign name) hword hdenotes).hasPrintableMembers rfl

/-- A list is printed if its items' hint is. -/
theorem isPrintable_list {element : TypeHint} (he : IsPrintable p element) :
    IsPrintable p (.list element) := by
  have hword : IsWord "list".toList := ⟨'l', "ist".toList, rfl, by decide +kernel⟩
  have hshort : IsShort "list" "list" := isShort_iff.mpr rfl
  have hdisplay : (TypeHint.list element).display = appliedText "list" [element] := rfl
  have hargs : ∀ x ∈ [element], IsPrintable p x := List.forall_mem_singleton.mpr he
  refine isPrintable_of_applied hword hdisplay hargs fun b bs hargs => ?_
  obtain ⟨hb, hbs⟩ := List.forall₂_cons.mp hargs
  obtain rfl := List.forall₂_nil_right_iff.mp hbs
  refine ⟨.list b, .list hshort (by decide), fun v => ?_⟩
  rw [TypeHint.plain, TypeHint.plain, (funext hb : b.plain = element.plain)]

/-- A dict is printed if its hints are. -/
theorem isPrintable_dict {key value : TypeHint} (hk : IsPrintable p key)
    (hv : IsPrintable p value) : IsPrintable p (.dict key value) := by
  have hword : IsWord "dict".toList := ⟨'d', "ict".toList, rfl, by decide +kernel⟩
  have hshort : IsShort "dict" "dict" := isShort_iff.mpr rfl
  have hargs : ∀ x ∈ [key, value], IsPrintable p x := by simp [hk, hv]
  have hdisplay : (TypeHint.dict key value).display = appliedText "dict" [key, value] := rfl
  refine isPrintable_of_applied hword hdisplay hargs fun b bs hargs => ?_
  obtain ⟨-, hbs⟩ := List.forall₂_cons.mp hargs
  obtain ⟨c, cs, hc, hcs, rfl⟩ := List.forall₂_cons_right_iff.mp hbs
  obtain rfl := List.forall₂_nil_right_iff.mp hcs
  refine ⟨.dict b c, .dict hshort (by decide), fun v => ?_⟩
  rw [TypeHint.plain, TypeHint.plain, (funext hc : c.plain = value.plain)]

/-- What a name with printed arguments stands for is printed. -/
theorem hasPrintableMembers_of_applied {name : String} {args : List TypeHint} {h : TypeHint}
    (hword : IsWord name.toList) (hne : args ≠ [])
    (hargs : ∀ a ∈ args, HasPrintableMembers p a) (hdenotes : AppliedDenotes name args h) :
    HasPrintableMembers p h := by
  cases hdenotes with
  | @list _ element hshort hin =>
    have helement : IsPrintable p element := (hargs element (by simp)).isPrintable
    exact (isPrintable_list helement).hasPrintableMembers rfl
  | @dict _ key value hshort hin =>
    have hkey : IsPrintable p key := (hargs key (by simp)).isPrintable
    have hvalue : IsPrintable p value := (hargs value (by simp)).isPrintable
    exact (isPrintable_dict hkey hvalue).hasPrintableMembers rfl
  | @optional inner hshort =>
    have hnone : HasPrintableMembers p .none := by
      obtain ⟨hsingle, hprintable⟩ :=
        @isPrintable_of_builtin p "None" .none (by simp [builtinNames])
      exact hprintable.hasPrintableMembers hsingle
    refine hasPrintableMembers_unionHint (List.cons_ne_nil _ _) fun h hh => ?_
    rcases List.mem_pair.mp hh with rfl | rfl
    · exact hargs h (List.mem_singleton.mpr rfl)
    · exact hnone
  | union hshort => exact hasPrintableMembers_unionHint hne hargs
  | foreign hshort hout =>
    obtain ⟨a, as, rfl⟩ := List.exists_cons_of_ne_nil hne
    have hprintable : ∀ x ∈ a :: as, IsPrintable p x := fun x hx => (hargs x hx).isPrintable
    have hforeign : IsPrintable p (.foreign (appliedText name (a :: as))) :=
      isPrintable_of_applied hword rfl hprintable fun b bs _ =>
        ⟨_, .foreign hshort hout, fun _ => rfl⟩
    exact hforeign.hasPrintableMembers rfl

/-- Names are printed, and so is what is made of printed hints. -/
theorem isInherited_hasPrintableMembers (hp : p.KnowsByName) :
    IsInherited p (HasPrintableMembers p) where
  name := hasPrintableMembers_of_name hp
  applied := hasPrintableMembers_of_applied
  union := hasPrintableMembers_unionHint

/-- What a union of writable tokens stands for is printed. -/
theorem UnionTree.hasPrintableMembers (hp : p.KnowsByName) (t : UnionTree) {h : TypeHint}
    (hwritable : ∀ tok ∈ t.tokens, tok.IsWritable) (hdenotes : t.Denotes p h) :
    HasPrintableMembers p h :=
  t.inherits (isInherited_hasPrintableMembers hp) hwritable hdenotes

/-! ## Texts -/

/-- The parser that knows records. -/
def Parser.ofRecords (records : List RecordDef) : Parser :=
  records.foldl Parser.register Parser.empty

/-- A parser that is given records knows them by their names. -/
theorem Parser.knowsByName_ofRecords (records : List RecordDef) :
    (Parser.ofRecords records).KnowsByName := by
  have hall (q : Parser) (hq : ∀ e ∈ q.records, e.2.name = e.1) :
      ∀ e ∈ (records.foldl Parser.register q).records, e.2.name = e.1 := by
    induction records generalizing q with
    | nil => exact hq
    | cons d rest ih =>
      refine ih (q.register d) fun e he => ?_
      rcases Entries.mem_of_mem_insert he with rfl | he
      · rfl
      · exact hq e he
  intro name d hd
  exact hall Parser.empty nofun (name, d) (Entries.mem_of_get? hd)

/-- A printed hint is read again, and what is read means the same: for each text that is read as a
hint, the text of this hint is read by the same parser, and the new hint coerces every value to what
the first one coerces it to, or rejects it as that does. -/
theorem display_parses_alike (records : List RecordDef) (text : String) (h : TypeHint)
    (hparse : (Parser.ofRecords records).parse text = .ok h) :
    ∃ g, (Parser.ofRecords records).parse h.display = .ok g ∧
      ∀ v w, g.coerce v = .ok w ↔ h.coerce v = .ok w := by
  obtain ⟨tree, hwritable, hdenotes⟩ := exists_tree_of_parse hparse
  have hmembers :=
    tree.hasPrintableMembers (Parser.knowsByName_ofRecords records) hwritable hdenotes
  obtain ⟨printed, g, hr⟩ := hmembers.isPrintable
  refine ⟨g, hr.parse_display, fun v w => ?_⟩
  rw [TypeHint.coerce_eq_ok_iff, TypeHint.coerce_eq_ok_iff, hr.alike]

/-- Two members that differ only in the order of their own members are printed alike, and a name
behind `typing.` is printed without it. -/
theorem display_parses_alike_merged :
    let point : RecordDef := ⟨"Point", [⟨"x", .scalar .float, none⟩]⟩
    let p := Parser.ofRecords [point]
    let text := "list[None|Point] | list[Point|None] | Box[typing.Any]"
    let h := TypeHint.union [.list (.union [.none, .record point]),
      .list (.union [.record point, .none]), .foreign "Box[Any]"]
    p.parse text = .ok h ∧
      h.display = "Union[list[Optional[Point]], list[Optional[Point]], Box[Any]]" ∧
      ∃ g, p.parse h.display = .ok g ∧ ∀ v w, g.coerce v = .ok w ↔ h.coerce v = .ok w := by
  intro point p text h
  let ts : List Located := [⟨.name "list", 0⟩, ⟨.openBracket, 4⟩, ⟨.name "None", 5⟩, ⟨.bar, 9⟩,
    ⟨.name "Point", 10⟩, ⟨.closeBracket, 15⟩, ⟨.bar, 17⟩, ⟨.name "list", 19⟩, ⟨.openBracket, 23⟩,
    ⟨.name "Point", 24⟩, ⟨.bar, 29⟩, ⟨.name "None", 30⟩, ⟨.closeBracket, 34⟩, ⟨.bar, 36⟩,
    ⟨.name "Box", 38⟩, ⟨.openBracket, 41⟩, ⟨.name "typing.Any", 42⟩, ⟨.closeBracket, 52⟩,
    ⟨.endOfText, 53⟩]
  have ht : tokens text = .ok ts := by decide +kernel
  have hnone : NameDenotes p "None" .none := nameDenotes_iff.mpr rfl
  have hpoint : NameDenotes p "Point" (.record point) := nameDenotes_iff.mpr rfl
  have hany : NameDenotes p "typing.Any" .any := nameDenotes_iff.mpr rfl
  have hlist : IsShort "list" "list" := isShort_iff.mpr rfl
  have hbox : IsShort "Box" "Box" := isShort_iff.mpr rfl
  let first : PrimaryTree := .applied "list" (.mk (.bare "None") [.bare "Point"]) []
  let second : PrimaryTree := .applied "list" (.mk (.bare "Point") [.bare "None"]) []
  let third : PrimaryTree := .applied "Box" (.mk (.bare "typing.Any") []) []
  have hfirst : first.Denotes p (.list (.union [.none, .record point])) :=
    ⟨_, [], ⟨_, _, hnone, ⟨_, [], rfl, hpoint, rfl⟩, rfl⟩, rfl, .list hlist (by decide)⟩
  have hsecond : second.Denotes p (.list (.union [.record point, .none])) :=
    ⟨_, [], ⟨_, _, hpoint, ⟨_, [], rfl, hnone, rfl⟩, rfl⟩, rfl, .list hlist (by decide)⟩
  have hthird : third.Denotes p (.foreign "Box[Any]") :=
    ⟨.any, [], ⟨.any, [], hany, rfl, rfl⟩, rfl, .foreign hbox (by decide)⟩
  have hparse : p.parse text = .ok h :=
    (parse_eq_ok_iff_exists_tree ht).mpr ⟨.mk first [second, third], rfl,
      _, _, hfirst, ⟨_, _, rfl, hsecond, _, [], rfl, hthird, rfl⟩, rfl⟩
  exact ⟨hparse, rfl, display_parses_alike [point] text h hparse⟩

end TypedModel.Hint
