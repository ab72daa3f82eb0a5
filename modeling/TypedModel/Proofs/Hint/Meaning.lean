import TypedModel.Proofs.Hint.Grammar
import Mathlib.Data.List.Basic

/-!
# What readings mean

The reader resolves names as they are meant, with and without arguments. So a reading stands for at
most one hint, and for one exactly where its names have as many arguments as they may have.
-/

namespace TypedModel.Hint

/-! ## Names are resolved as they are meant -/

/-- The name behind one leading `typing.` is what the reader calls a name by. -/
theorem isShort_iff {name short : String} : IsShort name short ↔ Parser.shortName name = short := by
  unfold Parser.shortName
  split
  next hprefix =>
    obtain ⟨cs, hcs⟩ := List.isPrefixOf_iff_prefix.mp hprefix
    have hchars : (String.ofList cs).toList = cs := String.toList_ofList
    have hname : name = "typing." ++ String.ofList cs := by
      rw [← String.toList_inj, String.toList_append, hchars]
      exact hcs.symm
    have hdrop : name.toList.drop 7 = cs := by
      rw [← hcs]
      rfl
    rw [hdrop]
    constructor
    · rintro (h | ⟨-, h⟩)
      · rw [hname] at h
        exact (String.append_right_inj _).mp h
      · exact absurd hname (h _)
    · rintro rfl
      exact .inl hname
  next hprefix =>
    have hnone (rest : String) : name ≠ "typing." ++ rest := by
      rintro rfl
      exact hprefix (List.isPrefixOf_iff_prefix.mpr ⟨rest.toList, String.toList_append.symm⟩)
    exact ⟨fun h => (h.resolve_left (hnone short)).1, fun h => .inr ⟨h, hnone⟩⟩

/-- The reader knows the built-in names. -/
theorem builtin?_eq_some_iff {short : String} {h : TypeHint} :
    Parser.builtin? short = some h ↔ (short, h) ∈ builtinNames := by
  constructor
  · intro hb
    unfold Parser.builtin? at hb
    split at hb
    case h_14 => cases hb
    all_goals
      cases hb
      simp [builtinNames]
  · have hall : ∀ e ∈ builtinNames, Parser.builtin? e.1 = some e.2 := by
      simp [builtinNames, Parser.builtin?]
    exact hall (short, h)

/-- Names that are not built in. -/
theorem builtin?_eq_none_iff {short : String} :
    Parser.builtin? short = none ↔ ∀ h, (short, h) ∉ builtinNames := by
  simp only [Option.eq_none_iff_forall_ne_some, ne_eq, builtin?_eq_some_iff]

/-- A name without arguments is resolved to what it stands for. -/
theorem nameDenotes_iff {p : Parser} {name : String} {h : TypeHint} :
    NameDenotes p name h ↔ p.resolveName name = h := by
  unfold Parser.resolveName
  constructor
  · intro hd
    cases hd with
    | builtin hshort hin => rw [isShort_iff.mp hshort, builtin?_eq_some_iff.mpr hin]
    | record hshort hout hrecord =>
      simp only [isShort_iff.mp hshort, builtin?_eq_none_iff.mpr hout, hrecord]
    | foreign hshort hout hrecord =>
      simp only [isShort_iff.mp hshort, builtin?_eq_none_iff.mpr hout, hrecord]
  · rintro rfl
    have hshort : IsShort name (Parser.shortName name) := isShort_iff.mpr rfl
    split
    next h hb => exact .builtin hshort (builtin?_eq_some_iff.mp hb)
    next hb =>
      split
      next d hd => exact .record hshort (builtin?_eq_none_iff.mp hb) hd
      next hd => exact .foreign hshort (builtin?_eq_none_iff.mp hb) hd

/-- Adding members one by one keeps of equal ones the first. -/
theorem foldl_addMember (members seen : List TypeHint) :
    members.foldl TypeHint.addMember seen.reverse =
      List.eraseDupsBy.loop (fun later earlier => earlier.sameAs later) members seen := by
  induction members generalizing seen with
  | nil => rfl
  | cons h rest ih =>
    rw [List.foldl_cons, List.eraseDupsBy.loop, TypeHint.addMember, List.any_reverse]
    cases seen.any fun m => m.sameAs h with
    | true => exact ih seen
    | false =>
      rw [← ih (h :: seen), List.reverse_cons]
      rfl

/-- Members are taken once, as the first of equal ones. -/
theorem unionOf_eq_unionHint (hints : List TypeHint) :
    TypeHint.unionOf hints = unionHint hints := by
  rw [TypeHint.unionOf, unionHint, List.eraseDupsBy, ← foldl_addMember]
  rfl

/-- A name with arguments is resolved to what it stands for. -/
theorem appliedDenotes_iff {name : String} {args : List TypeHint} {h : TypeHint} :
    AppliedDenotes name args h ↔ Parser.resolveApplied name args = .ok h := by
  unfold Parser.resolveApplied
  constructor
  · intro hd
    cases hd with
    | list hshort hin =>
      rw [isShort_iff.mp hshort]
      rcases List.mem_pair.mp hin with rfl | rfl <;> rfl
    | dict hshort hin =>
      rw [isShort_iff.mp hshort]
      rcases List.mem_pair.mp hin with rfl | rfl <;> rfl
    | optional hshort =>
      rw [isShort_iff.mp hshort, ← unionOf_eq_unionHint]
      rfl
    | union hshort =>
      rw [isShort_iff.mp hshort, ← unionOf_eq_unionHint]
      rfl
    | foreign hshort hout =>
      rw [isShort_iff.mp hshort]
      simp only [listNames, dictNames, List.cons_append, List.nil_append, List.mem_cons,
        List.not_mem_nil, or_false, not_or] at hout
      dsimp only
      split <;> simp_all [appliedText]
  · intro hr
    have hshort : IsShort name (Parser.shortName name) := isShort_iff.mpr rfl
    generalize Parser.shortName name = short at hshort hr
    dsimp only at hr
    split at hr <;> cases hr
    · exact .list hshort (by decide)
    · exact .list hshort (by decide)
    · exact .dict hshort (by decide)
    · exact .dict hshort (by decide)
    · exact unionOf_eq_unionHint _ ▸ .optional hshort
    · exact unionOf_eq_unionHint _ ▸ .union hshort
    next hlist hList hdict hDict hoptional hunion _ _ _ _ _ =>
      refine .foreign hshort ?_
      simp only [listNames, dictNames, List.cons_append, List.nil_append, List.mem_cons,
        List.not_mem_nil, or_false, not_or]
      exact ⟨hoptional, hunion, hlist, hList, hdict, hDict⟩

/-- A name with arguments stands for something where it may have so many. -/
theorem exists_appliedDenotes_iff {name : String} {args : List TypeHint} :
    (∃ h, AppliedDenotes name args h) ↔ ArityFits name args.length := by
  constructor
  · rintro ⟨h, hd⟩ short hshort
    have hone {other : String} (hother : IsShort name other) : short = other := by
      rw [← isShort_iff.mp hshort, isShort_iff.mp hother]
    cases hd with
    | list hs hin =>
      rw [hone hs]
      rcases List.mem_pair.mp hin with rfl | rfl <;> simp [dictNames]
    | dict hs hin =>
      rw [hone hs]
      rcases List.mem_pair.mp hin with rfl | rfl <;> simp [listNames]
    | optional hs =>
      rw [hone hs]
      simp [dictNames]
    | union hs =>
      rw [hone hs]
      simp [listNames, dictNames]
    | foreign hs hout =>
      rw [hone hs]
      simp only [List.mem_cons, List.mem_append, not_or] at hout
      exact ⟨fun h => absurd h hout.2.2.1, fun h => absurd h hout.2.2.2, fun h => absurd h hout.1⟩
  · intro hfits
    have hshort : IsShort name (Parser.shortName name) := isShort_iff.mpr rfl
    obtain ⟨hlist, hdict, hoptional⟩ := hfits _ hshort
    generalize Parser.shortName name = short at hshort hlist hdict hoptional
    by_cases hin : short ∈ "Optional" :: "Union" :: (listNames ++ dictNames)
    · simp only [List.mem_cons, List.mem_append] at hin
      rcases hin with rfl | rfl | hin | hin
      · obtain ⟨inner, rfl⟩ := List.length_eq_one_iff.mp (hoptional rfl)
        exact ⟨_, .optional hshort⟩
      · exact ⟨_, .union hshort⟩
      · obtain ⟨element, rfl⟩ := List.length_eq_one_iff.mp (hlist hin)
        exact ⟨_, .list hshort hin⟩
      · obtain ⟨key, value, rfl⟩ := List.length_eq_two.mp (hdict hin)
        exact ⟨_, .dict hshort hin⟩
    · exact ⟨_, .foreign hshort hin⟩

/-! ## Every reading stands for one hint -/

mutual

/-- A union stands for one hint. -/
theorem UnionTree.Denotes.unique {p : Parser} : ∀ (t : UnionTree) {g h : TypeHint},
    t.Denotes p g → t.Denotes p h → g = h
  | .mk first others, _, _, ⟨_, _, hm, hms, rfl⟩, ⟨_, _, hn, hns, rfl⟩ => by
    rw [PrimaryTree.Denotes.unique first hm hn, MembersDenote.unique others hms hns]

/-- A primary stands for one hint. -/
theorem PrimaryTree.Denotes.unique {p : Parser} : ∀ (t : PrimaryTree) {g h : TypeHint},
    t.Denotes p g → t.Denotes p h → g = h
  | .bare _, _, _, hg, hh => (nameDenotes_iff.mp hg).symm.trans (nameDenotes_iff.mp hh)
  | .applied name first others, _, _, ⟨_, _, ha, has, hg⟩, ⟨_, _, hb, hbs, hh⟩ => by
    rw [UnionTree.Denotes.unique first ha hb, ArgsDenote.unique others has hbs] at hg
    exact Except.ok.inj ((appliedDenotes_iff.mp hg).symm.trans (appliedDenotes_iff.mp hh))

/-- Members stand for one list of hints. -/
theorem MembersDenote.unique {p : Parser} : ∀ (ts : List PrimaryTree) {gs hs : List TypeHint},
    MembersDenote p ts gs → MembersDenote p ts hs → gs = hs
  | [], _, _, rfl, rfl => rfl
  | t :: ts, _, _, ⟨_, _, rfl, hg, hgs⟩, ⟨_, _, rfl, hh, hhs⟩ => by
    rw [PrimaryTree.Denotes.unique t hg hh, MembersDenote.unique ts hgs hhs]

/-- Arguments stand for one list of hints. -/
theorem ArgsDenote.unique {p : Parser} : ∀ (ts : List UnionTree) {gs hs : List TypeHint},
    ArgsDenote p ts gs → ArgsDenote p ts hs → gs = hs
  | [], _, _, rfl, rfl => rfl
  | t :: ts, _, _, ⟨_, _, rfl, hg, hgs⟩, ⟨_, _, rfl, hh, hhs⟩ => by
    rw [UnionTree.Denotes.unique t hg hh, ArgsDenote.unique ts hgs hhs]

end

/-- Arguments stand for as many hints as there are. -/
theorem ArgsDenote.length_eq {p : Parser} : ∀ (ts : List UnionTree) {hs : List TypeHint},
    ArgsDenote p ts hs → hs.length = ts.length
  | [], _, rfl => rfl
  | _ :: ts, _, ⟨_, _, rfl, _, hhs⟩ => by
    rw [List.length_cons, List.length_cons, ArgsDenote.length_eq ts hhs]

mutual

/-- A union stands for something where its names have as many arguments as they may have. -/
theorem UnionTree.aritiesFit_iff (p : Parser) : ∀ t : UnionTree,
    t.AritiesFit ↔ ∃ h, t.Denotes p h
  | .mk first others => by
    simp only [UnionTree.AritiesFit, UnionTree.Denotes, PrimaryTree.aritiesFit_iff p first,
      membersAritiesFit_iff p others]
    constructor
    · rintro ⟨⟨m, hm⟩, ms, hms⟩
      exact ⟨_, m, ms, hm, hms, rfl⟩
    · rintro ⟨_, m, ms, hm, hms, -⟩
      exact ⟨⟨m, hm⟩, ms, hms⟩

/-- A primary stands for something where its names have as many arguments as they may have. -/
theorem PrimaryTree.aritiesFit_iff (p : Parser) : ∀ t : PrimaryTree,
    t.AritiesFit ↔ ∃ h, t.Denotes p h
  | .bare _ => ⟨fun _ => ⟨_, nameDenotes_iff.mpr rfl⟩, fun _ => trivial⟩
  | .applied name first others => by
    simp only [PrimaryTree.AritiesFit, PrimaryTree.Denotes, UnionTree.aritiesFit_iff p first,
      argsAritiesFit_iff p others]
    constructor
    · rintro ⟨hfits, ⟨a, ha⟩, as, has⟩
      have hargs : ArityFits name (a :: as).length := by
        rwa [List.length_cons, ArgsDenote.length_eq others has]
      obtain ⟨h, hh⟩ := exists_appliedDenotes_iff.mpr hargs
      exact ⟨h, a, as, ha, has, hh⟩
    · rintro ⟨h, a, as, ha, has, hh⟩
      have hfits := exists_appliedDenotes_iff.mp ⟨h, hh⟩
      rw [List.length_cons, ArgsDenote.length_eq others has] at hfits
      exact ⟨hfits, ⟨a, ha⟩, as, has⟩

/-- Members stand for something where their names have as many arguments as they may have. -/
theorem membersAritiesFit_iff (p : Parser) : ∀ ts : List PrimaryTree,
    MembersAritiesFit ts ↔ ∃ hs, MembersDenote p ts hs
  | [] => ⟨fun _ => ⟨[], rfl⟩, fun _ => trivial⟩
  | t :: ts => by
    simp only [MembersAritiesFit, MembersDenote, PrimaryTree.aritiesFit_iff p t,
      membersAritiesFit_iff p ts]
    constructor
    · rintro ⟨⟨h, hh⟩, hs, hhs⟩
      exact ⟨_, h, hs, rfl, hh, hhs⟩
    · rintro ⟨_, h, hs, -, hh, hhs⟩
      exact ⟨⟨h, hh⟩, hs, hhs⟩

/-- Arguments stand for something where their names have as many arguments as they may have. -/
theorem argsAritiesFit_iff (p : Parser) : ∀ ts : List UnionTree,
    ArgsAritiesFit ts ↔ ∃ hs, ArgsDenote p ts hs
  | [] => ⟨fun _ => ⟨[], rfl⟩, fun _ => trivial⟩
  | t :: ts => by
    simp only [ArgsAritiesFit, ArgsDenote, UnionTree.aritiesFit_iff p t, argsAritiesFit_iff p ts]
    constructor
    · rintro ⟨⟨h, hh⟩, hs, hhs⟩
      exact ⟨_, h, hs, rfl, hh, hhs⟩
    · rintro ⟨_, h, hs, -, hh, hhs⟩
      exact ⟨⟨h, hh⟩, hs, hhs⟩

end

end TypedModel.Hint
