import TypedModel.Proofs.Hint.Inheritance
import TypedModel.Proofs.Hint.Same
import TypedModel.Proofs.Hint.Union

/-!
# Unions in normal form

A union in normal form has two members or more, none of them a union and no two of them the same.
Joining hints in normal form to a union gives one, and it does not matter whether some of them were
joined before: what is left out for being the same as a member in front of it is the same as what
this member is compared with. So every hint that is read is in normal form, and a union depends on
its members and their order only, not on the brackets and bars that it is written with.
-/

namespace TypedModel

namespace TypeHint

/-! ## Normal forms -/

/-- Hints that occur in a hint, outside of the definitions of records. -/
inductive Occurs : TypeHint → TypeHint → Prop where
  /-- The hint itself. -/
  | here {h : TypeHint} : Occurs h h
  /-- In the items' hint of lists. -/
  | element {h element : TypeHint} (inside : Occurs h element) : Occurs h (.list element)
  /-- In the keys' hint of dicts. -/
  | key {h key value : TypeHint} (inside : Occurs h key) : Occurs h (.dict key value)
  /-- In the values' hint of dicts. -/
  | value {h key value : TypeHint} (inside : Occurs h value) : Occurs h (.dict key value)
  /-- In a member of a union. -/
  | member {h m : TypeHint} {members : List TypeHint} (hm : m ∈ members) (inside : Occurs h m) :
    Occurs h (.union members)

/-- Whether a hint is no union. -/
def IsSingle (h : TypeHint) : Prop := ∀ members, h ≠ .union members

/-- Whether no two of these hints are the same. -/
def AreApart (members : List TypeHint) : Prop :=
  members.Pairwise fun a b => a.sameAs b = false ∧ b.sameAs a = false

/-- Members of a union in normal form. -/
structure AreNormal (members : List TypeHint) : Prop where
  /-- There are two or more. -/
  several : 2 ≤ members.length
  /-- None is a union. -/
  single : ∀ m ∈ members, IsSingle m
  /-- No two are the same. -/
  apart : AreApart members

/-- Whether every union that occurs in a hint is in normal form. -/
def IsNormal (h : TypeHint) : Prop := ∀ members, Occurs (.union members) h → AreNormal members

/-- A hint that is no union contributes itself to one. -/
theorem IsSingle.asMembers_eq {h : TypeHint} (hsingle : IsSingle h) : h.asMembers = [h] := by
  cases h with
  | union members => exact absurd rfl (hsingle members)
  | _ => rfl

/-- A hint that is no union is its own union. -/
theorem IsSingle.unionOf_eq {h : TypeHint} (hsingle : IsSingle h) : unionOf [h] = h := by
  rw [unionOf, List.flatMap_singleton, hsingle.asMembers_eq]
  rfl

/-- Lists are in normal form where the hint of their items is. -/
theorem IsNormal.list {element : TypeHint} (h : IsNormal element) : IsNormal (.list element)
  | members, .element inside => h members inside

/-- Dicts are in normal form where the hints of their keys and values are. -/
theorem IsNormal.dict {key value : TypeHint} (hkey : IsNormal key) (hvalue : IsNormal value) :
    IsNormal (.dict key value)
  | members, .key inside => hkey members inside
  | members, .value inside => hvalue members inside

/-- Unions are in normal form where their members are, each by itself and all beside each other. -/
theorem isNormal_union_iff {members : List TypeHint} :
    IsNormal (.union members) ↔ AreNormal members ∧ ∀ m ∈ members, IsNormal m := by
  constructor
  · intro h
    exact ⟨h members .here, fun m hm inner inside => h inner (.member hm inside)⟩
  · rintro ⟨hmembers, hall⟩ inner (_ | _ | _ | _ | ⟨hm, inside⟩)
    · exact hmembers
    · exact hall _ hm inner inside

/-- What a hint in normal form contributes to a union is no union and in normal form. -/
theorem IsNormal.of_mem_asMembers {h m : TypeHint} (hnormal : IsNormal h) (hm : m ∈ h.asMembers) :
    IsSingle m ∧ IsNormal m := by
  cases h with
  | union members =>
    obtain ⟨hmembers, hall⟩ := isNormal_union_iff.mp hnormal
    exact ⟨hmembers.single m hm, hall m hm⟩
  | _ =>
    obtain rfl := List.mem_singleton.mp hm
    exact ⟨nofun, hnormal⟩

/-- A hint in normal form contributes something to a union. -/
theorem IsNormal.asMembers_ne_nil {h : TypeHint} (hnormal : IsNormal h) : h.asMembers ≠ [] := by
  cases h with
  | union members =>
    have hseveral := (isNormal_union_iff.mp hnormal).1.several
    rintro hnil
    rw [asMembers] at hnil
    rw [hnil] at hseveral
    cases hseveral
  | _ => exact List.cons_ne_nil _ []

/-! ## Joined members -/

/-- Members of the union of hints. -/
def joined (hints : List TypeHint) : List TypeHint :=
  (hints.flatMap asMembers).foldl addMember []

/-- A single joined member is the union itself. -/
theorem unionOf_eq_of_joined (hints : List TypeHint) :
    unionOf hints = match joined hints with
      | [h] => h
      | members => .union members := rfl

/-- A member that is added is apart from those in front of it. -/
theorem AreApart.addMember {members : List TypeHint} {h : TypeHint} (hmembers : AreApart members) :
    AreApart (TypeHint.addMember members h) := by
  unfold TypeHint.addMember
  split
  next => exact hmembers
  next hany =>
    refine List.pairwise_append.mpr ⟨hmembers, List.pairwise_singleton _ h, fun a ha b hb => ?_⟩
    rw [List.mem_singleton.mp hb]
    have hother : a.sameAs h = false :=
      Bool.eq_false_iff.mpr fun hsame => hany (List.any_eq_true.mpr ⟨a, ha, hsame⟩)
    exact ⟨hother, Bool.eq_false_iff.mpr fun hsame =>
      absurd (sameAs_symm hsame) (Bool.eq_false_iff.mp hother)⟩

/-- Members that are added one by one are apart from each other. -/
theorem AreApart.foldl_addMember {hints members : List TypeHint} (hmembers : AreApart members) :
    AreApart (hints.foldl TypeHint.addMember members) := by
  induction hints generalizing members with
  | nil => exact hmembers
  | cons h rest ih => exact ih hmembers.addMember

/-- Hints in normal form contribute such members to their union. -/
theorem of_mem_joined {hints : List TypeHint} (hhints : ∀ h ∈ hints, IsNormal h) {m : TypeHint}
    (hm : m ∈ joined hints) : IsSingle m ∧ IsNormal m := by
  rcases mem_of_mem_foldl_addMember hm with hm | hm
  · cases hm
  · obtain ⟨h, hh, hm⟩ := List.mem_flatMap.mp hm
    exact (hhints h hh).of_mem_asMembers hm

/-- Hints in normal form have a union in normal form. -/
theorem isNormal_unionOf {hints : List TypeHint} (hne : hints ≠ [])
    (hhints : ∀ h ∈ hints, IsNormal h) : IsNormal (unionOf hints) := by
  have hsome : joined hints ≠ [] := by
    obtain ⟨h, rest, rfl⟩ := List.exists_cons_of_ne_nil hne
    refine foldl_addMember_ne_nil ?_
    rw [List.nil_append, List.flatMap_cons]
    exact List.append_ne_nil_of_left_ne_nil (hhints h List.mem_cons_self).asMembers_ne_nil _
  have hmembers (m : TypeHint) (hm : m ∈ joined hints) := of_mem_joined hhints hm
  rw [unionOf_eq_of_joined]
  cases hjoined : joined hints with
  | nil => exact absurd hjoined hsome
  | cons first rest =>
    rw [hjoined] at hmembers
    cases rest with
    | nil => exact (hmembers first (List.mem_singleton_self first)).2
    | cons second rest =>
      have hapart := @AreApart.foldl_addMember (hints.flatMap asMembers) [] .nil
      rw [← joined, hjoined] at hapart
      exact isNormal_union_iff.mpr ⟨⟨by simp, fun m hm => (hmembers m hm).1, hapart⟩,
        fun m hm => (hmembers m hm).2⟩

/-! ## Unions of unions -/

/-- A hint is left out where the same one is among the members. -/
theorem addMember_of_same {members : List TypeHint} {h m : TypeHint} (hm : m ∈ members)
    (hsame : m.sameAs h = true) : addMember members h = members :=
  if_pos (List.any_eq_true.mpr ⟨m, hm, hsame⟩)

/-- What is among the members stays there when others are added. -/
theorem mem_foldl_addMember {hints members : List TypeHint} {m : TypeHint} (hm : m ∈ members) :
    m ∈ hints.foldl addMember members := by
  induction hints generalizing members with
  | nil => exact hm
  | cons first rest ih =>
    refine ih ?_
    unfold addMember
    split
    · exact hm
    · exact List.mem_append_left _ hm

/-- What is added is found among the members, or the same one is. -/
theorem exists_same_of_mem {hints members : List TypeHint} {h : TypeHint} (hh : h ∈ hints) :
    ∃ m ∈ hints.foldl addMember members, m = h ∨ m.sameAs h = true := by
  induction hints generalizing members with
  | nil => cases hh
  | cons first rest ih =>
    rcases List.mem_cons.mp hh with rfl | hh
    · have hadded : ∃ m ∈ addMember members h, m = h ∨ m.sameAs h = true := by
        unfold addMember
        split
        next hany =>
          obtain ⟨m, hm, hsame⟩ := List.any_eq_true.mp hany
          exact ⟨m, hm, .inr hsame⟩
        next => exact ⟨h, by simp, .inl rfl⟩
      obtain ⟨m, hm, hsame⟩ := hadded
      exact ⟨m, @mem_foldl_addMember rest _ m hm, hsame⟩
    · exact ih hh

/-- A hint may be added to members before these are added to others, or behind them. -/
theorem foldl_addMember_addMember (members seen : List TypeHint) (h : TypeHint) :
    (addMember members h).foldl addMember seen = addMember (members.foldl addMember seen) h := by
  by_cases hany : ∃ m ∈ members, m.sameAs h = true
  · -- the member that keeps the hint out is itself found behind the others, or the same one is
    obtain ⟨m, hm, hsame⟩ := hany
    obtain ⟨n, hn, hnm⟩ := @exists_same_of_mem members seen m hm
    have hnsame : n.sameAs h = true := by
      rcases hnm with rfl | hnm
      · exact hsame
      · exact sameAs_trans hnm hsame
    rw [addMember_of_same hm hsame, addMember_of_same hn hnsame]
  · have hnew : addMember members h = members ++ [h] :=
      if_neg fun hsame => hany (List.any_eq_true.mp hsame)
    rw [hnew, List.foldl_append]
    rfl

/-- Hints may be joined before they are added to others, or added one by one. -/
theorem foldl_addMember_foldl (hints members seen : List TypeHint) :
    (hints.foldl addMember members).foldl addMember seen =
      hints.foldl addMember (members.foldl addMember seen) := by
  induction hints generalizing members with
  | nil => rfl
  | cons h rest ih =>
    rw [List.foldl_cons, List.foldl_cons, ih, foldl_addMember_addMember]

/-- The union of hints contributes their joined members, as long as none of these is a union. -/
theorem asMembers_unionOf {hints : List TypeHint} (hsingle : ∀ m ∈ joined hints, IsSingle m) :
    (unionOf hints).asMembers = joined hints := by
  rw [unionOf_eq_of_joined]
  cases hjoined : joined hints with
  | nil => rfl
  | cons first rest =>
    cases rest with
    | nil =>
      rw [hjoined] at hsingle
      exact (hsingle first (List.mem_singleton_self first)).asMembers_eq
    | cons second rest => rfl

/-- A union among hints may be taken apart. -/
theorem unionOf_append_unionOf {ys : List TypeHint} (hsingle : ∀ m ∈ joined ys, IsSingle m)
    (xs zs : List TypeHint) : unionOf (xs ++ [unionOf ys] ++ zs) = unionOf (xs ++ ys ++ zs) := by
  have hjoined : joined (xs ++ [unionOf ys] ++ zs) = joined (xs ++ ys ++ zs) := by
    simp only [joined, List.flatMap_append, List.flatMap_singleton, List.foldl_append,
      asMembers_unionOf hsingle]
    rw [foldl_addMember_foldl]
    rfl
  rw [unionOf_eq_of_joined (xs ++ [unionOf ys] ++ zs), hjoined, ← unionOf_eq_of_joined]

/-- Hints that are no unions are joined to such members. -/
theorem isSingle_of_mem_joined {hints : List TypeHint} (hsingle : ∀ h ∈ hints, IsSingle h)
    {m : TypeHint} (hm : m ∈ joined hints) : IsSingle m := by
  rcases mem_of_mem_foldl_addMember hm with hm | hm
  · cases hm
  · obtain ⟨h, hh, hm⟩ := List.mem_flatMap.mp hm
    rw [(hsingle h hh).asMembers_eq, List.mem_singleton] at hm
    exact hm ▸ hsingle h hh

/-- Unions among hints may all be taken apart, behind any other hints. -/
theorem unionOf_append_map_unionOf {hss : List (List TypeHint)}
    (hsingle : ∀ h ∈ hss.flatten, IsSingle h) (front : List TypeHint) :
    unionOf (front ++ hss.map unionOf) = unionOf (front ++ hss.flatten) := by
  induction hss generalizing front with
  | nil => rfl
  | cons hs rest ih =>
    rw [List.flatten_cons, List.forall_mem_append] at hsingle
    have hfirst (m : TypeHint) (hm : m ∈ joined hs) := isSingle_of_mem_joined hsingle.1 hm
    calc unionOf (front ++ (hs :: rest).map unionOf)
      _ = unionOf (front ++ [unionOf hs] ++ rest.map unionOf) := by
        rw [List.map_cons, List.append_assoc, List.singleton_append]
      _ = unionOf (front ++ hs ++ rest.map unionOf) := unionOf_append_unionOf hfirst _ _
      _ = unionOf (front ++ (hs :: rest).flatten) := by
        rw [ih hsingle.2, List.flatten_cons, List.append_assoc]

end TypeHint

namespace Hint

variable {p : Parser}

/-! ## Hints that are read -/

/-- What a name stands for is no union, and none occurs in it. -/
theorem isSingle_of_name {name : String} {h : TypeHint} (hdenotes : NameDenotes p name h) :
    h.IsSingle ∧ h.IsNormal := by
  have hbuiltin : ∀ e ∈ builtinNames, e.2.IsSingle ∧ e.2.IsNormal := by
    intro e he
    simp only [builtinNames, List.mem_cons, List.not_mem_nil, or_false] at he
    rcases he with rfl | rfl | rfl | rfl | rfl | rfl | rfl | rfl | rfl | rfl | rfl | rfl | rfl
    all_goals
      refine ⟨fun members heq => ?_, fun members inside => ?_⟩
      · cases heq
      · cases inside
  cases hdenotes with
  | builtin hshort hin => exact hbuiltin _ hin
  | record | foreign =>
    refine ⟨fun members heq => ?_, fun members inside => ?_⟩
    · cases heq
    · cases inside

/-- Names are in normal form, and so is what is made of hints in normal form. -/
theorem isInherited_isNormal : IsInherited p TypeHint.IsNormal where
  name _ hdenotes := (isSingle_of_name hdenotes).2
  applied _ hne hargs hdenotes := by
    cases hdenotes with
    | list => exact (hargs _ (by simp)).list
    | dict => exact (hargs _ (by simp)).dict (hargs _ (by simp))
    | @optional inner =>
      have hinner : ∀ h ∈ [inner, .none], TypeHint.IsNormal h :=
        List.forall_mem_cons.mpr ⟨hargs inner (by simp), by simpa using nofun⟩
      rw [← unionOf_eq_unionHint]
      exact TypeHint.isNormal_unionOf (List.cons_ne_nil _ _) hinner
    | union =>
      rw [← unionOf_eq_unionHint]
      exact TypeHint.isNormal_unionOf hne hargs
    | foreign => exact nofun
  union hne hmembers := by
    rw [← unionOf_eq_unionHint]
    exact TypeHint.isNormal_unionOf hne hmembers

/-! ## Ways to write a union -/

/-- Spellings of a name that may stand behind `typing.`. -/
def spellings (short : String) : List String := [short, "typing." ++ short]

mutual

/-- The primaries that a union is written over: those between its bars, and those in the arguments
of `Union` and `Optional`, with none behind what is optional. -/
def UnionTree.parts : UnionTree → List PrimaryTree
  | .mk first others => first.parts ++ barredParts others
termination_by structural t => t

/-- The primaries that a primary is written over: itself, unless it is a union. -/
def PrimaryTree.parts : PrimaryTree → List PrimaryTree
  | .bare name => [.bare name]
  | .applied name first others =>
    if name ∈ spellings "Union" then first.parts ++ commaParts others
    else if name ∈ spellings "Optional" then
      first.parts ++ (commaParts others ++ [.bare "None"])
    else [.applied name first others]
termination_by structural t => t

/-- The primaries that primaries behind bars are written over. -/
def barredParts : List PrimaryTree → List PrimaryTree
  | [] => []
  | t :: rest => t.parts ++ barredParts rest
termination_by structural ts => ts

/-- The primaries that arguments are written over. -/
def commaParts : List UnionTree → List PrimaryTree
  | [] => []
  | t :: rest => t.parts ++ commaParts rest
termination_by structural ts => ts

end

/-- The spellings of a name are what is called by it. -/
theorem mem_spellings_iff {name short : String} (h : IsShort short short) :
    name ∈ spellings short ↔ IsShort name short := by
  rw [spellings, List.mem_pair]
  constructor
  · rintro (rfl | rfl)
    · exact h
    · exact .inl rfl
  · rintro (hname | ⟨hname, -⟩)
    · exact .inr hname
    · exact .inl hname

/-- Arguments of `Union` are joined. -/
theorem AppliedDenotes.of_union {name : String} {args : List TypeHint} {h : TypeHint}
    (hname : name ∈ spellings "Union") (hdenotes : AppliedDenotes name args h) :
    h = TypeHint.unionOf args := by
  have hshort := (mem_spellings_iff (isShort_iff.mpr rfl)).mp hname
  rw [appliedDenotes_iff] at hdenotes
  unfold Parser.resolveApplied at hdenotes
  rw [isShort_iff.mp hshort] at hdenotes
  exact (Except.ok.inj hdenotes).symm

/-- The one argument of `Optional` is joined with none. -/
theorem AppliedDenotes.of_optional {name : String} {args : List TypeHint} {h : TypeHint}
    (hname : name ∈ spellings "Optional") (hdenotes : AppliedDenotes name args h) :
    args.length = 1 ∧ h = TypeHint.unionOf (args ++ [.none]) := by
  have hshort := (mem_spellings_iff (isShort_iff.mpr rfl)).mp hname
  rw [appliedDenotes_iff] at hdenotes
  unfold Parser.resolveApplied at hdenotes
  rw [isShort_iff.mp hshort] at hdenotes
  obtain _ | ⟨inner, _ | ⟨second, rest⟩⟩ := args
  · cases hdenotes
  · exact ⟨rfl, (Except.ok.inj hdenotes).symm⟩
  · cases hdenotes

/-- Arguments of any other name are not joined. -/
theorem AppliedDenotes.isSingle {name : String} {args : List TypeHint} {h : TypeHint}
    (hunion : name ∉ spellings "Union") (hoptional : name ∉ spellings "Optional")
    (hdenotes : AppliedDenotes name args h) : h.IsSingle := by
  rw [mem_spellings_iff (isShort_iff.mpr rfl)] at hunion hoptional
  cases hdenotes with
  | list | dict | foreign => exact nofun
  | optional hshort => exact absurd hshort hoptional
  | union hshort => exact absurd hshort hunion

/-- Whether primaries stand for these hints in order, none of which is a union. -/
def StandFor (p : Parser) (ts : List PrimaryTree) (hs : List TypeHint) : Prop :=
  MembersDenote p ts hs ∧ ∀ h ∈ hs, h.IsSingle

/-- A primary that stands for a hint that is no union. -/
theorem standFor_singleton {t : PrimaryTree} {h : TypeHint} (ht : t.Denotes p h)
    (hsingle : h.IsSingle) : StandFor p [t] [h] :=
  ⟨⟨h, [], rfl, ht, rfl⟩, List.forall_mem_singleton.mpr hsingle⟩

/-- Primaries behind others stand for the hints behind theirs. -/
theorem StandFor.append {ts us : List PrimaryTree} {gs hs : List TypeHint}
    (hts : StandFor p ts gs) (hus : StandFor p us hs) : StandFor p (ts ++ us) (gs ++ hs) := by
  obtain ⟨hgs, hsingle⟩ := hts
  refine ⟨?_, List.forall_mem_append.mpr ⟨hsingle, hus.2⟩⟩
  clear hsingle
  induction ts generalizing gs with
  | nil =>
    obtain rfl := hgs
    exact hus.1
  | cons t rest ih =>
    obtain ⟨g, others, rfl, hg, hothers⟩ := hgs
    exact ⟨g, others ++ hs, rfl, hg, ih hothers⟩

mutual

/-- A union stands for the union of what it is written over. -/
theorem UnionTree.exists_parts : ∀ (t : UnionTree) {h : TypeHint}, t.Denotes p h →
    ∃ hs, StandFor p t.parts hs ∧ h = TypeHint.unionOf hs
  | .mk first others, _, ⟨m, ms, hm, hms, rfl⟩ => by
    obtain ⟨hs, hhs, rfl⟩ := PrimaryTree.exists_parts first hm
    obtain ⟨gss, hgss, rfl⟩ := exists_barredParts others hms
    have hall := hhs.append hgss
    refine ⟨hs ++ gss.flatten, hall, ?_⟩
    rw [← unionOf_eq_unionHint]
    exact @TypeHint.unionOf_append_map_unionOf (hs :: gss) hall.2 []

/-- A primary stands for the union of what it is written over. -/
theorem PrimaryTree.exists_parts : ∀ (t : PrimaryTree) {h : TypeHint}, t.Denotes p h →
    ∃ hs, StandFor p t.parts hs ∧ h = TypeHint.unionOf hs
  | .bare name, h, hdenotes => by
    have hsingle := (isSingle_of_name hdenotes).1
    exact ⟨[h], standFor_singleton hdenotes hsingle, hsingle.unionOf_eq.symm⟩
  | .applied name first others, h, hwhole => by
    have ⟨a, as, ha, has, hdenotes⟩ := hwhole
    obtain ⟨hs, hhs, rfl⟩ := UnionTree.exists_parts first ha
    obtain ⟨gss, hgss, rfl⟩ := exists_commaParts others has
    rw [PrimaryTree.parts]
    split_ifs with hunion hoptional
    · have hall := hhs.append hgss
      refine ⟨hs ++ gss.flatten, hall, (hdenotes.of_union hunion).trans ?_⟩
      exact @TypeHint.unionOf_append_map_unionOf (hs :: gss) hall.2 []
    · obtain ⟨hcount, rfl⟩ := hdenotes.of_optional hoptional
      obtain rfl : gss = [] := by simpa using hcount
      have hnone : PrimaryTree.Denotes p (.bare "None") .none := nameDenotes_iff.mpr rfl
      refine ⟨hs ++ ([] ++ [.none]), hhs.append (hgss.append (standFor_singleton hnone nofun)), ?_⟩
      have hjoined (m : TypeHint) (hm : m ∈ TypeHint.joined hs) :=
        TypeHint.isSingle_of_mem_joined hhs.2 hm
      exact TypeHint.unionOf_append_unionOf hjoined [] [.none]
    · have hsingle := hdenotes.isSingle hunion hoptional
      exact ⟨[h], standFor_singleton hwhole hsingle, hsingle.unionOf_eq.symm⟩

/-- Primaries behind bars stand for the unions of what they are written over. -/
theorem exists_barredParts : ∀ (ts : List PrimaryTree) {hs : List TypeHint},
    MembersDenote p ts hs →
    ∃ gss : List (List TypeHint), StandFor p (barredParts ts) gss.flatten ∧
      hs = gss.map TypeHint.unionOf
  | [], _, rfl => ⟨[], ⟨rfl, nofun⟩, rfl⟩
  | t :: ts, _, ⟨h, hs, rfl, hh, hhs⟩ => by
    obtain ⟨gs, hgs, rfl⟩ := PrimaryTree.exists_parts t hh
    obtain ⟨gss, hgss, rfl⟩ := exists_barredParts ts hhs
    exact ⟨gs :: gss, hgs.append hgss, rfl⟩

/-- Arguments stand for the unions of what they are written over. -/
theorem exists_commaParts : ∀ (ts : List UnionTree) {hs : List TypeHint}, ArgsDenote p ts hs →
    ∃ gss : List (List TypeHint), StandFor p (commaParts ts) gss.flatten ∧
      hs = gss.map TypeHint.unionOf
  | [], _, rfl => ⟨[], ⟨rfl, nofun⟩, rfl⟩
  | t :: ts, _, ⟨h, hs, rfl, hh, hhs⟩ => by
    obtain ⟨gs, hgs, rfl⟩ := UnionTree.exists_parts t hh
    obtain ⟨gss, hgss, rfl⟩ := exists_commaParts ts hhs
    exact ⟨gs :: gss, hgs.append hgss, rfl⟩

end

/-- Whether a text is a hint written over these hints, none of which is a union: its tokens have a
reading with as many arguments as each name may have, and what is left of this without its bars,
`Union` and `Optional` stands for these hints in order. -/
def IsWrittenOver (p : Parser) (text : String) (members : List TypeHint) : Prop :=
  ∃ ts tree, tokens text = .ok ts ∧
    ts.map Located.token = UnionTree.tokens tree ++ [.endOfText] ∧ tree.AritiesFit ∧
    MembersDenote p tree.parts members

/-- Texts are read as the union of what they are written over. -/
theorem IsWrittenOver.parse_eq {text : String} {members : List TypeHint}
    (h : IsWrittenOver p text members) :
    (∀ m ∈ members, m.IsSingle) ∧ p.parse text = .ok (TypeHint.unionOf members) := by
  obtain ⟨ts, tree, ht, htokens, hfits, hdenotes⟩ := h
  obtain ⟨g, hg⟩ := (tree.aritiesFit_iff p).mp hfits
  obtain ⟨hs, ⟨hhs, hsingle⟩, rfl⟩ := tree.exists_parts hg
  obtain rfl : members = hs := MembersDenote.unique tree.parts hdenotes hhs
  exact ⟨hsingle, (parse_eq_ok_iff_exists_tree ht).mpr ⟨tree, htokens, hg⟩⟩

/-- Texts that are read are written over some hints. -/
theorem exists_isWrittenOver {text : String} {h : TypeHint} (hparse : p.parse text = .ok h) :
    ∃ members, IsWrittenOver p text members := by
  obtain ⟨ts, ht⟩ := exists_tokens_of_parse p hparse
  obtain ⟨tree, htokens, hdenotes⟩ := (parse_eq_ok_iff_exists_tree ht).mp hparse
  obtain ⟨members, hmembers, -⟩ := tree.exists_parts hdenotes
  exact ⟨members, ts, tree, ht, htokens, (tree.aritiesFit_iff p).mpr ⟨h, hdenotes⟩, hmembers.1⟩

/-- Unions that are read are in normal form, however they are written. Every union that occurs in
the hint of a text, outside of the definitions of records, has two members or more, none of them a
union and no two of them the same. A union of hints that are read may be taken apart among others
without a change to their union. So every text that is read is written over some hints, none of
which is a union, and it is read as the union of these in order, whichever bars, `Union` and
`Optional` it is written with. -/
theorem parsed_unions_normal (p : Parser) :
    (∀ text h, p.parse text = .ok h → ∀ members, TypeHint.Occurs (.union members) h →
      TypeHint.AreNormal members) ∧
    (∀ xs ys zs : List TypeHint,
      (∀ y ∈ ys, ∃ (q : Parser) (text : String), q.parse text = .ok y) →
      TypeHint.unionOf (xs ++ [TypeHint.unionOf ys] ++ zs) = TypeHint.unionOf (xs ++ ys ++ zs)) ∧
    (∀ text members, IsWrittenOver p text members →
      (∀ m ∈ members, m.IsSingle) ∧ p.parse text = .ok (TypeHint.unionOf members)) ∧
    ∀ text h, p.parse text = .ok h → ∃ members, IsWrittenOver p text members := by
  refine ⟨fun text h hparse => ?_, fun xs ys zs hys => ?_, fun text members h => ?_,
    fun text h hparse => ?_⟩
  · exact isInherited_isNormal.of_parse hparse
  · have hnormal : ∀ y ∈ ys, y.IsNormal := by
      intro y hy
      obtain ⟨q, text, hparse⟩ := hys y hy
      exact isInherited_isNormal.of_parse hparse
    have hsingle (m : TypeHint) (hm : m ∈ TypeHint.joined ys) : m.IsSingle :=
      (TypeHint.of_mem_joined hnormal hm).1
    exact TypeHint.unionOf_append_unionOf hsingle xs zs
  · exact h.parse_eq
  · exact exists_isWrittenOver hparse

/-- A record whose default is no number is not the same as itself, so it stays twice in a union that
is written with `Union` and `Optional` or with bars; none stays once. -/
theorem parsed_unions_normal_nan :
    let point : RecordDef := ⟨"P", [⟨"x", .scalar .float, some (.double .nan)⟩]⟩
    let p := Parser.empty.register point
    let text := "typing.Union[P, Optional[P]] | None | int"
    let members : List TypeHint := [.record point, .record point, .none, .scalar .int]
    IsWrittenOver p text [.record point, .record point, .none, .none, .scalar .int] ∧
      IsWrittenOver p "P|P|None|int" members ∧ p.parse text = .ok (.union members) ∧
      p.parse "P|P|None|int" = .ok (.union members) ∧ TypeHint.AreNormal members ∧
      TypeHint.unionOf [.any, TypeHint.unionOf [.union members, .union members]] =
        TypeHint.unionOf [.any, .union members, .union members] := by
  intro point p text members
  let ts : List Located := [⟨.name "typing.Union", 0⟩, ⟨.openBracket, 12⟩, ⟨.name "P", 13⟩,
    ⟨.comma, 14⟩, ⟨.name "Optional", 16⟩, ⟨.openBracket, 24⟩, ⟨.name "P", 25⟩,
    ⟨.closeBracket, 26⟩, ⟨.closeBracket, 27⟩, ⟨.bar, 29⟩, ⟨.name "None", 31⟩, ⟨.bar, 36⟩,
    ⟨.name "int", 38⟩, ⟨.endOfText, 41⟩]
  let barred : List Located := [⟨.name "P", 0⟩, ⟨.bar, 1⟩, ⟨.name "P", 2⟩, ⟨.bar, 3⟩,
    ⟨.name "None", 4⟩, ⟨.bar, 8⟩, ⟨.name "int", 9⟩, ⟨.endOfText, 12⟩]
  have ht : tokens text = .ok ts := by decide +kernel
  have hbarred : tokens "P|P|None|int" = .ok barred := by decide +kernel
  have hpoint : NameDenotes p "P" (.record point) := nameDenotes_iff.mpr rfl
  have hnone : NameDenotes p "None" .none := nameDenotes_iff.mpr rfl
  have hint : NameDenotes p "int" (.scalar .int) := nameDenotes_iff.mpr rfl
  let optional : UnionTree := .mk (.applied "Optional" (.mk (.bare "P") []) []) []
  let first : PrimaryTree := .applied "typing.Union" (.mk (.bare "P") []) [optional]
  have hwritten : IsWrittenOver p text
      [.record point, .record point, .none, .none, .scalar .int] := by
    have htwo : ArityFits "typing.Union" 2 :=
      exists_appliedDenotes_iff.mp ⟨unionHint [.any, .any], .union (.inl rfl)⟩
    have hone : ArityFits "Optional" 1 :=
      exists_appliedDenotes_iff.mp ⟨unionHint [.any, .none], .optional (isShort_iff.mpr rfl)⟩
    have hoptional : optional.AritiesFit := ⟨⟨hone, ⟨trivial, trivial⟩, trivial⟩, trivial⟩
    refine ⟨ts, .mk first [.bare "None", .bare "int"], ht, rfl, ?_, ?_⟩
    · exact ⟨⟨htwo, ⟨trivial, trivial⟩, hoptional, trivial⟩, trivial, trivial, trivial⟩
    · exact ⟨_, _, rfl, hpoint, _, _, rfl, hpoint, _, _, rfl, hnone, _, _, rfl, hnone,
        _, _, rfl, hint, rfl⟩
  have hshort : IsWrittenOver p "P|P|None|int" members := by
    refine ⟨barred, .mk (.bare "P") [.bare "P", .bare "None", .bare "int"], hbarred, rfl, ?_, ?_⟩
    · exact ⟨trivial, trivial, trivial, trivial, trivial⟩
    · exact ⟨_, _, rfl, hpoint, _, _, rfl, hpoint, _, _, rfl, hnone, _, _, rfl, hint, rfl⟩
  obtain ⟨hnormal, hunion, hread, -⟩ := parsed_unions_normal p
  have hparse := (hread text _ hwritten).2
  have hparseShort := (hread _ _ hshort).2
  have hys : ∀ y ∈ [TypeHint.union members, .union members],
      ∃ (q : Parser) (text : String), q.parse text = .ok y := by
    intro y hy
    rw [List.mem_pair, or_self] at hy
    exact ⟨p, text, hy ▸ hparse⟩
  exact ⟨hwritten, hshort, hparse, hparseShort, hnormal text _ hparse members .here,
    hunion [.any] _ [] hys⟩

end Hint

end TypedModel
