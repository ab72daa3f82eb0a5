import TypedModel.Proofs.Hint.Reader

/-!
# What is inherited by hints that are read

Every hint that is read comes from names by two operations: names are applied to arguments, and
members are joined to unions. So a property of hints that names have and both operations keep is one
of every hint that is read.
-/

namespace TypedModel.Hint

variable {p : Parser}

/-- Spaced tokens can be written. -/
theorem Spacing.IsSpaced.isWritable {afterName : Bool} {items : Spacing} {trailing : List Char}
    (h : Spacing.IsSpaced afterName items trailing) : ∀ t ∈ items.map Prod.snd, t.IsWritable := by
  induction items generalizing afterName with
  | nil => exact nofun
  | cons item rest ih =>
    obtain ⟨-, hwritable, -, hrest⟩ := h
    exact List.forall_mem_cons.mpr ⟨hwritable, ih hrest⟩

/-- A text that is read has a reading of tokens that can be written. -/
theorem exists_tree_of_parse {text : String} {h : TypeHint} (hparse : p.parse text = .ok h) :
    ∃ tree : UnionTree, (∀ t ∈ tree.tokens, t.IsWritable) ∧ tree.Denotes p h := by
  obtain ⟨ts, ht⟩ := exists_tokens_of_parse p hparse
  obtain ⟨tree, htokens, hdenotes⟩ := (parse_eq_ok_iff_exists_tree ht).mp hparse
  obtain ⟨items, trailing, hspaced, -, rfl⟩ := tokens_eq_ok_iff.mp ht
  rw [Spacing.map_token_located, List.append_cancel_right_eq] at htokens
  exact ⟨tree, htokens ▸ hspaced.isWritable, hdenotes⟩

/-- A property of hints that is handed on by everything that hints are made of. -/
structure IsInherited (p : Parser) (P : TypeHint → Prop) : Prop where
  /-- What a name stands for has it. -/
  name {name : String} {h : TypeHint} (hword : IsWord name.toList)
    (hdenotes : NameDenotes p name h) : P h
  /-- What a name with such arguments stands for has it. -/
  applied {name : String} {args : List TypeHint} {h : TypeHint} (hword : IsWord name.toList)
    (hne : args ≠ []) (hargs : ∀ a ∈ args, P a) (hdenotes : AppliedDenotes name args h) : P h
  /-- A union of such members has it. -/
  union {members : List TypeHint} (hne : members ≠ []) (hmembers : ∀ m ∈ members, P m) :
    P (unionHint members)

mutual

/-- What a union stands for has what is inherited. -/
theorem UnionTree.inherits {P : TypeHint → Prop} (hP : IsInherited p P) : ∀ (t : UnionTree)
    {h : TypeHint}, (∀ tok ∈ t.tokens, tok.IsWritable) → t.Denotes p h → P h
  | .mk first others, _, hwritable, ⟨m, ms, hm, hms, rfl⟩ => by
    rw [UnionTree.tokens, List.forall_mem_append] at hwritable
    refine hP.union (List.cons_ne_nil m ms) (List.forall_mem_cons.mpr ⟨?_, ?_⟩)
    · exact PrimaryTree.inherits hP first hwritable.1 hm
    · exact membersInherit hP others hwritable.2 hms

/-- What a primary stands for has what is inherited. -/
theorem PrimaryTree.inherits {P : TypeHint → Prop} (hP : IsInherited p P) : ∀ (t : PrimaryTree)
    {h : TypeHint}, (∀ tok ∈ t.tokens, tok.IsWritable) → t.Denotes p h → P h
  | .bare name, _, hwritable, hdenotes =>
    hP.name ((hwritable _ List.mem_cons_self).2 name rfl) hdenotes
  | .applied name first others, _, hwritable, ⟨a, as, ha, has, hdenotes⟩ => by
    simp only [PrimaryTree.tokens, List.forall_mem_cons, List.forall_mem_append] at hwritable
    obtain ⟨hname, -, hfirst, hothers, -⟩ := hwritable
    refine hP.applied (hname.2 name rfl) (List.cons_ne_nil a as)
      (List.forall_mem_cons.mpr ⟨?_, ?_⟩) hdenotes
    · exact UnionTree.inherits hP first hfirst ha
    · exact argsInherit hP others hothers has

/-- What members stand for has what is inherited. -/
theorem membersInherit {P : TypeHint → Prop} (hP : IsInherited p P) : ∀ (ts : List PrimaryTree)
    {hs : List TypeHint}, (∀ tok ∈ barredTokens ts, tok.IsWritable) → MembersDenote p ts hs →
    ∀ h ∈ hs, P h
  | [], _, _, rfl => nofun
  | t :: ts, _, hwritable, ⟨h, hs, rfl, hh, hhs⟩ => by
    simp only [barredTokens, List.forall_mem_cons, List.forall_mem_append] at hwritable
    exact List.forall_mem_cons.mpr ⟨PrimaryTree.inherits hP t hwritable.2.1 hh,
      membersInherit hP ts hwritable.2.2 hhs⟩

/-- What arguments stand for has what is inherited. -/
theorem argsInherit {P : TypeHint → Prop} (hP : IsInherited p P) : ∀ (ts : List UnionTree)
    {hs : List TypeHint}, (∀ tok ∈ commaTokens ts, tok.IsWritable) → ArgsDenote p ts hs →
    ∀ h ∈ hs, P h
  | [], _, _, rfl => nofun
  | t :: ts, _, hwritable, ⟨h, hs, rfl, hh, hhs⟩ => by
    simp only [commaTokens, List.forall_mem_cons, List.forall_mem_append] at hwritable
    exact List.forall_mem_cons.mpr ⟨UnionTree.inherits hP t hwritable.2.1 hh,
      argsInherit hP ts hwritable.2.2 hhs⟩

end

/-- Every hint that is read has what is inherited. -/
theorem IsInherited.of_parse {P : TypeHint → Prop} (hP : IsInherited p P) {text : String}
    {h : TypeHint} (hparse : p.parse text = .ok h) : P h := by
  obtain ⟨tree, hwritable, hdenotes⟩ := exists_tree_of_parse hparse
  exact tree.inherits hP hwritable hdenotes

end TypedModel.Hint
