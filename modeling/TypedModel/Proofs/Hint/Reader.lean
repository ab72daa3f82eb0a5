import TypedModel.Proofs.Hint.Meaning
import TypedModel.Proofs.Hint.Spacing

/-!
# The reader accepts the grammar

The reader keeps a stack of open brackets. What it has read is at every moment the beginning of a
reading: finished primaries and arguments are trees, and each open bracket waits for its end. The
main statement is that it accepts exactly the texts that have a reading, with the hint this reading
stands for, whatever the blanks.
-/

namespace TypedModel.Hint

open Sequence

variable {p : Parser}

/-! ## Steps of the reader -/

section Steps

variable {brackets : List Parser.Bracket} {outer args members : List TypeHint} {name : String}
  {t : Located}

/-- In front of a name only a name is read. -/
theorem step_start_eq_ok_iff {r : Parser.Step} :
    p.step ⟨brackets, members, .start⟩ t = .ok r ↔
      ∃ name, t.token = .name name ∧ r = .next ⟨brackets, members, .named name⟩ := by
  unfold Parser.step
  cases t.token <;> simp [eq_comm]

/-- Behind a name its arguments may begin. -/
theorem step_named_open (h : t.token = .openBracket) :
    p.step ⟨brackets, members, .named name⟩ t =
      .ok (.next ⟨⟨name, members, []⟩ :: brackets, [], .start⟩) := by
  simp only [Parser.step, h]

/-- Behind a name without arguments a member is complete. -/
theorem step_named (h : t.token ≠ .openBracket) :
    p.step ⟨brackets, members, .named name⟩ t =
      Parser.afterMember brackets (p.resolveName name :: members) t := by
  unfold Parser.step
  split <;> simp_all

/-- Behind a member a bar leads to the next one. -/
theorem step_closed_bar (h : t.token = .bar) :
    p.step ⟨brackets, members, .closed⟩ t = .ok (.next ⟨brackets, members, .start⟩) := by
  unfold Parser.step Parser.afterMember
  simp only [h]

/-- Behind a member a comma completes an argument. -/
theorem step_closed_comma (h : t.token = .comma) :
    p.step ⟨⟨name, outer, args⟩ :: brackets, members, .closed⟩ t =
      .ok (.next ⟨⟨name, outer, TypeHint.unionOf members.reverse :: args⟩ :: brackets, [],
        .start⟩) := by
  unfold Parser.step Parser.afterMember
  simp only [h]

/-- Behind a member a closing bracket completes a name with its arguments. -/
theorem step_closed_close (h : t.token = .closeBracket) {hint : TypeHint}
    (happlied : Parser.resolveApplied name (TypeHint.unionOf members.reverse :: args).reverse =
      .ok hint) :
    p.step ⟨⟨name, outer, args⟩ :: brackets, members, .closed⟩ t =
      .ok (.next ⟨brackets, hint :: outer, .closed⟩) := by
  unfold Parser.step Parser.afterMember
  simp only [h, happlied, ok_bind]

/-- Behind a member the end of the text completes the hint. -/
theorem step_closed_end (h : t.token = .endOfText) :
    p.step ⟨[], members, .closed⟩ t = .ok (.done (TypeHint.unionOf members.reverse)) := by
  unfold Parser.step Parser.afterMember
  simp only [h]

end Steps

/-! ## What has been read -/

/-- Finished members, last one first, each with a bar behind it. -/
inductive ReadMembers (p : Parser) : List TypeHint → List Token → Prop where
  /-- None yet. -/
  | none : ReadMembers p [] []
  /-- One more. -/
  | more {members : List TypeHint} {ts : List Token} {tree : PrimaryTree} {h : TypeHint}
      (before : ReadMembers p members ts) (denotes : tree.Denotes p h) :
      ReadMembers p (h :: members) (ts ++ (tree.tokens ++ [.bar]))

/-- Finished arguments, last one first, each with a comma behind it. -/
inductive ReadArgs (p : Parser) : List TypeHint → List Token → Prop where
  /-- None yet. -/
  | none : ReadArgs p [] []
  /-- One more. -/
  | more {args : List TypeHint} {ts : List Token} {tree : UnionTree} {h : TypeHint}
      (before : ReadArgs p args ts) (denotes : tree.Denotes p h) :
      ReadArgs p (h :: args) (ts ++ (tree.tokens ++ [.comma]))

/-- Open brackets, innermost first: each with the members in front of its name and its finished
arguments. -/
inductive ReadBrackets (p : Parser) : List Parser.Bracket → List Token → Prop where
  /-- None. -/
  | none : ReadBrackets p [] []
  /-- One more inside the others. -/
  | more {brackets : List Parser.Bracket} {ts outerTs argTs : List Token} {name : String}
      {outer args : List TypeHint} (around : ReadBrackets p brackets ts)
      (houter : ReadMembers p outer outerTs) (hargs : ReadArgs p args argTs) :
      ReadBrackets p (⟨name, outer, args⟩ :: brackets)
        (ts ++ (outerTs ++ .name name :: .openBracket :: argTs))

/-- What has been read in a state of the reader. -/
inductive HasRead (p : Parser) : Parser.State → List Token → Prop where
  /-- In front of a name: the open brackets and the finished members. -/
  | start {brackets : List Parser.Bracket} {members : List TypeHint} {ts memberTs : List Token}
      (around : ReadBrackets p brackets ts) (before : ReadMembers p members memberTs) :
      HasRead p ⟨brackets, members, .start⟩ (ts ++ memberTs)
  /-- Behind a name: that name too. -/
  | named {brackets : List Parser.Bracket} {members : List TypeHint} {ts memberTs : List Token}
      {name : String} (around : ReadBrackets p brackets ts)
      (before : ReadMembers p members memberTs) :
      HasRead p ⟨brackets, members, .named name⟩ (ts ++ (memberTs ++ [.name name]))
  /-- Behind the arguments of a name: the last member without a bar. -/
  | closed {brackets : List Parser.Bracket} {members : List TypeHint} {ts memberTs : List Token}
      {tree : PrimaryTree} {h : TypeHint} (around : ReadBrackets p brackets ts)
      (before : ReadMembers p members memberTs) (denotes : tree.Denotes p h) :
      HasRead p ⟨brackets, h :: members, .closed⟩ (ts ++ (memberTs ++ tree.tokens))

/-- A name alone stands for what it is resolved to. -/
theorem bare_denotes (name : String) : (PrimaryTree.bare name).Denotes p (p.resolveName name) :=
  nameDenotes_iff.mpr rfl

/-- Finished members and others behind them are a union. -/
theorem ReadMembers.exists_union {members : List TypeHint} {ts : List Token}
    (hread : ReadMembers p members ts) {last : PrimaryTree} {h : TypeHint}
    (hlast : last.Denotes p h) {others : List PrimaryTree} {hs : List TypeHint}
    (hothers : MembersDenote p others hs) :
    ∃ tree : UnionTree, ts ++ (last.tokens ++ barredTokens others) = tree.tokens ∧
      tree.Denotes p (unionHint (members.reverse ++ h :: hs)) := by
  -- the members are known last one first, so each of them goes over to those behind it
  induction hread generalizing last h others hs with
  | none => exact ⟨.mk last others, rfl, h, hs, hlast, hothers, rfl⟩
  | more before denotes ih =>
    have hrest : MembersDenote p (last :: others) (h :: hs) := ⟨h, hs, rfl, hlast, hothers⟩
    obtain ⟨tree, htokens, htree⟩ := ih denotes hrest
    refine ⟨tree, ?_, ?_⟩
    · rw [← htokens]
      simp only [barredTokens, List.append_assoc, List.singleton_append]
    · rwa [List.reverse_cons, List.append_assoc, List.singleton_append]

/-- Finished members and the last one are a union. -/
theorem ReadMembers.exists_union_of_last {members : List TypeHint} {ts : List Token}
    (hread : ReadMembers p members ts) {last : PrimaryTree} {h : TypeHint}
    (hlast : last.Denotes p h) :
    ∃ tree : UnionTree, ts ++ last.tokens = tree.tokens ∧
      tree.Denotes p (TypeHint.unionOf (h :: members).reverse) := by
  have hothers : MembersDenote p [] [] := rfl
  obtain ⟨tree, htokens, htree⟩ := hread.exists_union hlast hothers
  rw [barredTokens, List.append_nil] at htokens
  rw [unionOf_eq_unionHint, List.reverse_cons]
  exact ⟨tree, htokens, htree⟩

/-- Finished arguments and others behind them are arguments. -/
theorem ReadArgs.exists_args {args : List TypeHint} {ts : List Token}
    (hread : ReadArgs p args ts) {last : UnionTree} {h : TypeHint} (hlast : last.Denotes p h)
    {others : List UnionTree} {hs : List TypeHint} (hothers : ArgsDenote p others hs) :
    ∃ (first : UnionTree) (rest : List UnionTree) (a : TypeHint) (as : List TypeHint),
      ts ++ (last.tokens ++ commaTokens others) = first.tokens ++ commaTokens rest ∧
      first.Denotes p a ∧ ArgsDenote p rest as ∧ a :: as = args.reverse ++ h :: hs := by
  induction hread generalizing last h others hs with
  | none => exact ⟨last, others, h, hs, rfl, hlast, hothers, rfl⟩
  | more before denotes ih =>
    have hbehind : ArgsDenote p (last :: others) (h :: hs) := ⟨h, hs, rfl, hlast, hothers⟩
    obtain ⟨first, rest, a, as, htokens, hfirst, hrest, hargs⟩ := ih denotes hbehind
    refine ⟨first, rest, a, as, ?_, hfirst, hrest, ?_⟩
    · rw [← htokens]
      simp only [commaTokens, List.append_assoc, List.singleton_append]
    · rw [hargs, List.reverse_cons, List.append_assoc, List.singleton_append]

/-- Behind a complete member, one more token keeps account of what has been read. -/
theorem hasRead_afterMember {brackets : List Parser.Bracket} {members : List TypeHint}
    {ts memberTs : List Token} {tree : PrimaryTree} {h : TypeHint}
    (around : ReadBrackets p brackets ts) (before : ReadMembers p members memberTs)
    (denotes : tree.Denotes p h) {t : Located} {s : Parser.State}
    (hstep : Parser.afterMember brackets (h :: members) t = .ok (.next s)) :
    HasRead p s (ts ++ (memberTs ++ tree.tokens) ++ [t.token]) := by
  unfold Parser.afterMember at hstep
  split at hstep
  next htoken =>
    cases hstep
    rw [htoken]
    simpa using HasRead.start around (before.more denotes)
  next b rest htoken =>
    cases hstep
    cases around with
    | more around houter hargs =>
      obtain ⟨arg, htokens, harg⟩ := before.exists_union_of_last denotes
      rw [htoken, htokens]
      simpa using HasRead.start (.more around houter (hargs.more harg)) .none
  next b rest htoken =>
    obtain ⟨hint, happlied, hnext⟩ := bind_eq_ok_iff.mp hstep
    cases hnext
    cases around with
    | @more _ _ _ argTs name _ _ around houter hargs =>
      obtain ⟨arg, htokens, harg⟩ := before.exists_union_of_last denotes
      have hlast : ArgsDenote p [] [] := rfl
      obtain ⟨first, others, a, as, hts, hfirst, hothers, heq⟩ := hargs.exists_args harg hlast
      rw [commaTokens, List.append_nil] at hts
      rw [List.reverse_cons, ← heq] at happlied
      have hdenotes : (PrimaryTree.applied name first others).Denotes p hint :=
        ⟨a, as, hfirst, hothers, appliedDenotes_iff.mpr happlied⟩
      have hnameTokens : (PrimaryTree.applied name first others).tokens =
          .name name :: .openBracket :: (argTs ++ (arg.tokens ++ [.closeBracket])) := by
        rw [PrimaryTree.tokens, ← List.append_assoc, ← hts, List.append_assoc]
      -- the bracket that closes makes a primary of the name, and the members in front of the name
      -- are those of the union outside again
      have hread := HasRead.closed around houter hdenotes
      rw [hnameTokens] at hread
      rw [htoken, htokens]
      simpa using hread
  all_goals cases hstep

/-- Behind a complete member the reader is done at the end of the text, if no bracket is open. -/
theorem done_afterMember {brackets : List Parser.Bracket} {members : List TypeHint}
    {ts memberTs : List Token} {tree : PrimaryTree} {g : TypeHint}
    (around : ReadBrackets p brackets ts) (before : ReadMembers p members memberTs)
    (denotes : tree.Denotes p g) {t : Located} {h : TypeHint}
    (hstep : Parser.afterMember brackets (g :: members) t = .ok (.done h)) :
    t.token = .endOfText ∧
      ∃ whole : UnionTree, ts ++ (memberTs ++ tree.tokens) = whole.tokens ∧ whole.Denotes p h := by
  unfold Parser.afterMember at hstep
  split at hstep
  case h_4 htoken =>
    cases hstep
    cases around
    exact ⟨htoken, before.exists_union_of_last denotes⟩
  case h_3 =>
    obtain ⟨hint, -, hdone⟩ := bind_eq_ok_iff.mp hstep
    cases hdone
  all_goals cases hstep

/-- One token keeps account of what has been read. -/
theorem HasRead.step {s s' : Parser.State} {ts : List Token} (hread : HasRead p s ts)
    {t : Located} (hstep : p.step s t = .ok (.next s')) : HasRead p s' (ts ++ [t.token]) := by
  cases hread with
  | start around before =>
    obtain ⟨name, htoken, hnext⟩ := step_start_eq_ok_iff.mp hstep
    cases hnext
    rw [htoken, List.append_assoc]
    exact .named around before
  | named around before =>
    by_cases hopen : t.token = .openBracket
    · rw [step_named_open hopen] at hstep
      cases hstep
      rw [hopen]
      simpa using HasRead.start (.more around before .none) .none
    · rw [step_named hopen] at hstep
      exact hasRead_afterMember around before (bare_denotes _) hstep
  | closed around before denotes => exact hasRead_afterMember around before denotes hstep

/-- The reader is done at the end of the text, behind a union. -/
theorem HasRead.done {s : Parser.State} {ts : List Token} (hread : HasRead p s ts)
    {t : Located} {h : TypeHint} (hstep : p.step s t = .ok (.done h)) :
    t.token = .endOfText ∧ ∃ tree : UnionTree, ts = tree.tokens ∧ tree.Denotes p h := by
  cases hread with
  | start around before =>
    obtain ⟨name, htoken, hdone⟩ := step_start_eq_ok_iff.mp hstep
    cases hdone
  | named around before =>
    by_cases hopen : t.token = .openBracket
    · rw [step_named_open hopen] at hstep
      cases hstep
    · rw [step_named hopen] at hstep
      exact done_afterMember around before (bare_denotes _) hstep
  | closed around before denotes => exact done_afterMember around before denotes hstep

/-- A run that ends with a hint has read a union that stands for it. -/
theorem HasRead.run {e : Located} {h : TypeHint} {front : List Located}
    (hfront : ∀ t ∈ front, t.token ≠ .endOfText) {s : Parser.State} {ts : List Token}
    (hread : HasRead p s ts) (hrun : p.run s (front ++ [e]) = .ok h) :
    ∃ tree : UnionTree, ts ++ front.map Located.token = tree.tokens ∧ tree.Denotes p h := by
  induction front generalizing s ts with
  | nil =>
    obtain ⟨r, hstep, hrest⟩ := bind_eq_ok_iff.mp hrun
    cases r with
    | next s' => cases hrest
    | done g =>
      cases hrest
      obtain ⟨-, tree, htokens, htree⟩ := hread.done hstep
      exact ⟨tree, by rw [List.map_nil, List.append_nil, htokens], htree⟩
  | cons t front ih =>
    obtain ⟨ht, hfront⟩ := List.forall_mem_cons.mp hfront
    obtain ⟨r, hstep, hrest⟩ := bind_eq_ok_iff.mp hrun
    cases r with
    | next s' =>
      obtain ⟨tree, htokens, htree⟩ := ih hfront (hread.step hstep) hrest
      refine ⟨tree, ?_, htree⟩
      rw [← htokens, List.map_cons, List.append_assoc, List.singleton_append]
    | done g => exact absurd (hread.done hstep).1 ht

/-! ## What is read at once -/

/-- One token that the reader goes on from. -/
theorem run_cons_of_step {s s' : Parser.State} {t : Located} (h : p.step s t = .ok (.next s'))
    (rest : List Located) : p.run s (t :: rest) = p.run s' rest := by
  rw [Parser.run, h]
  rfl

/-- A name in front of anything but its arguments. -/
theorem run_name {t : Located} {name : String} (ht : t.token = .name name) {rest : List Located}
    (hrest : NoBracket (rest.map Located.token)) (brackets : List Parser.Bracket)
    (members : List TypeHint) :
    p.run ⟨brackets, members, .start⟩ (t :: rest) =
      p.run ⟨brackets, p.resolveName name :: members, .closed⟩ rest := by
  rw [run_cons_of_step (step_start_eq_ok_iff.mpr ⟨name, ht, rfl⟩)]
  cases rest with
  | nil => rfl
  | cons u rest =>
    have hu : u.token ≠ .openBracket := fun hu => hrest (by rw [List.map_cons, hu]; rfl)
    rw [Parser.run, Parser.run, step_named hu]
    rfl

mutual

/-- The tokens of a union leave the reader with its members. -/
theorem UnionTree.run_tokens : ∀ (tree : UnionTree) {h : TypeHint}, tree.Denotes p h →
    ∀ {front rest : List Located} (brackets : List Parser.Bracket),
      front.map Located.token = tree.tokens → NoBracket (rest.map Located.token) →
      ∃ members, TypeHint.unionOf members.reverse = h ∧
        p.run ⟨brackets, [], .start⟩ (front ++ rest) = p.run ⟨brackets, members, .closed⟩ rest
  | .mk first others, _, ⟨m, ms, hm, hms, rfl⟩, front, rest, brackets, hfront, hrest => by
    rw [UnionTree.tokens] at hfront
    obtain ⟨ts, us, rfl, hts, hus⟩ := List.map_eq_append_iff.mp hfront
    have hothers : NoBracket ((us ++ rest).map Located.token) := by
      rw [List.map_append, hus]
      exact noBracket_barred hrest
    refine ⟨ms.reverse ++ [m], ?_, ?_⟩
    · rw [unionOf_eq_unionHint, List.reverse_append, List.reverse_reverse]
      rfl
    · rw [List.append_assoc, PrimaryTree.run_tokens first hm brackets [] hts hothers,
        run_barredTokens others hms brackets [m] hus hrest]

/-- The tokens of a primary leave the reader with one more member. -/
theorem PrimaryTree.run_tokens : ∀ (tree : PrimaryTree) {h : TypeHint}, tree.Denotes p h →
    ∀ {front rest : List Located} (brackets : List Parser.Bracket) (members : List TypeHint),
      front.map Located.token = tree.tokens → NoBracket (rest.map Located.token) →
      p.run ⟨brackets, members, .start⟩ (front ++ rest) =
        p.run ⟨brackets, h :: members, .closed⟩ rest
  | .bare name, h, hdenotes, front, rest, brackets, members, hfront, hrest => by
    obtain ⟨t, rfl, ht⟩ := List.map_eq_singleton_iff.mp hfront
    rw [List.singleton_append, run_name ht hrest, nameDenotes_iff.mp hdenotes]
  | .applied name first others, h, ⟨a, as, ha, has, hh⟩, front, rest, brackets, members, hfront,
      hrest => by
    rw [PrimaryTree.tokens] at hfront
    obtain ⟨n, front, rfl, hn, hfront⟩ := List.map_eq_cons_iff.mp hfront
    obtain ⟨o, front, rfl, ho, hfront⟩ := List.map_eq_cons_iff.mp hfront
    obtain ⟨ts, front, rfl, hts, hfront⟩ := List.map_eq_append_iff.mp hfront
    obtain ⟨us, front, rfl, hus, hfront⟩ := List.map_eq_append_iff.mp hfront
    obtain ⟨c, rfl, hc⟩ := List.map_eq_singleton_iff.mp hfront
    have hclose : NoBracket (([c] ++ rest).map Located.token) := by simp [NoBracket, hc]
    have hothers : NoBracket ((us ++ ([c] ++ rest)).map Located.token) := by
      rw [List.map_append, hus, List.map_append, List.map_singleton, hc]
      exact (noBar_comma others _).1
    obtain ⟨inner, hinner, hfirst⟩ :=
      UnionTree.run_tokens first ha (⟨name, members, []⟩ :: brackets) hts hothers
    obtain ⟨last, args, hargs, hlast⟩ :=
      run_commaTokens others has brackets name members [] inner hus hclose
    have happlied : Parser.resolveApplied name (TypeHint.unionOf last.reverse :: args).reverse =
        .ok h := by
      rw [hargs, hinner, List.reverse_append, List.reverse_reverse]
      exact appliedDenotes_iff.mp hh
    calc p.run ⟨brackets, members, .start⟩ (n :: o :: (ts ++ (us ++ [c])) ++ rest)
      _ = p.run ⟨⟨name, members, []⟩ :: brackets, [], .start⟩ (ts ++ (us ++ ([c] ++ rest))) := by
        rw [List.cons_append, run_cons_of_step (step_start_eq_ok_iff.mpr ⟨name, hn, rfl⟩),
          List.cons_append, run_cons_of_step (step_named_open ho), List.append_assoc,
          List.append_assoc]
      _ = p.run ⟨⟨name, members, args⟩ :: brackets, last, .closed⟩ ([c] ++ rest) := by
        rw [hfirst, hlast]
      _ = p.run ⟨brackets, h :: members, .closed⟩ rest := by
        rw [List.singleton_append, run_cons_of_step (step_closed_close hc happlied)]

/-- The tokens of members behind bars leave the reader with these members too. -/
theorem run_barredTokens : ∀ (trees : List PrimaryTree) {hs : List TypeHint},
    MembersDenote p trees hs →
    ∀ {front rest : List Located} (brackets : List Parser.Bracket) (members : List TypeHint),
      front.map Located.token = barredTokens trees → NoBracket (rest.map Located.token) →
      p.run ⟨brackets, members, .closed⟩ (front ++ rest) =
        p.run ⟨brackets, hs.reverse ++ members, .closed⟩ rest
  | [], _, rfl, front, rest, brackets, members, hfront, _ => by
    rw [List.map_eq_nil_iff.mp hfront]
    rfl
  | tree :: trees, _, ⟨h, hs, rfl, hh, hhs⟩, front, rest, brackets, members, hfront, hrest => by
    rw [barredTokens] at hfront
    obtain ⟨b, front, rfl, hb, hfront⟩ := List.map_eq_cons_iff.mp hfront
    obtain ⟨ts, us, rfl, hts, hus⟩ := List.map_eq_append_iff.mp hfront
    have hothers : NoBracket ((us ++ rest).map Located.token) := by
      rw [List.map_append, hus]
      exact noBracket_barred hrest
    rw [List.cons_append, run_cons_of_step (step_closed_bar hb), List.append_assoc,
      PrimaryTree.run_tokens tree hh brackets members hts hothers,
      run_barredTokens trees hhs brackets (h :: members) hus hrest, List.reverse_cons,
      List.append_assoc, List.singleton_append]

/-- The tokens of arguments behind commas leave the reader with these arguments, the last one still
as the members of a union. -/
theorem run_commaTokens : ∀ (trees : List UnionTree) {as : List TypeHint}, ArgsDenote p trees as →
    ∀ {front rest : List Located} (brackets : List Parser.Bracket) (name : String)
      (outer args members : List TypeHint),
      front.map Located.token = commaTokens trees → NoBracket (rest.map Located.token) →
      ∃ last behind, TypeHint.unionOf last.reverse :: behind =
          as.reverse ++ TypeHint.unionOf members.reverse :: args ∧
        p.run ⟨⟨name, outer, args⟩ :: brackets, members, .closed⟩ (front ++ rest) =
          p.run ⟨⟨name, outer, behind⟩ :: brackets, last, .closed⟩ rest
  | [], _, rfl, front, rest, brackets, name, outer, args, members, hfront, _ => by
    rw [List.map_eq_nil_iff.mp hfront]
    exact ⟨members, args, rfl, rfl⟩
  | tree :: trees, _, ⟨a, as, rfl, ha, has⟩, front, rest, brackets, name, outer, args, members,
      hfront, hrest => by
    rw [commaTokens] at hfront
    obtain ⟨c, front, rfl, hc, hfront⟩ := List.map_eq_cons_iff.mp hfront
    obtain ⟨ts, us, rfl, hts, hus⟩ := List.map_eq_append_iff.mp hfront
    have hothers : NoBracket ((us ++ rest).map Located.token) := by
      rw [List.map_append, hus]
      cases trees with
      | nil => exact hrest
      | cons _ _ => simp [NoBracket, commaTokens]
    obtain ⟨inner, hinner, hfirst⟩ := UnionTree.run_tokens tree ha
      (⟨name, outer, TypeHint.unionOf members.reverse :: args⟩ :: brackets) hts hothers
    obtain ⟨last, behind, hlast, hrun⟩ := run_commaTokens trees has brackets name outer
      (TypeHint.unionOf members.reverse :: args) inner hus hrest
    refine ⟨last, behind, ?_, ?_⟩
    · rw [hlast, hinner, List.reverse_cons, List.append_assoc, List.singleton_append]
    · rw [List.cons_append, run_cons_of_step (step_closed_comma hc), List.append_assoc, hfirst,
        hrun]

end

/-- A run over tokens up to the end of the text gives exactly the hint of their reading. -/
theorem run_start_eq_ok_iff {front : List Located} {e : Located} {h : TypeHint}
    (hfront : ∀ t ∈ front, t.token ≠ .endOfText) (he : e.token = .endOfText) :
    p.run .start (front ++ [e]) = .ok h ↔
      ∃ tree : UnionTree, front.map Located.token = tree.tokens ∧ tree.Denotes p h := by
  constructor
  · intro hrun
    exact HasRead.run hfront (HasRead.start .none .none) hrun
  · rintro ⟨tree, htokens, htree⟩
    have hend : NoBracket ([e].map Located.token) := by simp [NoBracket, he]
    obtain ⟨members, hmembers, hrun⟩ := tree.run_tokens htree [] htokens hend
    rw [Parser.State.start, hrun, Parser.run, step_closed_end he, hmembers]
    rfl

/-! ## Texts -/

/-- The tokens of spaced tokens end with the end of the text, and only there. -/
theorem exists_front_of_located (offset : Nat) {items : Spacing} {trailing : List Char}
    {afterName : Bool} (h : Spacing.IsSpaced afterName items trailing) :
    ∃ front e, Spacing.located offset items trailing = front ++ [e] ∧ e.token = .endOfText ∧
      ∀ t ∈ front, t.token ≠ .endOfText := by
  induction items generalizing offset afterName with
  | nil => exact ⟨[], _, rfl, rfl, fun _ h => nomatch h⟩
  | cons item rest ih =>
    obtain ⟨-, hwritable, -, hrest⟩ := h
    obtain ⟨front, e, heq, he, hfront⟩ :=
      ih (offset + Spacing.size item.1 + Spacing.size item.2.chars) hrest
    refine ⟨⟨item.2, offset + Spacing.size item.1⟩ :: front, e, ?_, he, ?_⟩
    · rw [Spacing.located, heq, List.cons_append]
    · exact List.forall_mem_cons.mpr ⟨hwritable.1, hfront⟩

/-- A text that is a hint has tokens. -/
theorem exists_tokens_of_parse (p : Parser) {text : String} {h : TypeHint}
    (hparse : p.parse text = .ok h) : ∃ ts, tokens text = .ok ts := by
  rw [Parser.parse] at hparse
  split at hparse
  · cases hparse
  · obtain ⟨ts, hts, -⟩ := bind_eq_ok_iff.mp hparse
    exact ⟨ts, hts⟩

/-- A text is a hint where its tokens are: a blank text has none but its end, which is no hint. -/
theorem parse_eq_ok_iff {text : String} {ts : List Located} (ht : tokens text = .ok ts)
    {h : TypeHint} : p.parse text = .ok h ↔ p.run .start ts = .ok h := by
  unfold Parser.parse
  split
  next hblank =>
    have hend : ts = [⟨.endOfText, 0 + Spacing.size text.toList⟩] := by
      have hscan := @scan_blanks text.toList hblank 0 []
      rw [List.append_nil, ← tokens, ht] at hscan
      exact Except.ok.inj hscan
    rw [hend]
    constructor <;> intro hread <;> cases hread
  next => rw [ht, ok_bind]

/-- A text is a hint exactly where its tokens have a reading, which stands for it. -/
theorem parse_eq_ok_iff_exists_tree {text : String} {ts : List Located}
    (ht : tokens text = .ok ts) {h : TypeHint} :
    p.parse text = .ok h ↔
      ∃ tree : UnionTree, ts.map Located.token = tree.tokens ++ [.endOfText] ∧
        tree.Denotes p h := by
  obtain ⟨items, trailing, hspaced, -, rfl⟩ := tokens_eq_ok_iff.mp ht
  obtain ⟨front, e, heq, he, hfront⟩ := exists_front_of_located 0 hspaced
  rw [parse_eq_ok_iff ht, heq, run_start_eq_ok_iff hfront he, List.map_append, List.map_singleton,
    he]
  simp only [List.append_cancel_right_eq]

/-- The reader accepts exactly the grammar of hints. A text that has tokens is a hint exactly where
they are derived from the grammar with as many arguments as each name may have, and the hint is what
this derivation stands for. Tokens have one derivation, a derivation with fitting arguments stands
for one hint, and all texts that space the same tokens are the same hint. -/
theorem parse_accepts_grammar (p : Parser) {text : String} {ts : List Located}
    (ht : tokens text = .ok ts) :
    (∀ h, p.parse text = .ok h ↔
      ∃ tree : UnionTree, ts.map Located.token = tree.tokens ++ [.endOfText] ∧ tree.AritiesFit ∧
        tree.Denotes p h) ∧
    (∀ tree other : UnionTree, ts.map Located.token = tree.tokens ++ [.endOfText] →
      ts.map Located.token = other.tokens ++ [.endOfText] → tree = other) ∧
    (∀ tree : UnionTree, tree.AritiesFit ↔ ∃! h, tree.Denotes p h) ∧
    ∀ (other : String) (items : Spacing) (trailing : List Char),
      Spacing.IsSpaced false items trailing → other.toList = Spacing.text items trailing →
      items.map Prod.snd ++ [.endOfText] = ts.map Located.token →
      ∀ h, p.parse other = .ok h ↔ p.parse text = .ok h := by
  refine ⟨fun h => ?_, fun tree other htree hother => ?_, fun tree => ?_, ?_⟩
  · rw [parse_eq_ok_iff_exists_tree ht]
    constructor
    · rintro ⟨tree, htokens, hdenotes⟩
      exact ⟨tree, htokens, (tree.aritiesFit_iff p).mpr ⟨h, hdenotes⟩, hdenotes⟩
    · rintro ⟨tree, htokens, -, hdenotes⟩
      exact ⟨tree, htokens, hdenotes⟩
  · have hend : NoBar [.endOfText] := by simp [NoBar, NoBracket]
    exact (tree.tokens_inj other _ _ hend hend (htree.symm.trans hother)).1
  · rw [tree.aritiesFit_iff p]
    constructor
    · rintro ⟨h, hh⟩
      exact ⟨h, hh, fun g hg => UnionTree.Denotes.unique tree hg hh⟩
    · rintro ⟨h, hh, -⟩
      exact ⟨h, hh⟩
  · intro other items trailing hspaced hother htokens h
    have htother : tokens other = .ok (Spacing.located 0 items trailing) :=
      tokens_eq_ok_iff.mpr ⟨items, trailing, hspaced, hother, rfl⟩
    rw [parse_eq_ok_iff_exists_tree htother, parse_eq_ok_iff_exists_tree ht,
      Spacing.map_token_located, htokens]

/-- The grammar at nested brackets, a bar, a record and a name behind `typing.`, spaced in two
ways. -/
theorem parse_accepts_grammar_nested :
    let point : RecordDef := ⟨"Point", [⟨"x", .scalar .float, none⟩]⟩
    let p := Parser.empty.register point
    let text := "dict[str,typing.List[ Point|None ]]"
    let hint := TypeHint.dict (.scalar .str) (.list (.union [.record point, .none]))
    (∃ ts, tokens text = .ok ts) ∧ p.parse text = .ok hint ∧
      p.parse " dict [str,\ttyping.List[Point | None]] " = .ok hint := by
  intro point p text hint
  let ts : List Located := [⟨.name "dict", 0⟩, ⟨.openBracket, 4⟩, ⟨.name "str", 5⟩, ⟨.comma, 8⟩,
    ⟨.name "typing.List", 9⟩, ⟨.openBracket, 20⟩, ⟨.name "Point", 22⟩, ⟨.bar, 27⟩,
    ⟨.name "None", 28⟩, ⟨.closeBracket, 33⟩, ⟨.closeBracket, 34⟩, ⟨.endOfText, 35⟩]
  let spaced : List Located := [⟨.name "dict", 1⟩, ⟨.openBracket, 6⟩, ⟨.name "str", 7⟩,
    ⟨.comma, 10⟩, ⟨.name "typing.List", 12⟩, ⟨.openBracket, 23⟩, ⟨.name "Point", 24⟩, ⟨.bar, 30⟩,
    ⟨.name "None", 32⟩, ⟨.closeBracket, 36⟩, ⟨.closeBracket, 37⟩, ⟨.endOfText, 39⟩]
  have ht : tokens text = .ok ts := by decide +kernel
  have hspaced : tokens " dict [str,\ttyping.List[Point | None]] " = .ok spaced := by
    decide +kernel
  let list : UnionTree := .mk (.applied "typing.List" (.mk (.bare "Point") [.bare "None"]) []) []
  let tree : UnionTree := .mk (.applied "dict" (.mk (.bare "str") []) [list]) []
  have hlistName : IsShort "typing.List" "List" := .inl rfl
  have hlist : list.Denotes p (.list (.union [.record point, .none])) :=
    ⟨_, [], ⟨_, [],
      ⟨_, _, nameDenotes_iff.mpr rfl, ⟨_, [], rfl, nameDenotes_iff.mpr rfl, rfl⟩, rfl⟩, rfl, .list hlistName (by decide)⟩, rfl, rfl⟩
  have hdictName : IsShort "dict" "dict" := isShort_iff.mpr rfl
  have htree : tree.Denotes p hint :=
    ⟨_, [], ⟨_, _, ⟨_, [], nameDenotes_iff.mpr rfl, rfl, rfl⟩, ⟨_, [], rfl, hlist, rfl⟩,
      .dict hdictName (by decide)⟩, rfl, rfl⟩
  obtain ⟨hparse, -, -, hspacing⟩ := parse_accepts_grammar p ht
  have htext : p.parse text = .ok hint :=
    (hparse hint).mpr ⟨tree, rfl, (tree.aritiesFit_iff p).mpr ⟨hint, htree⟩, htree⟩
  obtain ⟨items, trailing, hitems, hchars, hlocated⟩ := tokens_eq_ok_iff.mp hspaced
  have htokens : items.map Prod.snd ++ [.endOfText] = ts.map Located.token := by
    rw [← Spacing.map_token_located 0 items trailing, ← hlocated]
    rfl
  exact ⟨⟨ts, ht⟩, htext, (hspacing _ items trailing hitems hchars htokens hint).mpr htext⟩

end TypedModel.Hint
