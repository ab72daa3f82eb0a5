import Mathlib.Data.List.Forall2

/-!
# Runs over lists

What it means for a computation that may fail to run over every item of a list: the run succeeds
with the results in order, or fails as the first item that fails. And what a list of associated
values keeps when the entries of one key are removed.
-/

namespace TypedModel.Sequence

variable {ε α β : Type}

/-- A value that is given is passed on. -/
theorem ok_bind (a : α) (f : α → Except ε β) : (Except.ok a >>= f) = f a := rfl

/-- A changed outcome succeeds where the outcome does. -/
theorem map_eq_ok_iff {x : Except ε α} {f : α → β} {b : β} :
    x.map f = .ok b ↔ ∃ a, x = .ok a ∧ f a = b := by
  cases x <;> simp [Except.map]

/-- One outcome after another succeeds where both do. -/
theorem bind_eq_ok_iff {x : Except ε α} {f : α → Except ε β} {b : β} :
    (x >>= f) = .ok b ↔ ∃ a, x = .ok a ∧ f a = .ok b := by
  cases x <;> simp [bind, Except.bind]

/-- A changed outcome fails where the outcome does. -/
theorem map_eq_error_iff {x : Except ε α} {f : α → β} {e : ε} :
    x.map f = .error e ↔ x = .error e := by
  cases x <;> simp [Except.map]

/-- One outcome after another fails where the first does, or else the second. -/
theorem bind_eq_error_iff {x : Except ε α} {f : α → Except ε β} {e : ε} :
    (x >>= f) = .error e ↔ x = .error e ∨ ∃ a, x = .ok a ∧ f a = .error e := by
  cases x <;> simp [bind, Except.bind]

/-- What is made of an outcome fails where the outcome does. -/
theorem bind_ok_eq_error_iff {x : Except ε α} {f : α → β} {e : ε} :
    (x >>= fun a => .ok (f a)) = .error e ↔ x = .error e := by
  cases x <;> simp [bind, Except.bind]

/-- An outcome kept as an option gives a value exactly where the outcome does. -/
theorem toOption_eq_some_iff {x : Except ε α} {a : α} : x.toOption = some a ↔ x = .ok a := by
  cases x <;> simp [Except.toOption]

/-- Changing the value of an outcome changes the value of its option. -/
theorem toOption_map (x : Except ε α) (f : α → β) : (x.map f).toOption = x.toOption.map f := by
  cases x <;> rfl

/-- One outcome after another, kept as options. -/
theorem toOption_bind (x : Except ε α) (f : α → Except ε β) :
    (x >>= f).toOption = x.toOption.bind fun a => (f a).toOption := by
  cases x <;> rfl

/-- A run over a list, kept as an option, is the run of the options. -/
theorem toOption_mapM (f : α → Except ε β) (xs : List α) :
    (xs.mapM f).toOption = xs.mapM fun x => (f x).toOption := by
  induction xs with
  | nil => rfl
  | cons x xs ih =>
    rw [List.mapM_cons, List.mapM_cons, toOption_bind]
    congr 1
    funext y
    rw [toOption_bind, ih]
    rfl

/-- A run over a list of options succeeds exactly with the list of the results. -/
theorem mapM_eq_some_iff {f : α → Option β} {xs : List α} {ys : List β} :
    xs.mapM f = some ys ↔ List.Forall₂ (fun x y => f x = some y) xs ys := by
  induction xs generalizing ys with
  | nil => simp [eq_comm]
  | cons x xs ih =>
    simp only [List.mapM_cons, Option.bind_eq_bind, Option.bind_eq_some_iff, Option.pure_def,
      Option.some.injEq, List.forall₂_cons_left_iff, ih]
    constructor
    · rintro ⟨y, hy, tail, ht, rfl⟩
      exact ⟨y, tail, hy, ht, rfl⟩
    · rintro ⟨y, tail, hy, ht, rfl⟩
      exact ⟨y, hy, tail, ht, rfl⟩

/-- Lists are told apart by a function that tells the items of one of them apart from all others. -/
theorem eq_of_map_eq_map {f : α → β} {xs ys : List α} (hf : ∀ x ∈ xs, ∀ y, f x = f y → x = y)
    (h : xs.map f = ys.map f) : xs = ys := by
  induction xs generalizing ys with
  | nil => exact (List.map_eq_nil_iff.mp h.symm).symm
  | cons x xs ih =>
    obtain ⟨y, tail, rfl, hfirst, hrest⟩ := List.map_eq_cons_iff.mp h.symm
    obtain ⟨hx, hxs⟩ := List.forall_mem_cons.mp hf
    rw [hx y hfirst.symm, ih hxs hrest.symm]

/-- An item of a list, with those in front of it, is the first one or stands behind it. -/
theorem exists_split_cons {x : α} {xs : List α} {p : List α → α → Prop} :
    (∃ before y after, x :: xs = before ++ y :: after ∧ p before y) ↔
      p [] x ∨ ∃ before y after, xs = before ++ y :: after ∧ p (x :: before) y := by
  constructor
  · rintro ⟨before, y, after, hsplit, hp⟩
    cases before with
    | nil =>
      cases hsplit
      exact .inl hp
    | cons z before =>
      cases hsplit
      exact .inr ⟨before, y, after, rfl, hp⟩
  · rintro (hp | ⟨before, y, after, rfl, hp⟩)
    · exact ⟨[], x, xs, rfl, hp⟩
    · exact ⟨x :: before, y, after, rfl, hp⟩

/-- A run succeeds exactly with the list of the results. -/
theorem mapM_eq_ok_iff {f : α → Except ε β} {xs : List α} {ys : List β} :
    xs.mapM f = .ok ys ↔ List.Forall₂ (fun x y => f x = .ok y) xs ys := by
  rw [← toOption_eq_some_iff, toOption_mapM, mapM_eq_some_iff]
  simp only [toOption_eq_some_iff]

/-- What holds at the start of a run and is kept by each of its steps holds at its end. -/
theorem foldlM_keeps {f : β → α → Except ε β} {P : β → Prop} {xs : List α} {b c : β} (hb : P b)
    (hstep : ∀ x ∈ xs, ∀ b c, P b → f b x = .ok c → P c) (h : xs.foldlM f b = .ok c) : P c := by
  induction xs generalizing b with
  | nil =>
    cases h
    exact hb
  | cons x xs ih =>
    obtain ⟨hfirst, hrest⟩ := List.forall_mem_cons.mp hstep
    rw [List.foldlM_cons] at h
    obtain ⟨next, hnext, hrun⟩ := bind_eq_ok_iff.mp h
    exact ih (hfirst b next hb hnext) hrest hrun

/-- Where some item satisfies a condition, one is the first that does. -/
theorem exists_first {p : α → Prop} {xs : List α} (h : ∃ x ∈ xs, p x) :
    ∃ before x after, xs = before ++ x :: after ∧ (∀ y ∈ before, ¬ p y) ∧ p x := by
  classical
  obtain ⟨x, hx, hp⟩ := h
  have hsome : (xs.find? fun y => decide (p y)).isSome = true :=
    List.find?_isSome.mpr ⟨x, hx, decide_eq_true hp⟩
  obtain ⟨first, hfirst⟩ := Option.isSome_iff_exists.mp hsome
  obtain ⟨hfound, before, after, hsplit, hbefore⟩ := List.find?_eq_some_iff_append.mp hfirst
  refine ⟨before, first, after, hsplit, fun y hy hpy => ?_, of_decide_eq_true hfound⟩
  have hnot := hbefore y hy
  simp [hpy] at hnot

/-- A run fails as the first item that does. -/
theorem mapM_eq_error_iff {f : α → Except ε β} {xs : List α} {e : ε} :
    xs.mapM f = .error e ↔
      ∃ before x after, xs = before ++ x :: after ∧ (∀ y ∈ before, ∃ b, f y = .ok b) ∧
        f x = .error e := by
  constructor
  · intro h
    induction xs with
    | nil => cases h
    | cons x xs ih =>
      rw [List.mapM_cons, bind_eq_error_iff] at h
      rcases h with hx | ⟨b, hx, hrest⟩
      · exact ⟨[], x, xs, rfl, by simp, hx⟩
      · rcases bind_eq_error_iff.mp hrest with hxs | ⟨bs, -, hpure⟩
        · obtain ⟨before, y, after, rfl, hbefore, hy⟩ := ih hxs
          refine ⟨x :: before, y, after, rfl, ?_, hy⟩
          exact List.forall_mem_cons.mpr ⟨⟨b, hx⟩, hbefore⟩
        · cases hpure
  · rintro ⟨before, x, after, rfl, hbefore, hx⟩
    induction before with
    | nil =>
      rw [List.nil_append, List.mapM_cons, hx]
      rfl
    | cons y before ih =>
      obtain ⟨⟨b, hb⟩, hbefore⟩ := List.forall_mem_cons.mp hbefore
      rw [List.cons_append, List.mapM_cons, hb, ok_bind, ih hbefore]
      rfl

/-- A run fails where some item does. -/
theorem exists_mapM_eq_error_iff {f : α → Except ε β} {xs : List α} :
    (∃ e, xs.mapM f = .error e) ↔ ∃ x ∈ xs, ∃ e, f x = .error e := by
  constructor
  · rintro ⟨e, he⟩
    obtain ⟨before, x, after, rfl, -, hx⟩ := mapM_eq_error_iff.mp he
    exact ⟨x, by simp, e, hx⟩
  · intro h
    obtain ⟨before, x, after, rfl, hbefore, e, hx⟩ := exists_first h
    refine ⟨e, mapM_eq_error_iff.mpr ⟨before, x, after, rfl, fun y hy => ?_, hx⟩⟩
    cases hfy : f y with
    | ok b => exact ⟨b, rfl⟩
    | error e => exact absurd ⟨e, hfy⟩ (hbefore y hy)

/-- A run over items with their places fails as the first one that does, whose place counts those in
front of it. -/
theorem mapM_zipIdx_eq_error_iff {f : α × Nat → Except ε β} {xs : List α} {e : ε} :
    xs.zipIdx.mapM f = .error e ↔
      ∃ before x after, xs = before ++ x :: after ∧ (∀ p ∈ before.zipIdx, ∃ b, f p = .ok b) ∧
        f (x, before.length) = .error e := by
  rw [mapM_eq_error_iff]
  constructor
  · rintro ⟨before, ⟨x, i⟩, after, hsplit, hbefore, hx⟩
    have hitems : xs = before.map Prod.fst ++ x :: after.map Prod.fst := by
      rw [← List.zipIdx_map_fst 0 xs, hsplit, List.map_append, List.map_cons]
    have hplaces := hsplit
    rw [hitems, List.zipIdx_append, List.zipIdx_cons] at hplaces
    obtain ⟨hfront, hrest⟩ := List.append_inj hplaces (by simp)
    simp only [List.cons.injEq, Prod.mk.injEq, true_and, Nat.zero_add] at hrest
    refine ⟨before.map Prod.fst, x, after.map Prod.fst, hitems, ?_, ?_⟩
    · rwa [hfront]
    · rwa [hrest.1]
  · rintro ⟨before, x, after, rfl, hbefore, hx⟩
    refine ⟨before.zipIdx, (x, before.length), after.zipIdx (before.length + 1), ?_, hbefore, hx⟩
    rw [List.zipIdx_append, List.zipIdx_cons, Nat.zero_add]

/-- Of all items with their places the same is said as of all items. -/
theorem forall_mem_zipIdx_iff {P : α → Prop} {xs : List α} {i : Nat} :
    (∀ p ∈ xs.zipIdx i, P p.1) ↔ ∀ x ∈ xs, P x := by
  rw [← List.zipIdx_map_fst i xs, List.forall_mem_map, List.zipIdx_map_fst]

/-- A run over a list of options succeeds where every item does. -/
theorem isSome_mapM_iff {f : α → Option β} {xs : List α} :
    (xs.mapM f).isSome = true ↔ ∀ x ∈ xs, (f x).isSome = true := by
  induction xs with
  | nil => simp
  | cons x xs ih =>
    rw [List.forall_mem_cons, ← ih, List.mapM_cons]
    cases f x with
    | none => simp
    | some y => cases xs.mapM f <;> simp

/-- Every item on the right of two related lists stands in the relation with one on the left. -/
theorem exists_of_mem_right {R : α → β → Prop} {xs : List α} {ys : List β}
    (h : List.Forall₂ R xs ys) {y : β} (hy : y ∈ ys) : ∃ x ∈ xs, R x y := by
  induction h with
  | nil => cases hy
  | @cons x y' xs ys hxy _ ih =>
    rcases List.mem_cons.mp hy with rfl | hy
    · exact ⟨x, List.mem_cons_self, hxy⟩
    · obtain ⟨x', hx', hr⟩ := ih hy
      exact ⟨x', List.mem_cons_of_mem x hx', hr⟩

/-! ## Associated values -/

/-- A run over associated values keeps their keys and gives the results in their places. -/
theorem mapM_values_eq_some_iff {κ : Type} {f : α → Option β} {xs : List (κ × α)}
    {ys : List (κ × β)} :
    (xs.mapM fun e => (f e.2).map (e.1, ·)) = some ys ↔
      ys.map Prod.fst = xs.map Prod.fst ∧
        List.Forall₂ (fun a b => f a = some b) (xs.map Prod.snd) (ys.map Prod.snd) := by
  rw [mapM_eq_some_iff]
  induction xs generalizing ys with
  | nil => cases ys <;> simp
  | cons x xs ih =>
    cases ys with
    | nil => simp
    | cons y ys =>
      obtain ⟨key, b⟩ := y
      rw [List.forall₂_cons, ih]
      simp only [List.map_cons, List.cons.injEq, List.forall₂_cons, Option.map_eq_some_iff,
        Prod.mk.injEq]
      constructor
      · rintro ⟨⟨_, hb, rfl, rfl⟩, hkeys, hvalues⟩
        exact ⟨⟨rfl, hkeys⟩, hb, hvalues⟩
      · rintro ⟨⟨rfl, hkeys⟩, hb, hvalues⟩
        exact ⟨⟨b, hb, rfl, rfl⟩, hkeys, hvalues⟩

/-- The value of a key is that of one of the entries. -/
theorem mem_of_lookup {κ : Type} [BEq κ] [LawfulBEq κ] {entries : List (κ × α)} {key : κ} {a : α}
    (h : entries.lookup key = some a) : (key, a) ∈ entries := by
  obtain ⟨front, back, hsplit, -⟩ := List.lookup_eq_some_iff.mp h
  rw [hsplit]
  exact List.mem_append_right front List.mem_cons_self

/-- Under the same keys related values are found. -/
theorem lookup_rel {κ : Type} [BEq κ] {R : α → β → Prop} {xs : List (κ × α)} {ys : List (κ × β)}
    (hkeys : ys.map Prod.fst = xs.map Prod.fst)
    (hvalues : List.Forall₂ R (xs.map Prod.snd) (ys.map Prod.snd)) (key : κ) :
    Option.Rel R (xs.lookup key) (ys.lookup key) := by
  induction xs generalizing ys with
  | nil =>
    rw [List.map_nil, List.map_eq_nil_iff] at hkeys
    rw [hkeys]
    exact .none
  | cons x xs ih =>
    cases ys with
    | nil => cases hkeys
    | cons y ys =>
      rw [List.map_cons, List.map_cons, List.cons.injEq] at hkeys
      rw [List.map_cons, List.map_cons, List.forall₂_cons] at hvalues
      rw [List.lookup_cons, List.lookup_cons, hkeys.1]
      split
      · exact .some hvalues.1
      · exact ih hkeys.2 hvalues.2

/-- Of the entries whose keys satisfy a condition, the value of a key is found where the key does. -/
theorem lookup_filter {κ α : Type} [BEq κ] [LawfulBEq κ] (p : κ → Bool) (key : κ)
    (entries : List (κ × α)) :
    (entries.filter fun e => p e.1).lookup key = if p key then entries.lookup key else none := by
  induction entries with
  | nil => simp
  | cons e rest ih =>
    obtain ⟨k, v⟩ := e
    by_cases hkey : key = k
    · subst hkey
      cases hp : p key <;> simp [hp, ih]
    · have hother : (key == k) = false := beq_false_of_ne hkey
      cases hp : p k <;> simp [hp, ih, List.lookup_cons, hother]

/-- Entries of one key do not matter to the value of another. -/
theorem lookup_filter_ne {κ α : Type} [BEq κ] [LawfulBEq κ] {key other : κ} (h : other ≠ key)
    (entries : List (κ × α)) :
    (entries.filter fun e => e.1 != key).lookup other = entries.lookup other := by
  rw [lookup_filter (· != key), if_pos (by simpa using h)]

end TypedModel.Sequence
