import TypedModel.Store.Disk
import TypedModel.Proofs.Sequence

/-!
# Files read back

A file that is written at a path is read back from that path. The way to the file leads through
folders that existed before, and the new file takes the place of none of them, so every name of the
path still leads where it led.
-/

namespace TypedModel.Disk

variable {d : Disk} {place : DiskPath}

/-! ## Places -/

/-- What was put at a place lies there. -/
theorem get?_put (d : Disk) (hplace : place ≠ []) (node : DiskNode) :
    (d.put place node).get? place = some node := by
  rw [get?, if_neg hplace, put, List.lookup_cons_self]

/-- What lies at other places stays. -/
theorem get?_put_of_ne (d : Disk) {other : DiskPath} (h : other ≠ place) (node : DiskNode) :
    (d.put place node).get? other = d.get? other := by
  rw [get?, get?]
  split
  next => rfl
  next =>
    rw [put, List.lookup_cons, beq_false_of_ne h]
    exact Sequence.lookup_filter_ne h d.nodes

/-- A folder stays a folder when a file is put elsewhere. -/
theorem isFolder_put {other : DiskPath} {text : String} (hother : d.isFolder other = true)
    (hplace : d.isFolder place = false) : (d.put place (.file text)).isFolder other = true := by
  have hne : other ≠ place := by
    intro h
    rw [h, hplace] at hother
    exact Bool.noConfusion hother
  rwa [isFolder, get?_put_of_ne d hne]

/-- What lies somewhere is still there, or replaced, when a file is put on the disk. -/
theorem isSome_get?_put {other : DiskPath} (text : String) (h : (d.get? other).isSome = true) :
    ((d.put place (.file text)).get? other).isSome = true := by
  by_cases hroot : other = []
  · rw [get?, if_pos hroot]
    rfl
  · by_cases hother : other = place
    · subst hother
      rw [get?_put d hroot]
      rfl
    · rwa [get?_put_of_ne d hother]

/-- Where a name of a written path leads. -/
theorem step_eq_some_iff {start next : DiskPath} {name : String} :
    d.step start name = some next ↔ d.isFolder start = true ∧
      ((name = "" ∨ name = ".") ∧ next = start ∨ name = ".." ∧ next = start.dropLast ∨
        (name ≠ "" ∧ name ≠ "." ∧ name ≠ "..") ∧ (d.get? (start ++ [name])).isSome = true ∧
          next = start ++ [name]) := by
  unfold step
  split
  case isFalse hno => simp [hno]
  case isTrue hfolder =>
    have hstays : some start = some next ↔ next = start := by rw [Option.some.injEq, eq_comm]
    have hup : some start.dropLast = some next ↔ next = start.dropLast := by
      rw [Option.some.injEq, eq_comm]
    split
    next => simp [hfolder, hstays]
    next => simp [hfolder, hstays]
    next => simp [hfolder, hup]
    next hempty hpoint hpoints =>
      have hother : name ≠ "" ∧ name ≠ "." ∧ name ≠ ".." := ⟨hempty, hpoint, hpoints⟩
      have hnext : some (start ++ [name]) = some next ↔ next = start ++ [name] := by
        rw [Option.some.injEq, eq_comm]
      split
      next hthere => simp [hfolder, hother, hthere, hnext]
      next hmissing => simp [hother, hmissing]

/-- Where a name led, it leads after a file was put at a place that was no folder. -/
theorem step_put {start next : DiskPath} {name : String} (text : String)
    (hplace : d.isFolder place = false) (h : d.step start name = some next) :
    (d.put place (.file text)).step start name = some next := by
  obtain ⟨hfolder, hleads⟩ := step_eq_some_iff.mp h
  refine step_eq_some_iff.mpr ⟨isFolder_put hfolder hplace, ?_⟩
  rcases hleads with hstays | hup | ⟨hname, hthere, hnext⟩
  · exact .inl hstays
  · exact .inr (.inl hup)
  · exact .inr (.inr ⟨hname, isSome_get?_put text hthere, hnext⟩)

/-! ## Files -/

/-- A place for a file lies below the top and is no folder. -/
theorem filePlace_spec {start : DiskPath} {names : List String}
    (h : d.filePlace start names = some place) : place ≠ [] ∧ d.isFolder place = false := by
  induction names generalizing start with
  | nil => cases h
  | cons name rest ih =>
    cases rest with
    | nil =>
      rw [filePlace] at h
      split at h
      case isFalse => cases h
      case isTrue hfree =>
        cases h
        simp only [Bool.and_eq_true, Bool.not_eq_true'] at hfree
        exact ⟨by simp, hfree.2⟩
    | cons second rest =>
      rw [filePlace] at h
      split at h
      next next _ => exact ih h
      next => cases h
      simp

/-- The names that gave the place for a file lead there once the file is there. -/
theorem foldlM_step_put {start : DiskPath} {names : List String} (text : String)
    (h : d.filePlace start names = some place) :
    names.foldlM (d.put place (.file text)).step start = some place := by
  obtain ⟨hbelow, hfree⟩ := filePlace_spec h
  induction names generalizing start with
  | nil => cases h
  | cons name rest ih =>
    cases rest with
    | nil =>
      rw [filePlace] at h
      split at h
      case isFalse => cases h
      case isTrue hplace =>
        cases h
        simp only [Bool.and_eq_true, Bool.not_eq_true', DiskPath.isName, bne_iff_ne,
          decide_eq_true_eq] at hplace
        obtain ⟨⟨hfolder, ⟨⟨hempty, hpoint⟩, hpoints⟩, -⟩, -⟩ := hplace
        have hstep : (d.put (start ++ [name]) (.file text)).step start name =
            some (start ++ [name]) := by
          refine step_eq_some_iff.mpr ⟨isFolder_put hfolder hfree, .inr (.inr ?_)⟩
          exact ⟨⟨hempty, hpoint, hpoints⟩, by rw [get?_put d hbelow]; rfl, rfl⟩
        rw [List.foldlM_cons, hstep]
        rfl
    | cons second rest =>
      rw [filePlace] at h
      split at h
      case h_1 next hstep =>
        rw [List.foldlM_cons, step_put text hfree hstep]
        exact ih h
      case h_2 => cases h
      simp

/-- A file that was written is read back. -/
theorem read_write {after : Disk} {path text : String} (h : d.write path text = some after) :
    after.read path = some text := by
  cases hnames : DiskPath.ofText? path with
  | none => simp [write, hnames] at h
  | some names =>
    cases hplace : d.filePlace [] names with
    | none => simp [write, hnames, hplace] at h
    | some place =>
      simp only [write, hnames, hplace, Option.bind_eq_bind, Option.bind_some,
        Option.some.injEq] at h
      subst h
      have hleads := foldlM_step_put text hplace
      simp only [read, locate, hnames, Option.bind_eq_bind, Option.bind_some, hleads,
        get?_put d (filePlace_spec hplace).1]

/-- A file that can be read exists. -/
theorem contains_of_read {path text : String} (h : d.read path = some text) :
    d.contains path = true := by
  rw [contains]
  cases hplace : d.locate path with
  | none => simp [read, hplace] at h
  | some place => rfl

end TypedModel.Disk
