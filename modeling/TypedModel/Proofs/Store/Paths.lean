import TypedModel.Proofs.Store.Disk

/-!
# Paths of entries

The path of an entry is the path of its folder with one more name. Where the folder's path leads to
the folder, the entry is found, made, written and read at the one place below it, and a disk that
differs inside the folder only leads to the folder all the same.
-/

namespace TypedModel

namespace DiskPath

/-! ## Names in paths -/

/-- Names on both sides of a slash. -/
theorem split_append_slash (done front rest : List Char) :
    split done (front ++ '/' :: rest) = split done front ++ split [] rest := by
  induction done, front using split.induct with
  | case1 done => rfl
  | case2 done front ih => rw [List.cons_append, split, split, ih, List.cons_append]
  | case3 done c front hc ih => rw [List.cons_append, split.eq_3 _ _ _ hc, split.eq_3 _ _ _ hc, ih]

/-- A text without a slash is one name. -/
theorem split_of_notMem {done cs : List Char} (h : '/' ∉ cs) :
    split done cs = [String.ofList (done.reverse ++ cs)] := by
  induction done, cs using split.induct with
  | case1 done => rw [split, List.append_nil]
  | case2 done rest ih => exact absurd List.mem_cons_self h
  | case3 done c rest hc ih =>
    rw [split.eq_3 _ _ _ hc, ih fun hrest => h (List.mem_cons_of_mem c hrest)]
    simp

/-- A name that a path can have and that a file or folder can bear. -/
structure IsEntry (name : String) : Prop where
  /-- It can be borne. -/
  borne : isName name = true
  /-- No slash breaks it. -/
  unbroken : '/' ∉ name.toList

/-- A path of a folder with the name of an entry behind it, which a file system takes. -/
structure IsEntryPath (path name : String) : Prop where
  /-- The folder is named. -/
  named : path ≠ ""
  /-- The name is that of an entry. -/
  entry : IsEntry name
  /-- The path is not too long, and has no null character. -/
  taken : (ofText? (joinText path name)).isSome = true

variable {path name : String}

/-- A name that can be borne is not empty, and no points. -/
theorem ne_of_isName (h : isName name = true) : name ≠ "" ∧ name ≠ "." ∧ name ≠ ".." := by
  simp only [isName, Bool.and_eq_true, bne_iff_ne] at h
  exact ⟨h.1.1.1, h.1.1.2, h.1.2⟩

/-- Between a path and one more name there is a slash, the last one of the path or a new one. -/
theorem exists_joinText (hpath : path ≠ "") (hname : IsEntry name) :
    ∃ between, joinText path name = path ++ between ++ name ∧
      (between = "/" ∨ between = "" ∧ ∃ front, path.toList = front ++ ['/']) := by
  have hhead : (name.toList.head? == some '/') = false := by
    rw [beq_eq_false_iff_ne]
    intro h
    exact hname.unbroken (List.mem_of_mem_head? h)
  rw [joinText, if_neg (by simp [hpath, hhead])]
  split
  next hlast =>
    rw [beq_iff_eq, List.getLast?_eq_some_iff] at hlast
    exact ⟨"", by simp, .inr ⟨rfl, hlast⟩⟩
  next => exact ⟨"/", rfl, .inl rfl⟩

/-- A path with one more name is no path to stay at. -/
theorem joinText_ne (hpath : path ≠ "") (hname : IsEntry name) : joinText path name ≠ "" := by
  obtain ⟨between, h, -⟩ := exists_joinText hpath hname
  simp [h, hpath]

/-- A path with one more name has the bytes and the characters of both and at most one slash. -/
theorem joinText_bounds (hpath : path ≠ "") (hname : IsEntry name) :
    (joinText path name).utf8ByteSize ≤ path.utf8ByteSize + 1 + name.utf8ByteSize ∧
      ∀ c ∈ (joinText path name).toList, c ∈ path.toList ∨ c = '/' ∨ c ∈ name.toList := by
  obtain ⟨between, h, hbetween⟩ := exists_joinText hpath hname
  have hslash : between.utf8ByteSize ≤ 1 ∧ ∀ c ∈ between.toList, c = '/' := by
    rcases hbetween with rfl | ⟨rfl, -⟩ <;> exact ⟨by decide, by simp⟩
  rw [h, String.utf8ByteSize_append, String.utf8ByteSize_append, String.toList_append,
    String.toList_append]
  refine ⟨by omega, fun c hc => ?_⟩
  rw [List.mem_append, List.mem_append, or_assoc] at hc
  exact hc.imp_right (Or.imp_left (hslash.2 c))

/-- A file system takes a path where it is short enough and has no null character. -/
theorem isSome_ofText?_iff {text : String} :
    (ofText? text).isSome = true ↔ text.utf8ByteSize < 4096 ∧ '\x00' ∉ text.toList := by
  simp [ofText?]

/-- The names of a path that is taken are those between its slashes. -/
theorem ofText?_of_isSome {text : String} (h : (ofText? text).isSome = true) :
    ofText? text = some (split [] text.toList) := by
  rw [ofText?, Option.isSome_ite] at h
  exact if_pos h

namespace IsEntryPath

variable (h : IsEntryPath path name)
include h

/-- A folder whose entry has a path has one itself. -/
theorem taken_folder : (ofText? path).isSome = true := by
  obtain ⟨between, hjoined, -⟩ := exists_joinText h.named h.entry
  obtain ⟨hshort, hclean⟩ := isSome_ofText?_iff.mp h.taken
  rw [hjoined, String.utf8ByteSize_append, String.utf8ByteSize_append] at hshort
  rw [hjoined, String.toList_append, String.toList_append, List.mem_append, List.mem_append] at hclean
  exact isSome_ofText?_iff.mpr ⟨by omega, fun hnull => hclean (.inl (.inl hnull))⟩

/-- The names of a path with one more name are those of the path and that name. A path that ends in
a slash has an empty name in the end. -/
theorem names :
    ∃ front, ofText? (joinText path name) = some (front ++ [name]) ∧
      (ofText? path = some front ∨ ofText? path = some (front ++ [""])) := by
  have hlast : split [] name.toList = [name] := by
    rw [split_of_notMem h.entry.unbroken, List.reverse_nil, List.nil_append, String.ofList_toList]
  have hsplit {front : List Char} (hjoined : (joinText path name).toList = front ++ '/' :: name.toList) :
      ofText? (joinText path name) = some (split [] front ++ [name]) := by
    rw [ofText?_of_isSome h.taken, hjoined, split_append_slash, hlast]
  rw [ofText?_of_isSome h.taken_folder]
  obtain ⟨between, hjoined, rfl | ⟨rfl, front, hfront⟩⟩ := exists_joinText h.named h.entry
  · refine ⟨split [] path.toList, hsplit ?_, .inl rfl⟩
    rw [hjoined, String.toList_append, String.toList_append, List.append_assoc]
    rfl
  · refine ⟨split [] front, hsplit ?_, .inr ?_⟩
    · rw [hjoined, String.append_empty, String.toList_append, hfront, List.append_assoc,
        List.singleton_append]
    · rw [hfront, split_append_slash]
      rfl

end IsEntryPath

end DiskPath

namespace Disk

open DiskPath

variable {d : Disk} {path name : String} {folder place : DiskPath}

/-! ## Ways to folders -/

/-- A path leads to a folder. -/
def LeadsTo (d : Disk) (path : String) (folder : DiskPath) : Prop :=
  d.locate path = some folder ∧ d.isFolder folder = true

/-- An empty name stays at a folder. -/
theorem step_empty_eq_some_iff :
    d.step folder "" = some place ↔ d.isFolder folder = true ∧ place = folder := by
  simp [step_eq_some_iff]

/-- The name of an entry leads from its folder to the place below it, if there is something. -/
theorem step_entry (h : d.isFolder folder = true) (hname : isName name = true) :
    d.step folder name =
      if (d.get? (folder ++ [name])).isSome then some (folder ++ [name]) else none := by
  obtain ⟨hempty, hpoint, hpoints⟩ := ne_of_isName hname
  rw [step, if_pos h] <;> assumption

/-- The names in front of an entry lead to the folder that its path leads to. -/
theorem exists_names (h : IsEntryPath path name) :
    ∃ front, ofText? (joinText path name) = some (front ++ [name]) ∧
      ∀ (d : Disk) (folder : DiskPath), d.LeadsTo path folder ↔
        front.foldlM d.step [] = some folder ∧ d.isFolder folder = true := by
  obtain ⟨front, hjoined, hfront⟩ := h.names
  refine ⟨front, hjoined, fun d folder => and_congr_left fun hfolder => ?_⟩
  rw [locate]
  rcases hfront with hfront | hfront
  · rw [hfront]
    rfl
  · rw [hfront]
    change (front ++ [""]).foldlM d.step [] = some folder ↔ _
    simp only [List.foldlM_append, List.foldlM_cons, List.foldlM_nil, Option.bind_eq_bind,
      Option.pure_def, Option.bind_eq_some_iff, step_empty_eq_some_iff]
    constructor
    · rintro ⟨start, hstart, _, ⟨-, rfl⟩, hnext⟩
      rw [hstart, hnext]
    · intro hstart
      exact ⟨folder, hstart, folder, ⟨hfolder, rfl⟩, rfl⟩

/-- Folders are made along names that lead somewhere from there on. -/
theorem makeFoldersFrom_append {start : DiskPath} {front : List String} (rest : List String)
    (h : front.foldlM d.step start = some folder) :
    d.makeFoldersFrom start (front ++ rest) = d.makeFoldersFrom folder rest := by
  induction front generalizing start with
  | nil =>
    cases h
    rfl
  | cons name front ih =>
    rw [List.foldlM_cons, Option.bind_eq_bind, Option.bind_eq_some_iff] at h
    obtain ⟨next, hstep, hfront⟩ := h
    rw [List.cons_append, makeFoldersFrom, hstep]
    exact ih hfront

/-- A file is placed along names that lead somewhere from there on. -/
theorem filePlace_append {start : DiskPath} {front : List String}
    (h : front.foldlM d.step start = some folder) :
    d.filePlace start (front ++ [name]) = d.filePlace folder [name] := by
  induction front generalizing start with
  | nil =>
    cases h
    rfl
  | cons first front ih =>
    rw [List.foldlM_cons, Option.bind_eq_bind, Option.bind_eq_some_iff] at h
    obtain ⟨next, hstep, hfront⟩ := h
    rw [List.cons_append, ← ih hfront, filePlace.eq_3 d start first (front ++ [name]) (by simp),
      hstep]

/-- The path of a folder that exists makes nothing. -/
theorem LeadsTo.makeFolders (h : d.LeadsTo path folder) : d.makeFolders path = (d, true) := by
  obtain ⟨hleads, hfolder⟩ := h
  rw [locate, Option.bind_eq_bind, Option.bind_eq_some_iff] at hleads
  obtain ⟨names, hnames, hfront⟩ := hleads
  rw [Disk.makeFolders, hnames]
  have hmade := makeFoldersFrom_append [] hfront
  rw [List.append_nil] at hmade
  simp only [hmade, makeFoldersFrom, hfolder]

/-! ## Entries of folders -/

section Entries

variable (h : IsEntryPath path name) (hpath : d.LeadsTo path folder)
include h hpath

/-- The path of an entry leads to the place below its folder, if there is something. -/
theorem locate_joinText :
    d.locate (joinText path name) =
      if (d.get? (folder ++ [name])).isSome then some (folder ++ [name]) else none := by
  obtain ⟨front, hnames, hfront⟩ := exists_names h
  obtain ⟨hleads, hfolder⟩ := (hfront d folder).mp hpath
  rw [locate, hnames, Option.bind_eq_bind, Option.bind_some, List.foldlM_append, hleads,
    ← step_entry hfolder h.entry.borne]
  simp

/-- A file is read where it lies below the folder. -/
theorem read_joinText {text : String} :
    d.read (joinText path name) = some text ↔ d.get? (folder ++ [name]) = some (.file text) := by
  rw [read, locate_joinText h hpath]
  cases hnode : d.get? (folder ++ [name]) with
  | none => simp
  | some node => cases node <;> simp [hnode]

/-- The path of an entry leads to it where it is a folder. -/
theorem leadsTo_joinText :
    d.LeadsTo (joinText path name) (folder ++ [name]) ↔
      d.get? (folder ++ [name]) = some .folder := by
  rw [LeadsTo, locate_joinText h hpath, isFolder, beq_iff_eq]
  constructor
  · exact And.right
  · intro hnode
    exact ⟨by simp [hnode], hnode⟩

/-- An entry is made as a folder where there is nothing. -/
theorem makeFolders_joinText_of_vacant (hvacant : d.get? (folder ++ [name]) = none) :
    d.makeFolders (joinText path name) = (d.put (folder ++ [name]) .folder, true) := by
  obtain ⟨front, hnames, hfront⟩ := exists_names h
  obtain ⟨hleads, hfolder⟩ := (hfront d folder).mp hpath
  have hstep := step_entry hfolder h.entry.borne
  rw [hvacant] at hstep
  have hmade : (d.put (folder ++ [name]) .folder).isFolder (folder ++ [name]) = true := by
    rw [isFolder, get?_put d (by simp), beq_iff_eq]
  rw [makeFolders, hnames]
  simp only [makeFoldersFrom_append [name] hleads, makeFoldersFrom, hstep, hfolder,
    h.entry.borne, Bool.and_self, if_true, hmade]
  simp

/-- A file is written below the folder where that is no folder itself. -/
theorem write_joinText (text : String) (hfree : d.isFolder (folder ++ [name]) = false) :
    d.write (joinText path name) text = some (d.put (folder ++ [name]) (.file text)) := by
  obtain ⟨front, hnames, hfront⟩ := exists_names h
  obtain ⟨hleads, hfolder⟩ := (hfront d folder).mp hpath
  rw [write, hnames, Option.bind_eq_bind, Option.bind_some, filePlace_append hleads, filePlace,
    hfolder, h.entry.borne, hfree]
  rfl

end Entries

/-- The path of something that exists is the path of an entry of a folder that its front leads to. -/
theorem exists_leadsTo_of_locate (h : IsEntryPath path name)
    (hplace : d.locate (joinText path name) = some place) :
    ∃ folder, d.LeadsTo path folder ∧ place = folder ++ [name] := by
  obtain ⟨front, hnames, hfront⟩ := exists_names h
  rw [locate, hnames, Option.bind_eq_bind, Option.bind_some, List.foldlM_append,
    Option.bind_eq_bind, Option.bind_eq_some_iff] at hplace
  obtain ⟨folder, hleads, hlast⟩ := hplace
  have hstep : d.step folder name = some place := by simpa using hlast
  obtain ⟨hfolder, -⟩ := step_eq_some_iff.mp hstep
  have hthere := step_entry hfolder h.entry.borne
  rw [hstep] at hthere
  refine ⟨folder, (hfront d folder).mpr ⟨hleads, hfolder⟩, ?_⟩
  split at hthere
  · exact Option.some.inj hthere
  · cases hthere

/-! ## Insides of folders -/

/-- Places inside a folder. -/
def Inside (folder place : DiskPath) : Prop := ∃ name, folder ++ [name] <+: place

/-- A place inside a folder is inside from the place on that it is reached through. -/
theorem Inside.of_prefix {other : DiskPath} (h : Inside folder place) (hunder : place <+: other) :
    Inside folder other := by
  obtain ⟨name, hname⟩ := h
  exact ⟨name, hname.trans hunder⟩

/-- The top is inside no folder. -/
theorem not_inside_nil : ¬ Inside folder [] := by
  rintro ⟨name, hname⟩
  simp at hname

/-- A folder is not inside itself. -/
theorem not_inside_self : ¬ Inside folder folder := by
  rintro ⟨name, hname⟩
  have hlength := hname.length_le
  rw [List.length_append, List.length_singleton] at hlength
  omega

/-- There is nothing inside a folder. -/
def IsVacant (d : Disk) (folder : DiskPath) : Prop :=
  ∀ place, Inside folder place → d.get? place = none

/-- A path leads to a folder with nothing inside. -/
def IsEmptyFolder (d : Disk) (path : String) : Prop :=
  ∃ folder, d.LeadsTo path folder ∧ d.IsVacant folder

/-- A disk differs from another inside a folder only. -/
def SameOutside (d other : Disk) (folder : DiskPath) : Prop :=
  ∀ place, ¬ Inside folder place → other.get? place = d.get? place

/-- A disk differs from another at a place and below it only. -/
def SameApartFrom (d other : Disk) (place : DiskPath) : Prop :=
  ∀ q, ¬ place <+: q → other.get? q = d.get? q

variable {other : Disk}

/-- A disk does not differ from itself. -/
theorem sameOutside_refl (d : Disk) (folder : DiskPath) : d.SameOutside d folder := fun _ _ => rfl

/-- Differences inside a folder add up to differences inside it. -/
theorem SameOutside.trans {last : Disk} (h : d.SameOutside other folder)
    (hlast : other.SameOutside last folder) : d.SameOutside last folder :=
  fun q hq => (hlast q hq).trans (h q hq)

/-- A difference at a place in a folder is one inside the folder. -/
theorem SameApartFrom.sameOutside (h : d.SameApartFrom other (folder ++ [name])) :
    d.SameOutside other folder :=
  fun q hq => h q fun hunder => hq ⟨name, hunder⟩

/-- Where nothing is inside a folder, one name of a way that does not start there does not lead
there, and it leads to the same place on a disk that differs only there. -/
theorem step_of_sameOutside {start next : DiskPath} (hvacant : d.IsVacant folder)
    (hsame : d.SameOutside other folder) (hstart : ¬ Inside folder start)
    (h : d.step start name = some next) :
    ¬ Inside folder next ∧ other.step start name = some next := by
  rw [step_eq_some_iff] at h ⊢
  obtain ⟨hfolder, hleads⟩ := h
  have hother : other.isFolder start = true := by rwa [isFolder, hsame start hstart]
  rcases hleads with ⟨hname, rfl⟩ | ⟨hname, rfl⟩ | ⟨hname, hthere, rfl⟩
  · exact ⟨hstart, hother, .inl ⟨hname, rfl⟩⟩
  · exact ⟨fun h => hstart (h.of_prefix (List.dropLast_prefix start)), hother,
      .inr (.inl ⟨hname, rfl⟩)⟩
  · have hnext : ¬ Inside folder (start ++ [name]) := by
      intro hinside
      rw [hvacant _ hinside] at hthere
      cases hthere
    exact ⟨hnext, hother, .inr (.inr ⟨hname, by rwa [hsame _ hnext], rfl⟩)⟩

/-- The way to a folder with nothing inside is the same on a disk that differs only there. -/
theorem LeadsTo.of_sameOutside (h : d.LeadsTo path folder) (hvacant : d.IsVacant folder)
    (hsame : d.SameOutside other folder) : other.LeadsTo path folder := by
  obtain ⟨hleads, hfolder⟩ := h
  have hwalk : ∀ (names : List String) (start : DiskPath), ¬ Inside folder start →
      names.foldlM d.step start = some folder → names.foldlM other.step start = some folder := by
    intro names
    induction names with
    | nil => exact fun _ _ hnames => hnames
    | cons name rest ih =>
      intro start hstart hnames
      rw [List.foldlM_cons, Option.bind_eq_bind, Option.bind_eq_some_iff] at hnames ⊢
      obtain ⟨next, hstep, hrest⟩ := hnames
      obtain ⟨hnext, hother⟩ := step_of_sameOutside hvacant hsame hstart hstep
      exact ⟨next, hother, ih next hnext hrest⟩
  refine ⟨?_, by rwa [isFolder, hsame folder not_inside_self]⟩
  rw [locate, Option.bind_eq_bind, Option.bind_eq_some_iff] at hleads ⊢
  obtain ⟨names, hnames, hfront⟩ := hleads
  exact ⟨names, hnames, hwalk names [] not_inside_nil hfront⟩

/-! ## Names in folders -/

/-- Names of what lies directly in a folder, by its place. -/
def children (d : Disk) (folder : DiskPath) : List String :=
  d.nodes.filterMap fun n => childName? folder n.1

/-- A place has a name in a folder where it is the place below it. -/
theorem childName?_eq_some_iff : childName? folder place = some name ↔ place = folder ++ [name] := by
  rw [childName?]
  constructor
  · intro h
    split at h
    case isTrue hdrop =>
      obtain ⟨front, rfl⟩ := List.getLast?_eq_some_iff.mp h
      rw [List.dropLast_concat] at hdrop
      rw [hdrop]
    case isFalse => cases h
  · rintro rfl
    rw [if_pos List.dropLast_concat, List.getLast?_concat]

/-- The names in a folder are those of the places below it where there is something. -/
theorem mem_children_iff : name ∈ d.children folder ↔ (d.get? (folder ++ [name])).isSome = true := by
  rw [get?, if_neg (by simp), List.lookup_isSome_iff]
  simp only [children, List.mem_filterMap, childName?_eq_some_iff, beq_iff_eq, @eq_comm _ _ (folder ++ [name])]

/-- A path that leads to a folder gives the names in it. -/
theorem LeadsTo.names (h : d.LeadsTo path folder) : d.names path = some (d.children folder) := by
  obtain ⟨hleads, hfolder⟩ := h
  rw [Disk.names, hleads]
  exact if_pos hfolder

/-- What is put on a disk keeps names in a folder apart. -/
theorem nodup_children_put (h : (d.children folder).Nodup) (node : DiskNode) :
    ((d.put place node).children folder).Nodup := by
  have hrest : ((d.nodes.filter fun n => n.1 != place).filterMap
      fun n => childName? folder n.1).Nodup := (List.filter_sublist.filterMap _).nodup h
  rw [children, put, List.filterMap_cons]
  split
  case h_1 => exact hrest
  case h_2 name hname =>
    refine List.nodup_cons.mpr ⟨fun hmem => ?_, hrest⟩
    obtain ⟨n, hn, hchild⟩ := List.mem_filterMap.mp hmem
    have hplace : n.1 = place :=
      (childName?_eq_some_iff.mp hchild).trans (childName?_eq_some_iff.mp hname).symm
    simp [hplace] at hn

/-! ## Places that are cleared -/

/-- The disk without what lies at a place and below it. -/
def clear (d : Disk) (place : DiskPath) : Disk := ⟨d.nodes.filter fun n => !place.isPrefixOf n.1⟩

/-- Removing what a path leads to clears its place. -/
theorem remove_of_locate (h : d.locate path = some place) : d.remove path = some (d.clear place) := by
  rw [remove, h]
  rfl

/-- What lies at a cleared place and below it is gone, and the rest stays. -/
theorem get?_clear (d : Disk) (hplace : place ≠ []) (q : DiskPath) :
    (d.clear place).get? q = if place.isPrefixOf q then none else d.get? q := by
  rw [get?, clear, Sequence.lookup_filter fun q => !place.isPrefixOf q, get?]
  by_cases hroot : q = []
  · subst hroot
    cases place with
    | nil => exact absurd rfl hplace
    | cons name rest => simp
  · cases place.isPrefixOf q <;> simp [hroot]

/-- Clearing a place keeps names in a folder apart. -/
theorem nodup_children_clear (h : (d.children folder).Nodup) :
    ((d.clear place).children folder).Nodup :=
  (List.filter_sublist.filterMap _).nodup h

end Disk

end TypedModel
