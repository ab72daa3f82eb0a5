import TypedModel.Proofs.Store.Paths
import TypedModel.Proofs.Store.RoundTrip

/-!
# The folder of models

A folder of models holds one folder for each live model, with a manifest file, and nothing else. This
is so for an empty folder and after every save and delete, and with it a store answers by what is
live alone: which addresses it refuses, and what it lists.
-/

namespace TypedModel

open Sequence DiskPath

/-! ## Paths of models -/

/-- A text has at most four bytes for each character. -/
theorem Text.utf8ByteSize_ofList_le (cs : List Char) :
    (String.ofList cs).utf8ByteSize ≤ 4 * cs.length := by
  induction cs with
  | nil => simp
  | cons c rest ih =>
    have hsplit : String.ofList (c :: rest) = String.singleton c ++ String.ofList rest := by
      rw [String.singleton_eq_ofList, ← String.ofList_append, List.singleton_append]
    have hc := c.utf8Size_le_four
    rw [hsplit, String.utf8ByteSize_append, String.utf8ByteSize_singleton, List.length_cons]
    omega

/-- The written form of an identifier has at most four bytes for each of its characters. -/
theorem ModelId.utf8ByteSize_render_le (id : ModelId) : id.render.utf8ByteSize ≤ 144 := by
  have h := Text.utf8ByteSize_ofList_le (group groups id.digits)
  rwa [length_group_digits] at h

/-- The written form of an identifier can be the name of a folder. -/
theorem ModelId.isEntry_render (id : ModelId) : IsEntry id.render := by
  have hchars : id.render.toList = group groups id.digits := String.toList_ofList
  have hne : ∀ text : String, text.toList.length ≠ 36 → id.render ≠ text := by
    rintro text htext rfl
    exact htext (by rw [hchars, length_group_digits])
  constructor
  · have hbytes : id.render.utf8ByteSize ≤ 255 := id.utf8ByteSize_render_le.trans (by decide)
    simp only [isName, Bool.and_eq_true, bne_iff_ne, decide_eq_true_eq]
    exact ⟨⟨⟨hne "" (by decide), hne "." (by decide)⟩, hne ".." (by decide)⟩, hbytes⟩
  · rw [hchars]
    exact id.notMem_render (by decide) (by decide)

/-- The file system takes the paths of all manifests below a root. -/
def StoreConfig.HasRoom (c : StoreConfig) : Prop :=
  ∀ id, (ofText? (Store.manifestPath ⟨c, []⟩ id)).isSome = true

/-- The folder of models has a name. -/
theorem StoreConfig.modelsDir_ne (c : StoreConfig) : c.modelsDir ≠ "" := by
  by_cases hroot : c.rootDir = ""
  · rw [modelsDir, hroot]
    decide
  · exact joinText_ne hroot ⟨by decide, by decide⟩

namespace Store

variable {s : Store} {id : ModelId}

/-- The path of a manifest is that of a file in the folder of its model. -/
theorem isEntryPath_manifestPath (h : s.config.HasRoom) (id : ModelId) :
    IsEntryPath (s.modelDir id) Manifest.fileName where
  named := joinText_ne s.config.modelsDir_ne id.isEntry_render
  entry := ⟨by decide, by decide⟩
  taken := h id

/-- The path of a model's folder is that of an entry of the folder of models. -/
theorem isEntryPath_modelDir (h : s.config.HasRoom) (id : ModelId) :
    IsEntryPath s.config.modelsDir id.render where
  named := s.config.modelsDir_ne
  entry := id.isEntry_render
  taken := (isEntryPath_manifestPath h id).taken_folder

end Store

namespace StoreConfig

variable {c other : StoreConfig} {d : Disk} {folder : DiskPath}

/-- Below a root whose path is not too long all manifests have paths. -/
theorem hasRoom_of_short (hshort : c.modelsDir.utf8ByteSize < 3900)
    (hclean : '\x00' ∉ c.modelsDir.toList) : c.HasRoom := by
  intro id
  have hid := id.utf8ByteSize_render_le
  have hfile : Manifest.fileName.utf8ByteSize = 12 ∧ '\x00' ∉ Manifest.fileName.toList := by decide
  have hdir := joinText_bounds c.modelsDir_ne id.isEntry_render
  have hpath := joinText_bounds (joinText_ne c.modelsDir_ne id.isEntry_render)
    (⟨by decide, by decide⟩ : IsEntry Manifest.fileName)
  change (ofText? (joinText (joinText c.modelsDir id.render) Manifest.fileName)).isSome = true
  rw [isSome_ofText?_iff]
  refine ⟨by omega, fun hnull => ?_⟩
  rcases hpath.2 _ hnull with hnull | hnull | hnull
  · rcases hdir.2 _ hnull with hnull | hnull | hnull
    · exact hclean hnull
    · cases hnull
    · rw [ModelId.render, String.toList_ofList] at hnull
      exact id.notMem_render (by decide) (by decide) hnull
  · cases hnull
  · exact hfile.2 hnull

/-- The path of the folder of models is that of an entry of the root. -/
theorem isEntryPath_modelsDir (hvalid : c.validate = .ok ()) (hroom : c.HasRoom) :
    IsEntryPath c.rootDir "models" where
  named := by
    intro hroot
    rw [validate, hroot, if_pos (by decide)] at hvalid
    cases hvalid
  entry := ⟨by decide, by decide⟩
  taken := (Store.isEntryPath_modelDir (s := ⟨c, []⟩) hroom Store.nilId).taken_folder

/-- Two roots that are one place have one folder of models. -/
theorem leadsTo_modelsDir (hvalid : c.validate = .ok ()) (hroom : c.HasRoom)
    (hother : other.validate = .ok ()) (hotherRoom : other.HasRoom)
    (hroots : d.locate other.rootDir = d.locate c.rootDir) (h : d.LeadsTo c.modelsDir folder) :
    d.LeadsTo other.modelsDir folder := by
  obtain ⟨root, ⟨hroot, hfolder⟩, rfl⟩ :=
    Disk.exists_leadsTo_of_locate (isEntryPath_modelsDir hvalid hroom) h.1
  have hleads : d.LeadsTo other.rootDir root := ⟨hroots.trans hroot, hfolder⟩
  refine (Disk.leadsTo_joinText (isEntryPath_modelsDir hother hotherRoom) hleads).mpr ?_
  exact beq_iff_eq.mp h.2

end StoreConfig

/-! ## What a folder of models holds -/

/-- Place of a model's folder in a folder of models. -/
def ModelId.place (folder : DiskPath) (id : ModelId) : DiskPath := folder ++ [id.render]

/-- Place of a model's manifest in a folder of models. -/
def ModelId.manifestPlace (folder : DiskPath) (id : ModelId) : DiskPath :=
  id.place folder ++ [Manifest.fileName]

/-- Two models have one folder above a place only if they are one. -/
theorem ModelId.eq_of_under_places {folder place : DiskPath} {a b : ModelId}
    (ha : a.place folder <+: place) (hb : b.place folder <+: place) : a = b := by
  have hlength : (a.place folder).length = (b.place folder).length := by simp [ModelId.place]
  have hplace : a.place folder = b.place folder :=
    (List.prefix_of_prefix_length_le ha hb hlength.le).eq_of_length hlength
  simpa [ModelId.place, render_inj] using hplace

/-- Nothing of another model is at the folder of a model or below it. -/
theorem ModelId.not_under_place (folder : DiskPath) {id other : ModelId} (h : other ≠ id) :
    ¬ id.place folder <+: other.place folder ∧ ¬ id.place folder <+: other.manifestPlace folder :=
  ⟨fun hunder => h (eq_of_under_places List.prefix_rfl hunder),
    fun hunder => h (eq_of_under_places (List.prefix_append _ _) hunder)⟩

/-- The manifest of a model is not at the place of its folder. -/
theorem ModelId.manifestPlace_ne_place {folder : DiskPath} (id : ModelId) :
    id.manifestPlace folder ≠ id.place folder := by
  intro h
  simpa [manifestPlace] using congrArg List.length h

/-- A folder holds a folder for each live model, with a manifest file in it, and nothing else, and
its names are told apart. -/
structure Disk.HoldsModels (d : Disk) (folder : DiskPath) (live : ModelId → Prop) : Prop where
  /-- What is inside belongs to a live model. -/
  inside : ∀ place, Inside folder place → (d.get? place).isSome = true →
    ∃ id, live id ∧ id.place folder <+: place
  /-- Live models have folders. -/
  models : ∀ id, live id → d.get? (id.place folder) = some .folder
  /-- Live models have manifests. -/
  manifests : ∀ id, live id → ∃ text, d.get? (id.manifestPlace folder) = some (.file text)
  /-- No name is there twice. -/
  apart : (d.children folder).Nodup

namespace Disk

variable {d : Disk} {folder : DiskPath} {live : ModelId → Prop} {id : ModelId}

/-- A folder with nothing inside holds no model. -/
theorem IsVacant.holdsModels (h : d.IsVacant folder) : d.HoldsModels folder fun _ => False where
  inside := by
    intro place hinside hthere
    rw [h place hinside] at hthere
    cases hthere
  models := fun _ hlive => hlive.elim
  manifests := fun _ hlive => hlive.elim
  apart := by
    have hempty : d.children folder = [] := by
      refine List.eq_nil_iff_forall_not_mem.mpr fun name hname => ?_
      rw [mem_children_iff, h _ ⟨name, List.prefix_rfl⟩] at hname
      cases hname
    rw [hempty]
    exact List.nodup_nil

/-- A folder holds what is live by any description of it. -/
theorem HoldsModels.congr {other : ModelId → Prop} (h : d.HoldsModels folder live)
    (hiff : ∀ id, other id ↔ live id) : d.HoldsModels folder other := by
  rwa [funext fun id => propext (hiff id)]

/-- What is at or below the folder of a model is there for a live model only. -/
theorem HoldsModels.get?_eq_none (h : d.HoldsModels folder live) (hlive : ¬ live id)
    {place : DiskPath} (hplace : id.place folder <+: place) : d.get? place = none := by
  by_contra hthere
  obtain ⟨other, hother, hunder⟩ :=
    h.inside place ⟨id.render, hplace⟩ (Option.isSome_iff_ne_none.mpr hthere)
  rw [ModelId.eq_of_under_places hplace hunder] at hlive
  exact hlive hother

/-- A folder of models in which one model alone has changed holds the other live models as before,
and the one where it is live now. -/
theorem HoldsModels.of_sameApartFrom {after : Disk} {now : ModelId → Prop}
    (h : d.HoldsModels folder live) (hsame : d.SameApartFrom after (id.place folder))
    (hnow : ∀ other, other ≠ id → (now other ↔ live other))
    (hthere : now id → after.get? (id.place folder) = some .folder ∧
      ∃ text, after.get? (id.manifestPlace folder) = some (.file text))
    (hgone : ¬ now id → ∀ q, id.place folder <+: q → after.get? q = none)
    (hapart : (after.children folder).Nodup) : after.HoldsModels folder now where
  apart := hapart
  inside := by
    intro q hinside hq
    by_cases hunder : id.place folder <+: q
    · refine ⟨id, ?_, hunder⟩
      by_contra hdead
      rw [hgone hdead q hunder] at hq
      cases hq
    · rw [hsame q hunder] at hq
      obtain ⟨other, hlive, hother⟩ := h.inside q hinside hq
      refine ⟨other, (hnow other ?_).mpr hlive, hother⟩
      rintro rfl
      exact hunder hother
  models := by
    intro other hlive
    by_cases heq : other = id
    · subst heq
      exact (hthere hlive).1
    · rw [hsame _ (ModelId.not_under_place _ heq).1]
      exact h.models other ((hnow other heq).mp hlive)
  manifests := by
    intro other hlive
    by_cases heq : other = id
    · subst heq
      exact (hthere hlive).2
    · rw [hsame _ (ModelId.not_under_place _ heq).2]
      exact h.manifests other ((hnow other heq).mp hlive)

/-- A folder of models with one more manifest, in a folder of its own, holds one more model. -/
theorem HoldsModels.put_manifest {made : Disk} (h : d.HoldsModels folder live)
    (hmade : made.get? (id.place folder) = some .folder)
    (hsame : ∀ q, q ≠ id.place folder → made.get? q = d.get? q)
    (hapart : (made.children folder).Nodup) (text : String) :
    (made.put (id.manifestPlace folder) (.file text)).HoldsModels folder
        (fun other => other = id ∨ live other) ∧
      d.SameApartFrom (made.put (id.manifestPlace folder) (.file text)) (id.place folder) := by
  have hsameAfter : d.SameApartFrom (made.put (id.manifestPlace folder) (.file text))
      (id.place folder) := by
    intro q hq
    have hplace : q ≠ id.place folder := fun h => hq (h ▸ List.prefix_rfl)
    have hmanifest : q ≠ id.manifestPlace folder := fun h => hq (h ▸ List.prefix_append _ _)
    rw [get?_put_of_ne made hmanifest, hsame q hplace]
  refine ⟨h.of_sameApartFrom hsameAfter (fun other heq => or_iff_right heq) (fun _ => ⟨?_, text, ?_⟩)
    (fun hdead => absurd (.inl rfl) hdead) (nodup_children_put hapart _), hsameAfter⟩
  · rw [get?_put_of_ne made id.manifestPlace_ne_place.symm, hmade]
  · exact get?_put made (by simp [ModelId.manifestPlace]) _

/-- A folder of models without the folder of a model holds one model less. -/
theorem HoldsModels.clear (h : d.HoldsModels folder live) (id : ModelId) :
    (d.clear (id.place folder)).HoldsModels folder (fun other => live other ∧ other ≠ id) ∧
      d.SameApartFrom (d.clear (id.place folder)) (id.place folder) := by
  have hget (q : DiskPath) := d.get?_clear (by simp [ModelId.place] : id.place folder ≠ []) q
  have hsame : d.SameApartFrom (d.clear (id.place folder)) (id.place folder) := by
    intro q hq
    rw [hget, if_neg (by rwa [List.isPrefixOf_iff_prefix])]
  refine ⟨h.of_sameApartFrom hsame (fun other heq => and_iff_left heq)
    (fun hlive => absurd rfl hlive.2) (fun _ q hq => ?_) (nodup_children_clear h.apart), hsame⟩
  rw [hget, if_pos (List.isPrefixOf_iff_prefix.mpr hq)]

end Disk

/-! ## What a store does with it -/

/-- Identifiers that are told apart are in strictly ascending order once they are sorted. -/
theorem ModelId.ascending_mergeSort {ids : List ModelId} (h : ids.Nodup) :
    (ids.mergeSort fun a b => a.code.val ≤ b.code.val).Pairwise fun a b => a.code < b.code := by
  have htrans (a b c : ModelId) (hab : decide (a.code.val ≤ b.code.val) = true)
      (hbc : decide (b.code.val ≤ c.code.val) = true) : decide (a.code.val ≤ c.code.val) = true :=
    decide_eq_true (Nat.le_trans (of_decide_eq_true hab) (of_decide_eq_true hbc))
  have htotal (a b : ModelId) :
      (decide (a.code.val ≤ b.code.val) || decide (b.code.val ≤ a.code.val)) = true := by
    rw [Bool.or_eq_true, decide_eq_true_iff, decide_eq_true_iff]
    exact Nat.le_total _ _
  have hsorted := List.pairwise_mergeSort htrans htotal ids
  have hapart : (ids.mergeSort fun a b => a.code.val ≤ b.code.val).Nodup :=
    (List.mergeSort_perm ids _).nodup_iff.mpr h
  refine (hsorted.and hapart).imp fun {a b} ⟨hle, hne⟩ => ?_
  have hcode : a.code.val ≠ b.code.val := fun hcode => hne (congrArg ModelId.mk (Fin.ext hcode))
  exact Fin.lt_def.mpr (Nat.lt_of_le_of_ne (of_decide_eq_true hle) hcode)

/-- Errors that refuse an address. -/
def StoreError.IsRefusal : StoreError → Prop
  | .notFound _ | .invalidUri _ => True
  | _ => False

/-- Errors of a manifest that is there and cannot be used. -/
def StoreError.IsDefect : StoreError → Prop
  | .io _ | .manifest _ | .checksumMismatch _ _ _ => True
  | _ => False

/-- A manifest that cannot be read is a defect. -/
theorem Manifest.isDefect_of_read {disk : Disk} {path : String} {e : StoreError}
    (h : Manifest.read disk path = .error e) : e.IsDefect := by
  rw [Manifest.read] at h
  split at h
  case h_1 =>
    cases h
    trivial
  case h_2 =>
    split at h
    case h_1 => cases h
    case h_2 =>
      cases h
      trivial

/-- A checksum that is wrong is a defect. -/
theorem Manifest.isDefect_of_verify {m : Manifest} {e : StoreError} (h : m.verify = .error e) :
    e.IsDefect := by
  rw [Manifest.verify] at h
  split at h
  · cases h
  · cases h
    trivial

/-- A defect is no refusal. -/
theorem StoreError.IsDefect.not_isRefusal {e : StoreError} (h : e.IsDefect) : ¬ e.IsRefusal := by
  cases e <;> first | exact h.elim | exact fun hrefusal => hrefusal

/-- The outcome of an operation refuses an address where there is no live model, and as no address
where it is none. -/
structure Refuses {α : Type} (live : ModelId → Prop) (uri : String) (outcome : Except StoreError α) :
    Prop where
  /-- Addresses of models that are not live are refused, and no others of models. -/
  notFound : ∀ refused, outcome = .error (.notFound refused) ↔
    refused = uri ∧ ∃ id, ModelId.ofUri? uri = some id ∧ ¬ live id
  /-- Texts that are no addresses are refused as such, and no others. -/
  invalidUri : ∀ refused, outcome = .error (.invalidUri refused) ↔
    refused = uri ∧ ModelId.ofUri? uri = none

namespace Store

/-- A store whose folder of models is at a place of a disk. -/
structure Serves (s : Store) (d : Disk) (folder : DiskPath) : Prop where
  /-- The path of the folder leads there, whatever is inside. -/
  stable : ∀ other, d.SameOutside other folder → other.LeadsTo s.config.modelsDir folder
  /-- Manifests have paths. -/
  room : s.config.HasRoom

variable {s : Store} {d other : Disk} {folder : DiskPath} {live : ModelId → Prop} {id : ModelId}
  {uri : String}

/-- The path of the folder of models leads there. -/
theorem Serves.leads (h : s.Serves d folder) : d.LeadsTo s.config.modelsDir folder :=
  h.stable d (d.sameOutside_refl folder)

/-- A store keeps its folder of models on a disk that differs inside the folder only. -/
theorem Serves.of_sameOutside (h : s.Serves d folder) (hsame : d.SameOutside other folder) :
    s.Serves other folder where
  stable := fun last hlast => h.stable last (hsame.trans hlast)
  room := h.room

/-- A store with the configuration of another has the same folder of models. -/
theorem Serves.of_config {t : Store} (h : s.Serves d folder) (hconfig : t.config = s.config) :
    t.Serves d folder where
  stable := by
    rw [hconfig]
    exact h.stable
  room := by
    rw [hconfig]
    exact h.room

/-- A store has its folder of models where the path leads to a folder with nothing inside. -/
theorem serves_of_isVacant (hleads : d.LeadsTo s.config.modelsDir folder)
    (hvacant : d.IsVacant folder) (hroom : s.config.HasRoom) : s.Serves d folder where
  stable := fun _ hsame => hleads.of_sameOutside hvacant hsame
  room := hroom

/-- The path of a model's folder leads to it where it is there. -/
theorem leadsTo_modelDir (hserves : s.Serves d folder)
    (hfolder : d.get? (id.place folder) = some .folder) :
    d.LeadsTo (s.modelDir id) (id.place folder) :=
  (Disk.leadsTo_joinText (isEntryPath_modelDir hserves.room id) hserves.leads).mpr hfolder

/-- A manifest is read at its place in the folder of its model. -/
theorem read_manifestPath_iff (hserves : s.Serves d folder)
    (hfolder : d.get? (id.place folder) = some .folder) {text : String} :
    d.read (s.manifestPath id) = some text ↔
      d.get? (id.manifestPlace folder) = some (.file text) :=
  Disk.read_joinText (isEntryPath_manifestPath hserves.room id) (leadsTo_modelDir hserves hfolder)

variable (hserves : s.Serves d folder) (hholds : d.HoldsModels folder live)

include hserves hholds

/-- There is a manifest exactly for a live model. -/
theorem hasManifest_iff : s.hasManifest d id = true ↔ live id := by
  constructor
  · intro hthere
    by_contra hlive
    obtain ⟨place, hplace⟩ := Option.isSome_iff_exists.mp hthere
    obtain ⟨start, ⟨hstart, -⟩, -⟩ :=
      Disk.exists_leadsTo_of_locate (isEntryPath_manifestPath hserves.room id) hplace
    have hvacant : d.get? (folder ++ [id.render]) = none :=
      hholds.get?_eq_none hlive List.prefix_rfl
    rw [modelDir, Disk.locate_joinText (isEntryPath_modelDir hserves.room id) hserves.leads,
      hvacant] at hstart
    cases hstart
  · intro hlive
    obtain ⟨text, htext⟩ := hholds.manifests id hlive
    exact Disk.contains_of_read
      ((read_manifestPath_iff hserves (hholds.models id hlive)).mpr htext)

omit hserves hholds in
/-- Texts that are no addresses are invalid. -/
theorem idOfModel_of_invalid (huri : ModelId.ofUri? uri = none) :
    s.idOfModel d uri = .error (.invalidUri uri) := by
  rw [idOfModel, idOfUri, huri]
  rfl

omit hserves hholds in
/-- Under an address the identifier is found where its folder has a manifest. -/
theorem idOfModel_of_address (huri : ModelId.ofUri? uri = some id) :
    s.idOfModel d uri = if s.hasManifest d id = true then .ok id else .error (.notFound uri) := by
  rw [idOfModel, idOfUri, huri, ok_bind]

omit hserves hholds in
/-- An address that leads to no identifier is refused. -/
theorem isRefusal_of_idOfModel {e : StoreError} (h : s.idOfModel d uri = .error e) :
    e.IsRefusal := by
  cases huri : ModelId.ofUri? uri with
  | none =>
    rw [idOfModel_of_invalid huri] at h
    cases h
    trivial
  | some id =>
    rw [idOfModel_of_address huri] at h
    split at h
    · cases h
    · cases h
      trivial

/-- Addresses of models that are not live are not found. -/
theorem idOfModel_of_not_live (huri : ModelId.ofUri? uri = some id) (hlive : ¬ live id) :
    s.idOfModel d uri = .error (.notFound uri) := by
  rw [idOfModel_of_address huri]
  exact if_neg fun hthere => hlive ((hasManifest_iff hserves hholds).mp hthere)

/-- Addresses of live models lead to their identifiers, and no others lead anywhere. -/
theorem idOfModel_eq_ok_iff :
    s.idOfModel d uri = .ok id ↔ ModelId.ofUri? uri = some id ∧ live id := by
  cases huri : ModelId.ofUri? uri with
  | none =>
    rw [idOfModel_of_invalid huri]
    exact iff_of_false nofun nofun
  | some other =>
    rw [idOfModel_of_address huri, ← hasManifest_iff hserves hholds]
    by_cases hthere : s.hasManifest d other = true
    · simp only [hthere, if_true, Except.ok.injEq, Option.some.injEq]
      constructor
      · rintro rfl
        exact ⟨rfl, hthere⟩
      · exact And.left
    · simp only [hthere, if_false, reduceCtorEq, Option.some.injEq, false_iff, not_and]
      rintro rfl
      exact hthere

/-- What is done with the identifier of an address refuses the address if it does not refuse
anything by itself. -/
theorem refuses_bind {α : Type} {f : ModelId → Except StoreError α}
    (hf : ∀ id e, s.idOfModel d uri = .ok id → f id = .error e → ¬ e.IsRefusal) :
    Refuses live uri (s.idOfModel d uri >>= f) := by
  cases huri : ModelId.ofUri? uri with
  | none =>
    rw [idOfModel_of_invalid huri]
    constructor <;> simp [bind, Except.bind, huri, eq_comm]
  | some id =>
    by_cases hlive : live id
    · have hid := (idOfModel_eq_ok_iff hserves hholds).mpr ⟨huri, hlive⟩
      rw [hid, ok_bind]
      constructor
      · intro refused
        refine iff_of_false (fun h => hf id _ hid h trivial) ?_
        rintro ⟨-, other, hother, hdead⟩
        rw [huri, Option.some.injEq] at hother
        exact hdead (hother ▸ hlive)
      · intro refused
        refine iff_of_false (fun h => hf id _ hid h trivial) ?_
        rintro ⟨-, hnone⟩
        rw [huri] at hnone
        cases hnone
    · rw [idOfModel_of_not_live hserves hholds huri hlive]
      constructor <;> simp [bind, Except.bind, huri, hlive, eq_comm]

/-- Reading a manifest refuses addresses. -/
theorem refuses_manifest (uri : String) : Refuses live uri (s.manifest d uri) :=
  refuses_bind hserves hholds fun _ _ _ h => (Manifest.isDefect_of_read h).not_isRefusal

omit hserves hholds in
/-- Past its address, a model that is not loaded has a manifest that cannot be used, or its logic is
missing. -/
theorem error_of_load {e : StoreError} (hid : s.idOfModel d uri = .ok id)
    (h : s.loadModel d uri = .error e) :
    e.IsDefect ∨ e = .logicMissing uri ∧ s.registry.lookup id = none := by
  rw [loadModel, hid, ok_bind, bind_eq_error_iff] at h
  rcases h with hread | ⟨manifest, -, h⟩
  · exact .inl (Manifest.isDefect_of_read hread)
  · obtain hlookup | ⟨logic, hlookup⟩ := Option.eq_none_or_eq_some (s.registry.lookup id)
    · simp only [hlookup] at h
      split at h
      · rcases bind_eq_error_iff.mp h with hverify | ⟨-, -, hmissing⟩
        · exact .inl (Manifest.isDefect_of_verify hverify)
        · exact .inr ⟨(Except.error.inj hmissing).symm, hlookup⟩
      · exact .inr ⟨(Except.error.inj h).symm, hlookup⟩
    · simp only [hlookup] at h
      split at h
      · exact .inl (Manifest.isDefect_of_verify (bind_ok_eq_error_iff.mp h))
      · cases h

/-- Loading refuses addresses. -/
theorem refuses_load (uri : String) : Refuses live uri (s.load d uri).value := by
  rw [value_load, loadModel]
  refine refuses_bind hserves hholds fun id e hid h => ?_
  have hload : s.loadModel d uri = .error e := by
    rw [loadModel, hid]
    exact h
  rcases error_of_load hid hload with hdefect | ⟨rfl, -⟩
  · exact hdefect.not_isRefusal
  · exact fun hrefusal => hrefusal

/-- Logic is missing only for a live model whose logic is not registered. -/
theorem logicMissing_of_load {missing : String}
    (h : (s.load d uri).value = .error (.logicMissing missing)) :
    missing = uri ∧ ∃ id, ModelId.ofUri? uri = some id ∧ live id ∧
      s.registry.lookup id = none := by
  rw [value_load] at h
  cases hid : s.idOfModel d uri with
  | ok id =>
    obtain ⟨huri, hlive⟩ := (idOfModel_eq_ok_iff hserves hholds).mp hid
    rcases error_of_load hid h with hdefect | ⟨hmissing, hlookup⟩
    · exact hdefect.elim
    · exact ⟨StoreError.logicMissing.inj hmissing, id, huri, hlive, hlookup⟩
  | error e =>
    have hrefusal := isRefusal_of_idOfModel hid
    rw [loadModel, hid] at h
    cases h
    exact hrefusal.elim

/-- Deleting a live model clears its folder and takes its logic out of the registry. -/
theorem delete_of_live (huri : ModelId.ofUri? uri = some id) (hlive : live id) :
    (s.delete d uri).value = ⟨s.unregister id, d.clear (id.place folder), .ok ()⟩ := by
  have hid := (idOfModel_eq_ok_iff hserves hholds).mpr ⟨huri, hlive⟩
  have hremove := Disk.remove_of_locate (leadsTo_modelDir hserves (hholds.models id hlive)).1
  simp only [delete, hid, hremove]
  rfl

omit hserves hholds in
/-- Deleting what an address does not lead to changes nothing. -/
theorem delete_of_error {e : StoreError} (h : s.idOfModel d uri = .error e) :
    (s.delete d uri).value = ⟨s, d, .error e⟩ := by
  simp only [delete, h]
  rfl

/-- The outcome of deleting is that of finding the identifier. -/
theorem result_delete (uri : String) :
    (s.delete d uri).value.result = s.idOfModel d uri >>= fun _ => .ok () := by
  cases hid : s.idOfModel d uri with
  | ok id =>
    obtain ⟨huri, hlive⟩ := (idOfModel_eq_ok_iff hserves hholds).mp hid
    rw [delete_of_live hserves hholds huri hlive]
    rfl
  | error e =>
    rw [delete_of_error hid]
    rfl

/-- Deleting refuses addresses. -/
theorem refuses_delete (uri : String) : Refuses live uri (s.delete d uri).value.result := by
  rw [result_delete hserves hholds uri]
  exact refuses_bind hserves hholds fun _ _ _ h => by cases h

/-- Deleting succeeds exactly for the address of a live model. -/
theorem delete_eq_ok_iff : (s.delete d uri).value.result = .ok () ↔
    ∃ id, ModelId.ofUri? uri = some id ∧ live id := by
  rw [result_delete hserves hholds, bind_eq_ok_iff]
  simp only [idOfModel_eq_ok_iff hserves hholds, and_true]

/-- A folder is there for a model, made where it was not, and nothing else changes. -/
theorem makeFolders_modelDir (id : ModelId) :
    ∃ made, d.makeFolders (s.modelDir id) = (made, true) ∧
      made.get? (id.place folder) = some .folder ∧
      made.isFolder (id.manifestPlace folder) = false ∧
      (∀ q, q ≠ id.place folder → made.get? q = d.get? q) ∧ (made.children folder).Nodup := by
  by_cases hlive : live id
  · obtain ⟨text, htext⟩ := hholds.manifests id hlive
    have hfolder := hholds.models id hlive
    refine ⟨d, (leadsTo_modelDir hserves hfolder).makeFolders, hfolder, ?_, fun _ _ => rfl,
      hholds.apart⟩
    rw [Disk.isFolder, htext]
    rfl
  · have hne : id.place folder ≠ [] := by simp [ModelId.place]
    have hmade := Disk.makeFolders_joinText_of_vacant (isEntryPath_modelDir hserves.room id)
      hserves.leads (hholds.get?_eq_none hlive List.prefix_rfl)
    refine ⟨_, hmade, d.get?_put hne _, ?_, fun q hq => d.get?_put_of_ne hq _,
      Disk.nodup_children_put hholds.apart _⟩
    have hvacant : d.get? (id.manifestPlace folder) = none :=
      hholds.get?_eq_none hlive (List.prefix_append _ _)
    rw [Disk.isFolder, ← ModelId.place, d.get?_put_of_ne id.manifestPlace_ne_place, hvacant]
    rfl

/-- Writing the manifest of a model succeeds: the model is live from then on, and nothing changes
outside its folder. -/
theorem writeModel_spec (m : Manifest) :
    ∃ after, s.writeModel d m = (after, .ok ()) ∧
      after.HoldsModels folder (fun other => other = m.modelId ∨ live other) ∧
      d.SameApartFrom after (m.modelId.place folder) := by
  obtain ⟨made, hmade, hfolder, hfree, hsame, hapart⟩ :=
    makeFolders_modelDir hserves hholds m.modelId
  have hinside : d.SameOutside made folder := by
    intro q hq
    refine hsame q ?_
    rintro rfl
    exact hq ⟨m.modelId.render, List.prefix_rfl⟩
  have hwrite := Disk.write_joinText (isEntryPath_manifestPath hserves.room m.modelId)
    (leadsTo_modelDir (hserves.of_sameOutside hinside) hfolder) m.toText hfree
  refine ⟨made.put (m.modelId.manifestPlace folder) (.file m.toText), ?_,
    hholds.put_manifest hfolder hsame hapart m.toText⟩
  simp only [writeModel, hmade, Manifest.write, manifestPath, hwrite]
  rfl

/-- Saving a model succeeds: its logic is registered, it is live from then on, and nothing changes
outside its folder. -/
theorem save_of_holdsModels (logic : ModelLogic) (given : Option Value)
    (signature : Option ModelSignature) (id : ModelId) (now : Instant) :
    ∃ after saved, (s.save d logic given signature id now).value =
        ⟨s.register id logic, after, .ok saved⟩ ∧ saved.modelId = id ∧
      after.HoldsModels folder (fun other => other = id ∨ live other) ∧
      d.SameApartFrom after (id.place folder) := by
  obtain ⟨after, hwrite, hafter, hsame⟩ := writeModel_spec hserves hholds (Manifest.ofModel id
    logic.name (logic.inferSignature given signature s.config.warnUndecorated).value given now)
  refine ⟨after, ⟨id, id.uri, (logic.inferSignature given signature s.config.warnUndecorated).value,
    s.modelDir id⟩, ?_, rfl, hafter, hsame⟩
  simp only [save, Logged.value_bind, hwrite]

omit hserves in
/-- What lies directly in the folder is named by the identifier of a live model. -/
theorem exists_of_mem_children {name : String} (h : name ∈ d.children folder) :
    ∃ id, live id ∧ name = id.render := by
  rw [Disk.mem_children_iff] at h
  obtain ⟨id, hlive, hunder⟩ := hholds.inside _ ⟨name, List.prefix_rfl⟩ h
  refine ⟨id, hlive, ?_⟩
  have hplace := hunder.eq_of_length (by simp [ModelId.place])
  simpa [ModelId.place, eq_comm] using hplace

/-- The folder of a live model is listed as that model. -/
theorem listedId?_render (hlive : live id) : s.listedId? d id.render = some id := by
  rw [listedId?, ModelId.parse?_render]
  exact if_pos ((hasManifest_iff hserves hholds).mpr hlive)

/-- The live models are listed, each once, in ascending order. -/
theorem list_spec : ∃ ids, s.list d = .ok ids ∧
    ids.Pairwise (fun a b => a.code < b.code) ∧ ∀ id, id ∈ ids ↔ live id := by
  have hlisted {name : String} (hname : name ∈ d.children folder) {id : ModelId}
      (hid : s.listedId? d name = some id) : live id ∧ name = id.render := by
    obtain ⟨other, hlive, rfl⟩ := exists_of_mem_children hholds hname
    rw [listedId?_render hserves hholds hlive, Option.some.injEq] at hid
    exact ⟨hid ▸ hlive, by rw [hid]⟩
  have hnodup : ((d.children folder).filterMap (s.listedId? d)).Nodup := by
    refine List.pairwise_filterMap.mpr (hholds.apart.imp_of_mem ?_)
    intro a b ha hb hne id hid other hother
    rintro rfl
    exact hne ((hlisted ha hid).2.trans (hlisted hb hother).2.symm)
  refine ⟨_, by rw [list, hserves.leads.names], ?_, fun id => ?_⟩
  case refine_1 => exact ModelId.ascending_mergeSort hnodup
  case refine_2 =>
    rw [List.mem_mergeSort, List.mem_filterMap]
    constructor
    · rintro ⟨name, hname, hid⟩
      exact (hlisted hname hid).1
    · intro hlive
      refine ⟨id.render, ?_, listedId?_render hserves hholds hlive⟩
      rw [Disk.mem_children_iff, ← ModelId.place, hholds.models id hlive]
      rfl

end Store

end TypedModel
