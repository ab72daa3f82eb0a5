import TypedModel.Store.Basic
import TypedModel.Proofs.Store.Disk
import TypedModel.Proofs.Store.Manifest

/-!
# Saved models load again

Loading a saved model gives back its signature and its example where both fit into the nesting limit
of JSON texts. Saving does not look at that limit: a model beyond it is saved without complaint, and
its manifest cannot be read afterwards.
-/

namespace TypedModel

open Json Sequence

namespace Manifest

/-- Signature and example nest no deeper than the text of a manifest may when it is read. -/
def Fits (signature : Option ModelSignature) (given : Option Value) : Prop :=
  (signatureToJson signature).depth < nestingLimit ∧ (exampleToJson given).depth < nestingLimit

instance (signature : Option ModelSignature) (given : Option Value) :
    Decidable (Fits signature given) :=
  inferInstanceAs (Decidable (_ ∧ _))

/-- The text of a manifest can be read where signature and example fit. -/
theorem depth_toJson_le_iff (m : Manifest) :
    m.toJson.depth ≤ nestingLimit ↔ Fits m.signature m.inputExample := by
  rw [depth_toJson, Fits]
  omega

/-- The checksum of a new manifest is that of its signature and example. -/
theorem verify_ofModel (id : ModelId) (predictFn : String) (signature : Option ModelSignature)
    (given : Option Value) (now : Instant) :
    (ofModel id predictFn signature given now).verify = .ok () :=
  if_pos rfl

end Manifest

namespace Store

variable {s : Store} {disk : Disk} {logic : ModelLogic} {given : Option Value}
  {signature : Option ModelSignature} {id : ModelId} {now : Instant} {saved : SavedModel}

/-- Logic that was registered is found. -/
theorem lookup_register (s : Store) (id : ModelId) (logic : ModelLogic) :
    (s.register id logic).registry.lookup id = some logic :=
  List.lookup_cons_self

/-- A manifest that was written is read back as its text. -/
theorem read_writeModel {m : Manifest} {after : Disk}
    (h : s.writeModel disk m = (after, .ok ())) :
    after.read (s.manifestPath m.modelId) = some m.toText := by
  rw [writeModel] at h
  split at h
  case h_1 => cases h
  case h_2 made _ =>
    cases hwrite : made.write (s.manifestPath m.modelId) m.toText with
    | none => simp [Manifest.write, hwrite] at h
    | some written =>
      simp only [Manifest.write, hwrite, Prod.mk.injEq, and_true] at h
      rw [← h]
      exact Disk.read_write hwrite

/-- What a save that succeeds leaves behind. -/
theorem save_spec (h : (s.save disk logic given signature id now).value.result = .ok saved) :
    saved = ⟨id, id.uri, (logic.inferSignature given signature s.config.warnUndecorated).value,
        s.modelDir id⟩ ∧
      (s.save disk logic given signature id now).value.store = s.register id logic ∧
      (s.save disk logic given signature id now).value.disk.read (s.manifestPath id) =
        some (Manifest.ofModel id logic.name saved.signature given now).toText := by
  rcases hwrite : s.writeModel disk (Manifest.ofModel id logic.name
    (logic.inferSignature given signature s.config.warnUndecorated).value given now) with
      ⟨after, e | ⟨⟩⟩
  · simp only [save, Logged.value_bind, hwrite, Logged.value_pure, reduceCtorEq] at h
  · have hread := read_writeModel hwrite
    simp only [save, Logged.value_bind, hwrite, Except.ok.injEq] at h
    refine ⟨h.symm, ?_, ?_⟩
    · simp only [save, Logged.value_bind, hwrite]
    · simp only [save, Logged.value_bind, hwrite, ← h]
      exact hread

/-- A later state of a store and of its disk in which a model is as it was: the store keeps it in
the same folder, its logic is still registered, and nothing has touched its manifest file. -/
structure Keeps (s : Store) (disk : Disk) (id : ModelId) (later : Store) (laterDisk : Disk) :
    Prop where
  /-- The folder of models is the same; the switches may differ. -/
  modelsDir : later.config.modelsDir = s.config.modelsDir
  /-- The logic is registered. -/
  logic : later.registry.lookup id = s.registry.lookup id
  /-- The manifest file has its text. -/
  manifest : laterDisk.read (s.manifestPath id) = disk.read (s.manifestPath id)

/-- The identifier of an address is found where there is a manifest file. -/
theorem idOfModel_uri {text : String} (h : disk.read (s.manifestPath id) = some text) :
    s.idOfModel disk id.uri = .ok id := by
  have hmanifest : s.hasManifest disk id = true := Disk.contains_of_read h
  simp only [idOfModel, idOfUri, ModelId.ofUri?_uri]
  exact if_pos hmanifest

/-- A store with a manifest that fits and the logic of the model loads the model. -/
theorem loadModel_of_text {m : Manifest} (hvalid : m.verify = .ok ())
    (hfile : disk.read (s.manifestPath id) = some m.toText)
    (hlogic : s.registry.lookup id = some logic) (hgiven : ∀ v ∈ m.inputExample, v.WellFormed) :
    s.loadModel disk id.uri =
      if Manifest.Fits m.signature m.inputExample then
        .ok (.ofLogic id m.signature m.inputExample logic s.config.validateOutputs)
      else .error (.manifest (s.manifestPath id)) := by
  have hread := Manifest.read_of_text m hfile hgiven
  simp only [Manifest.depth_toJson_le_iff] at hread
  simp only [loadModel, idOfModel_uri hfile, hread, ok_bind]
  split
  case isTrue =>
    simp only [ok_bind, hvalid, hlogic]
    split <;> rfl
  case isFalse => rfl

/-- What loading gives is what the loaded form is, reported or not. -/
theorem value_load (s : Store) (disk : Disk) (uri : String) :
    (s.load disk uri).value = s.loadModel disk uri := by
  rw [load]
  split
  next h => exact h.symm
  next h => exact h.symm

/-- A model that was saved loads as what it was saved as where its signature and its example fit;
where they do not, its manifest is no longer readable. -/
theorem load_saved {later : Store} {laterDisk : Disk}
    (hsave : (s.save disk logic given signature id now).value.result = .ok saved)
    (hkept : (s.save disk logic given signature id now).value.store.Keeps
      (s.save disk logic given signature id now).value.disk id later laterDisk)
    (hgiven : ∀ v ∈ given, v.WellFormed) :
    (later.load laterDisk saved.uri).value =
      if Manifest.Fits saved.signature given then
        .ok (.ofLogic id saved.signature given logic later.config.validateOutputs)
      else .error (.manifest (s.manifestPath id)) := by
  obtain ⟨hsaved, hstore, hfile⟩ := save_spec hsave
  have huri : saved.uri = id.uri := by rw [hsaved]
  have hpath : later.manifestPath id = s.manifestPath id := by
    rw [manifestPath, modelDir, hkept.modelsDir, hstore]
    rfl
  have hlaterFile : laterDisk.read (later.manifestPath id) = some
      (Manifest.ofModel id logic.name saved.signature given now).toText := by
    have hunchanged := hkept.manifest
    rw [hstore] at hunchanged
    rw [hpath, ← hfile]
    exact hunchanged
  have hlogic : later.registry.lookup id = some logic := by
    rw [hkept.logic, hstore, lookup_register]
  rw [value_load, huri, loadModel_of_text (Manifest.verify_ofModel ..) hlaterFile hlogic hgiven, hpath]
  rfl

/-- A saved model loads, with checksums verified or not, as long as its signature and its example
fit into a manifest that can be read, and it then has the signature and the example it was saved
with. Beyond that limit the model is saved and yet cannot be loaded. -/
theorem saved_model_loads_where_it_fits {later : Store} {laterDisk : Disk}
    (hsave : (s.save disk logic given signature id now).value.result = .ok saved)
    (hkept : (s.save disk logic given signature id now).value.store.Keeps
      (s.save disk logic given signature id now).value.disk id later laterDisk)
    (hgiven : ∀ v ∈ given, v.WellFormed) :
    (Manifest.Fits saved.signature given →
      ∃ model, (later.load laterDisk saved.uri).value = .ok model ∧
        model.signature = saved.signature ∧ model.inputExample = given) ∧
    (¬ Manifest.Fits saved.signature given →
      (later.load laterDisk saved.uri).value = .error (.manifest (s.manifestPath id))) := by
  have hload := load_saved hsave hkept hgiven
  constructor
  · intro hfits
    rw [if_pos hfits] at hload
    exact ⟨_, hload, rfl, rfl⟩
  · intro hfits
    rw [if_neg hfits] at hload
    exact hload

/-- The identifier without a bit set. -/
def nilId : ModelId := ⟨⟨0, by decide⟩⟩

/-- The start of 1970. -/
def epoch : Instant :=
  ⟨0, 0, Nat.succ_pos 1999999999, fun h => absurd h (Nat.not_succ_le_zero 999999999)⟩

/-- Saves the first model on an empty disk. -/
def saveFirst (s : Store) (logic : ModelLogic) (given : Option Value)
    (signature : Option ModelSignature) : StoreReport (Except StoreError SavedModel) :=
  (s.save .empty logic given signature nilId epoch).value

/-- Saves the first model on an empty disk and loads it at once. -/
def saveAndLoad (s : Store) (logic : ModelLogic) (given : Option Value)
    (signature : Option ModelSignature) :
    Except StoreError SavedModel × Except StoreError LoadedModel :=
  let report := s.saveFirst logic given signature
  (report.result, (report.store.load report.disk nilId.uri).value)

/-- A first save that succeeds gives the inferred signature, and loading follows it. -/
theorem saveAndLoad_spec {s : Store}
    (h : (s.saveFirst logic given signature).result.toBool = true) :
    ∃ saved, (s.saveFirst logic given signature).result = .ok saved ∧
      saved.signature = (logic.inferSignature given signature s.config.warnUndecorated).value ∧
      s.saveAndLoad logic given signature =
        (.ok saved, ((s.saveFirst logic given signature).store.load
          (s.saveFirst logic given signature).disk saved.uri).value) := by
  cases hsave : (s.saveFirst logic given signature).result with
  | error e =>
    rw [hsave] at h
    cases h
  | ok saved =>
    have hspec := (save_spec hsave).1
    refine ⟨saved, rfl, by rw [hspec], ?_⟩
    rw [saveAndLoad, hsave, hspec]

/-- A first save that succeeds is followed by loading the model where signature and example fit. -/
theorem saveAndLoad_of_fits {s : Store}
    (h : (s.saveFirst logic given signature).result.toBool = true)
    (hfits : Manifest.Fits (logic.inferSignature given signature s.config.warnUndecorated).value
      given) (hgiven : ∀ v ∈ given, v.WellFormed) :
    ∃ saved model, (s.saveFirst logic given signature).result = .ok saved ∧
      ((s.saveFirst logic given signature).store.load (s.saveFirst logic given signature).disk
        saved.uri).value = .ok model ∧
      saved.signature = (logic.inferSignature given signature s.config.warnUndecorated).value ∧
      s.saveAndLoad logic given signature = (.ok saved, .ok model) := by
  obtain ⟨saved, hsave, hsignature, hpair⟩ := saveAndLoad_spec h
  have hload := load_saved hsave ⟨rfl, rfl, rfl⟩ hgiven
  rw [if_pos (hsignature ▸ hfits)] at hload
  exact ⟨saved, _, hsave, hload, hsignature, hpair.trans (by rw [saveFirst, hload])⟩

/-- A plain function that returns its input. -/
def identity (input : Option TypeHint) : ModelLogic :=
  .callable ⟨"predict", ⟨input, none⟩, fun v _ => .ok v⟩

/-- A list as example comes back with the model, and a hint of 130 lists in one another is saved but
cannot be loaded. -/
theorem saved_model_loads_where_it_fits_lists :
    (∃ saved model, saveAndLoad ⟨.ofRoot "store", []⟩ (identity none)
        (some (.list [.null, .long 1])) none = (.ok saved, .ok model) ∧
      model.signature = saved.signature ∧ model.inputExample = some (.list [.null, .long 1])) ∧
    ∃ saved path, saveAndLoad ⟨.ofRoot "store", []⟩
        (identity (some (TypeHint.list^[130] (.scalar .int)))) none none =
      (.ok saved, .error (.manifest path)) := by
  have hloads {s : Store} {logic : ModelLogic} {given : Option Value} {saved : SavedModel}
      (hsave : (s.saveFirst logic given none).result = .ok saved)
      (hgiven : ∀ v ∈ given, v.WellFormed) :
      (Manifest.Fits saved.signature given → ∃ model, ((s.saveFirst logic given none).store.load
          (s.saveFirst logic given none).disk saved.uri).value = .ok model ∧
        model.signature = saved.signature ∧ model.inputExample = given) ∧
      (¬ Manifest.Fits saved.signature given → ((s.saveFirst logic given none).store.load
          (s.saveFirst logic given none).disk saved.uri).value =
        .error (.manifest (s.manifestPath nilId))) :=
    saved_model_loads_where_it_fits hsave ⟨rfl, rfl, rfl⟩ hgiven
  constructor
  · obtain ⟨saved, hsave, hsignature, hload⟩ := @saveAndLoad_spec (identity none)
      (some (.list [.null, .long 1])) none ⟨.ofRoot "store", []⟩ (by decide +kernel)
    have hfits : Manifest.Fits saved.signature (some (.list [.null, .long 1])) := by
      rw [hsignature]
      decide +kernel
    obtain ⟨model, hmodel, hparts⟩ :=
      (hloads hsave (by simp [Value.WellFormed, Value.ItemsWellFormed])).1 hfits
    exact ⟨saved, model, hload.trans (by rw [hmodel]), hparts⟩
  · obtain ⟨saved, hsave, hsignature, hload⟩ := @saveAndLoad_spec
      (identity (some (TypeHint.list^[130] (.scalar .int)))) none none ⟨.ofRoot "store", []⟩
      (by decide +kernel)
    have hfits : ¬ Manifest.Fits saved.signature none := by
      rw [hsignature]
      decide +kernel
    exact ⟨saved, _, hload.trans (by rw [(hloads hsave (by simp)).2 hfits])⟩

end Store

end TypedModel
