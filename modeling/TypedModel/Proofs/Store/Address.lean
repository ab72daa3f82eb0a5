import TypedModel.Proofs.ModelId.Spelling
import TypedModel.Proofs.Store.ModelsFolder

/-!
# Addresses of models

Every spelling of an identifier is an address of one model: what is done under it is done with that
model's folder and logic, as under the address the identifier is written as, and only the texts of
refusals tell the spellings apart. What is no address is refused as it stands, and nothing changes.
-/

namespace TypedModel

open Sequence

/-- The error under another text, where it tells the one that was given. -/
def StoreError.retold (text : String) : StoreError → StoreError
  | .notFound _ => .notFound text
  | .invalidUri _ => .invalidUri text
  | .logicMissing _ => .logicMissing text
  | e => e

/-- A defect of a manifest does not tell the text that was given. -/
theorem StoreError.IsDefect.retold_eq {e : StoreError} (h : e.IsDefect) (text : String) :
    e.retold text = e := by
  cases e <;> first | rfl | exact h.elim

/-- The check of a manifest, if there is to be one. -/
def Manifest.verifyIf (m : Manifest) (checked : Bool) : Except StoreError Unit :=
  if checked then m.verify else .ok ()

namespace Store

/-- What is done with an outcome, told another way, is done with the outcome told that way. -/
theorem mapError_bind {ε δ α β : Type} (x : Except ε α) (f : α → Except ε β) (g : ε → δ) :
    (x >>= f).mapError g = x.mapError g >>= fun a => (f a).mapError g := by
  cases x <;> rfl

variable (s : Store) (d : Disk)

/-! ## One model under two texts -/

/-- Operations under one text give what they give under another, told of the first. -/
structure AnswersAlike (text other : String) : Prop where
  /-- Reading the manifest. -/
  manifest : s.manifest d text = (s.manifest d other).mapError (.retold text)
  /-- Loading. -/
  load : (s.load d text).value = (s.load d other).value.mapError (.retold text)
  /-- The outcome of deleting. -/
  outcome : (s.delete d text).value.result =
    (s.delete d other).value.result.mapError (.retold text)
  /-- The store after deleting. -/
  store : (s.delete d text).value.store = (s.delete d other).value.store
  /-- The disk after deleting. -/
  disk : (s.delete d text).value.disk = (s.delete d other).value.disk

/-- Operations under a text are those on the folder and the logic of one model. -/
structure LeadsToModel (text : String) (id : ModelId) : Prop where
  /-- The manifest is that of the file in the model's folder. -/
  manifest (m : Manifest) :
    s.manifest d text = .ok m ↔ Manifest.read d (s.manifestPath id) = .ok m
  /-- The loaded model is made of that manifest and of the model's logic. -/
  load (model : LoadedModel) : (s.load d text).value = .ok model ↔
    ∃ m logic, Manifest.read d (s.manifestPath id) = .ok m ∧
      (s.config.verifyChecksums = true → m.verify = .ok ()) ∧ s.registry.lookup id = some logic ∧
      model = .ofLogic id m.signature m.inputExample logic s.config.validateOutputs
  /-- The model's folder and logic are what is deleted. -/
  delete (after : Disk) : (s.delete d text).value = ⟨s.unregister id, after, .ok ()⟩ ↔
    s.hasManifest d id = true ∧ d.remove (s.modelDir id) = some after

variable {s d} {text other : String} {id : ModelId}

/-- What is done with an identifier gives the same under its addresses if that by itself does. -/
theorem bind_retold {α : Type} {f g : ModelId → Except StoreError α}
    (h : ModelId.ofUri? text = some id) (hother : ModelId.ofUri? other = some id)
    (hf : f id = (g id).mapError (.retold text)) :
    (s.idOfModel d text >>= f) = (s.idOfModel d other >>= g).mapError (.retold text) := by
  rw [idOfModel_of_address h, idOfModel_of_address hother]
  split
  · exact hf
  · rfl

/-- Reading a manifest file gives the same under any text. -/
theorem read_retold (path : String) :
    (Manifest.read d path).mapError (.retold text) = Manifest.read d path := by
  cases hread : Manifest.read d path with
  | ok m => rfl
  | error e => exact congrArg Except.error ((Manifest.isDefect_of_read hread).retold_eq text)

/-- Checking a manifest gives the same under any text. -/
theorem verifyIf_retold (m : Manifest) (checked : Bool) :
    (m.verifyIf checked).mapError (.retold text) = m.verifyIf checked := by
  cases checked with
  | false => rfl
  | true =>
    cases hverify : m.verify with
    | ok _ => simp only [Manifest.verifyIf, if_true, hverify]; rfl
    | error e =>
      have hdefect := (Manifest.isDefect_of_verify hverify).retold_eq text
      simp only [Manifest.verifyIf, if_true, hverify]
      exact congrArg Except.error hdefect

/-- The loaded form of a model whose manifest has been read. -/
def loadedFrom (s : Store) (text : String) (id : ModelId) (m : Manifest) :
    Except StoreError LoadedModel :=
  match s.registry.lookup id with
  | some logic =>
    .ok (.ofLogic id m.signature m.inputExample logic s.config.validateOutputs)
  | none => .error (.logicMissing text)

/-- Loading reads the manifest of the identifier, checks it and looks for the logic. -/
theorem loadModel_eq : s.loadModel d text =
    s.idOfModel d text >>= fun id => Manifest.read d (s.manifestPath id) >>= fun m =>
      m.verifyIf s.config.verifyChecksums >>= fun _ => s.loadedFrom text id m := by
  rw [loadModel]
  cases s.config.verifyChecksums <;> rfl

/-- Deleting under an address takes away the model's folder and its logic if there is a manifest. -/
theorem value_delete (h : ModelId.ofUri? text = some id) :
    (s.delete d text).value =
      if s.hasManifest d id = true then
        (d.remove (s.modelDir id)).elim ⟨s, d, .error (.io (s.modelDir id))⟩
          fun after => ⟨s.unregister id, after, .ok ()⟩
      else ⟨s, d, .error (.notFound text)⟩ := by
  rw [delete, idOfModel_of_address h]
  cases s.hasManifest d id with
  | false => rfl
  | true =>
    simp only [if_true]
    cases d.remove (s.modelDir id) <;> rfl

/-- Addresses of one identifier are answered alike. -/
theorem answersAlike (h : ModelId.ofUri? text = some id) (hother : ModelId.ofUri? other = some id) :
    s.AnswersAlike d text other := by
  have hloaded (m : Manifest) :
      s.loadedFrom text id m = (s.loadedFrom other id m).mapError (.retold text) := by
    rw [loadedFrom, loadedFrom]
    cases s.registry.lookup id <;> rfl
  refine ⟨bind_retold h hother (read_retold _).symm, ?_, ?_, ?_, ?_⟩
  · rw [value_load, value_load, loadModel_eq, loadModel_eq]
    refine bind_retold h hother ?_
    simp only [mapError_bind, read_retold, verifyIf_retold, ← hloaded]
  all_goals
    rw [value_delete h, value_delete hother]
    split
    · cases d.remove (s.modelDir id) <;> rfl
    · rfl

/-- A manifest that can be read is there. -/
theorem hasManifest_of_read {m : Manifest} (h : Manifest.read d (s.manifestPath id) = .ok m) :
    s.hasManifest d id = true := by
  rw [Manifest.read] at h
  cases hfile : d.read (s.manifestPath id) with
  | none =>
    rw [hfile] at h
    cases h
  | some content => exact Disk.contains_of_read hfile

/-- A manifest passes the check if there is none, or if its checksum is right. -/
theorem verifyIf_eq_ok_iff {m : Manifest} {checked : Bool} :
    m.verifyIf checked = .ok () ↔ (checked = true → m.verify = .ok ()) := by
  cases checked <;> simp [Manifest.verifyIf]

/-- The loaded form is made of the manifest and of the model's logic. -/
theorem loadedFrom_eq_ok_iff {m : Manifest} {model : LoadedModel} :
    s.loadedFrom text id m = .ok model ↔ ∃ logic, s.registry.lookup id = some logic ∧
      model = .ofLogic id m.signature m.inputExample logic s.config.validateOutputs := by
  rw [loadedFrom]
  cases s.registry.lookup id <;> simp [eq_comm]

/-- An address leads to the model of its identifier. -/
theorem leadsToModel (h : ModelId.ofUri? text = some id) : s.LeadsToModel d text id where
  manifest m := by
    rw [manifest, idOfModel_of_address h]
    split
    · exact Iff.rfl
    · rename_i hmanifest
      exact iff_of_false nofun fun hread => hmanifest (hasManifest_of_read hread)
  load model := by
    rw [value_load, loadModel_eq, idOfModel_of_address h]
    split
    · rw [ok_bind, bind_eq_ok_iff]
      refine exists_congr fun m => ?_
      rw [bind_eq_ok_iff]
      constructor
      · rintro ⟨hread, _, hverify, hmodel⟩
        obtain ⟨logic, hlogic, rfl⟩ := loadedFrom_eq_ok_iff.mp hmodel
        exact ⟨logic, hread, verifyIf_eq_ok_iff.mp hverify, hlogic, rfl⟩
      · rintro ⟨logic, hread, hverify, hlogic, rfl⟩
        exact ⟨hread, (), verifyIf_eq_ok_iff.mpr hverify,
          loadedFrom_eq_ok_iff.mpr ⟨logic, hlogic, rfl⟩⟩
    · rename_i hmanifest
      refine iff_of_false nofun ?_
      rintro ⟨m, -, hread, -⟩
      exact hmanifest (hasManifest_of_read hread)
  delete after := by
    rw [value_delete h]
    cases s.hasManifest d id with
    | false => simp
    | true =>
      cases d.remove (s.modelDir id) with
      | none => simp
      | some other => simp

/-! ## Round trip -/

/-- The address an identifier is written as leads back to it, also with slashes behind it, and tells
it apart. The addresses of an identifier are the texts of a spelling behind the scheme; under each
of them the same is done with one model's folder as under the written one. Any other text is refused
as it stands. -/
theorem addresses_round_trip (s : Store) (d : Disk) :
    (∀ (id : ModelId) (n : Nat), idOfUri (id.uri ++ ModelId.slashes n) = .ok id) ∧
    (∀ a b : ModelId, a.uri = b.uri ↔ a = b) ∧
    (∀ (text : String) (id : ModelId), idOfUri text = .ok id ↔ id.IsAddress text) ∧
    (∀ (text : String) (id : ModelId), idOfUri text = .ok id →
      idOfUri id.uri = .ok id ∧ s.LeadsToModel d text id ∧ s.LeadsToModel d id.uri id ∧
        s.AnswersAlike d text id.uri) ∧
    (∀ text : String, (∀ id : ModelId, ¬ id.IsAddress text) →
      idOfUri text = .error (.invalidUri text) ∧ s.manifest d text = .error (.invalidUri text) ∧
        (s.load d text).value = .error (.invalidUri text) ∧
        (s.delete d text).value = ⟨s, d, .error (.invalidUri text)⟩) := by
  have hread {text : String} {id : ModelId} :
      idOfUri text = .ok id ↔ ModelId.ofUri? text = some id := by
    rw [idOfUri]
    cases ModelId.ofUri? text <;> simp
  have haddress {text : String} {id : ModelId} : idOfUri text = .ok id ↔ id.IsAddress text :=
    hread.trans ModelId.ofUri?_eq_some_iff
  refine ⟨fun id n => haddress.mpr (id.isAddress_uri n), fun a b => ModelId.uri_inj,
    fun text id => haddress, fun text id h => ?_, fun text h => ?_⟩
  · have hown : ModelId.ofUri? id.uri = some id := id.ofUri?_uri
    exact ⟨hread.mpr hown, leadsToModel (hread.mp h), leadsToModel hown,
      answersAlike (hread.mp h) hown⟩
  · have hnone : ModelId.ofUri? text = none :=
      Option.eq_none_iff_forall_ne_some.mpr fun id hid => h id (ModelId.ofUri?_eq_some_iff.mp hid)
    have hinvalid : s.idOfModel d text = .error (.invalidUri text) := idOfModel_of_invalid hnone
    refine ⟨by rw [idOfUri, hnone], by rw [manifest, hinvalid]; rfl, ?_, delete_of_error hinvalid⟩
    rw [value_load, loadModel, hinvalid]
    rfl

/-- Capital digits in braces, with slashes behind them, and an identifier without the scheme. -/
theorem addresses_round_trip_braces :
    let s : Store := ⟨.ofRoot "store", []⟩
    let text := "models:/{6F1C0A1E-1111-4222-8333-0123456789AB}//"
    let bare := "6f1c0a1e-1111-4222-8333-0123456789ab"
    ∃ id : ModelId, id.uri = "models:/6f1c0a1e-1111-4222-8333-0123456789ab" ∧
      idOfUri text = .ok id ∧ s.LeadsToModel .empty text id ∧ s.AnswersAlike .empty text id.uri ∧
      (s.load .empty bare).value = .error (.invalidUri bare) := by
  obtain ⟨-, -, haddress, hmodel, hrefused⟩ := addresses_round_trip ⟨.ofRoot "store", []⟩ .empty
  have hread : idOfUri "models:/{6F1C0A1E-1111-4222-8333-0123456789AB}//" =
      .ok ⟨⟨0x6f1c0a1e1111422283330123456789ab, by decide⟩⟩ := by decide +kernel
  have hbare : idOfUri "6f1c0a1e-1111-4222-8333-0123456789ab" =
      .error (.invalidUri "6f1c0a1e-1111-4222-8333-0123456789ab") := by decide +kernel
  obtain ⟨-, hleads, -, halike⟩ := hmodel _ _ hread
  refine ⟨_, by decide +kernel, hread, hleads, halike, ?_⟩
  refine (hrefused _ fun id hid => ?_).2.2.1
  have hother := (haddress _ _).mpr hid
  rw [hbare] at hother
  cases hother

end Store

end TypedModel
