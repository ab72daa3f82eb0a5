import TypedModel.Proofs.Store.ModelsFolder

/-!
# Stores that share a folder

Any number of stores may have one folder of models, each with a registry of its own. A chronicle
keeps the disk, the stores that are open and all that they have been asked and have answered. A model
is live once a save of it has succeeded, until a delete of it does, through whatever store. At any
time the stores answer by what is live in their chronicle: it says which addresses they refuse, what
they delete and what they list. Only the logic of a model may be missing where the model is live
through other stores alone.
-/

namespace TypedModel

/-! ## Requests -/

/-- What a store can be asked. -/
inductive StoreRequest where
  /-- To save a model under a fresh identifier. -/
  | save (logic : ModelLogic) (given : Option Value) (signature : Option ModelSignature)
      (id : ModelId) (now : Instant)
  /-- To load a model. -/
  | load (uri : String)
  /-- To read the manifest of a model. -/
  | manifest (uri : String)
  /-- To remove a model. -/
  | delete (uri : String)
  /-- To list all models. -/
  | list

/-- What a store answers. -/
inductive StoreAnswer where
  /-- The outcome of saving. -/
  | saved (outcome : Except StoreError SavedModel)
  /-- The outcome of loading. -/
  | loaded (outcome : Except StoreError LoadedModel)
  /-- The outcome of reading a manifest. -/
  | manifest (outcome : Except StoreError Manifest)
  /-- The outcome of removing. -/
  | deleted (outcome : Except StoreError Unit)
  /-- The outcome of listing. -/
  | listed (outcome : Except StoreError (List ModelId))

/-- The model whose files a request may change. -/
def StoreRequest.altered? : StoreRequest → Option ModelId
  | .save _ _ _ id _ => some id
  | .delete uri => ModelId.ofUri? uri
  | _ => none

/-- The store and its disk after a request, and the answer. -/
def Store.serve (s : Store) (disk : Disk) : StoreRequest → StoreReport StoreAnswer
  | .save logic given signature id now =>
    let report := (s.save disk logic given signature id now).value
    ⟨report.store, report.disk, .saved report.result⟩
  | .load uri => ⟨s, disk, .loaded (s.load disk uri).value⟩
  | .manifest uri => ⟨s, disk, .manifest (s.manifest disk uri)⟩
  | .delete uri =>
    let report := (s.delete disk uri).value
    ⟨report.store, report.disk, .deleted report.result⟩
  | .list => ⟨s, disk, .listed (s.list disk)⟩

/-! ## Chronicles -/

/-- A request that was answered. -/
structure StoreEvent where
  /-- Number of the store, in the order of opening. -/
  store : Nat
  /-- What it was asked. -/
  request : StoreRequest
  /-- What it answered. -/
  answer : StoreAnswer

namespace StoreEvent

/-- The model that has been saved. -/
def saved? (e : StoreEvent) : Option ModelId :=
  match e.answer with
  | .saved (.ok model) => some model.modelId
  | _ => none

/-- The model that has been removed. -/
def deleted? (e : StoreEvent) : Option ModelId :=
  match e.request, e.answer with
  | .delete uri, .deleted (.ok _) => ModelId.ofUri? uri
  | _, _ => none

end StoreEvent

/-- A disk, the stores that are open on it and what they have answered, the latest last. -/
structure Chronicle where
  /-- The disk. -/
  disk : Disk
  /-- The stores in the order of opening. -/
  stores : List Store
  /-- The requests that were answered. -/
  events : List StoreEvent

/-- What happens to stores. -/
inductive StoreCall where
  /-- One more store is opened. -/
  | opening (config : StoreConfig)
  /-- A store is asked for something. -/
  | asking (store : Nat) (request : StoreRequest)

namespace Chronicle

/-- The chronicle after a call. A store that cannot be opened is none, and what is asked of no store
is not answered. -/
def perform (c : Chronicle) : StoreCall → Chronicle
  | .opening config =>
    match Store.openAt c.disk config with
    | (disk, .ok store) => ⟨disk, c.stores ++ [store], c.events⟩
    | (disk, .error _) => ⟨disk, c.stores, c.events⟩
  | .asking i request =>
    match c.stores[i]? with
    | some s =>
      let report := s.serve c.disk request
      ⟨report.disk, c.stores.set i report.store, c.events ++ [⟨i, request, report.result⟩]⟩
    | none => c

/-- The chronicle after calls in order. -/
def run (c : Chronicle) (calls : List StoreCall) : Chronicle := calls.foldl perform c

/-! ## Live models -/

/-- A store has saved a model, and no store has removed the model since. -/
def LiveThrough (events : List StoreEvent) (i : Nat) (id : ModelId) : Prop :=
  ∃ before e after, events = before ++ e :: after ∧ e.store = i ∧ e.saved? = some id ∧
    ∀ later ∈ after, later.deleted? ≠ some id

/-- A model has been saved, and it has not been removed since. -/
def Live (events : List StoreEvent) (id : ModelId) : Prop := ∃ i, LiveThrough events i id

section

variable {events : List StoreEvent} {e : StoreEvent} {i : Nat} {id : ModelId}

/-- Nothing is live in the beginning. -/
theorem not_live_nil : ¬ Live [] id := by
  rintro ⟨i, before, e, after, h, -⟩
  simp at h

/-- After one more event a model is live through a store if the store has just saved it, or if it was
live through the store and has not just been removed. -/
theorem liveThrough_concat : LiveThrough (events ++ [e]) i id ↔
    (e.store = i ∧ e.saved? = some id) ∨ (LiveThrough events i id ∧ e.deleted? ≠ some id) := by
  constructor
  · rintro ⟨before, event, after, hsplit, hstore, hsaved, hafter⟩
    rcases List.eq_nil_or_concat after with rfl | ⟨front, last, rfl⟩
    · obtain ⟨-, hlast⟩ := List.append_inj' hsplit rfl
      rw [List.singleton_inj] at hlast
      exact .inl ⟨hlast ▸ hstore, hlast ▸ hsaved⟩
    · rw [List.concat_eq_append, ← List.cons_append, ← List.append_assoc] at hsplit
      obtain ⟨hfront, hlast⟩ := List.append_inj' hsplit rfl
      rw [List.singleton_inj] at hlast
      subst hlast
      refine .inr ⟨⟨before, event, front, hfront, hstore, hsaved, fun later hlater => ?_⟩, ?_⟩
      · exact hafter later (by simp [hlater])
      · exact hafter e (by simp)
  · rintro (⟨hstore, hsaved⟩ | ⟨⟨before, event, after, rfl, hstore, hsaved, hafter⟩, hdeleted⟩)
    · exact ⟨events, e, [], rfl, hstore, hsaved, by simp⟩
    · refine ⟨before, event, after ++ [e], by simp, hstore, hsaved, fun later hlater => ?_⟩
      rcases List.mem_append.mp hlater with hlater | hlater
      · exact hafter later hlater
      · rw [List.mem_singleton.mp hlater]
        exact hdeleted

/-- After one more event a model is live if it has just been saved, or if it was live and has not
just been removed. -/
theorem live_concat : Live (events ++ [e]) id ↔
    e.saved? = some id ∨ (Live events id ∧ e.deleted? ≠ some id) := by
  simp only [Live, liveThrough_concat, exists_or, exists_eq_left', exists_and_right]

end

end Chronicle

/-! ## What one request does -/

namespace Store

open Chronicle

variable {s : Store} {d : Disk} {folder : DiskPath} {live : ModelId → Prop}

/-- Registering a model keeps the logic of others. -/
theorem lookup_register_of_ne {id other : ModelId} (h : other ≠ id) (logic : ModelLogic) :
    (s.register id logic).registry.lookup other = s.registry.lookup other := by
  rw [register, List.lookup_cons, beq_false_of_ne h]
  exact Sequence.lookup_filter_ne h s.registry

/-- Removing a model from the registry keeps the logic of others. -/
theorem lookup_unregister_of_ne {id other : ModelId} (h : other ≠ id) :
    (s.unregister id).registry.lookup other = s.registry.lookup other :=
  Sequence.lookup_filter_ne h s.registry

/-- A store that was opened has the configuration it was opened with, which names its root. -/
theorem openAt_spec {disk opened : Disk} {config : StoreConfig} {first : Store}
    (h : openAt disk config = (opened, .ok first)) :
    config.validate = .ok () ∧ first = ⟨config, []⟩ := by
  rw [openAt] at h
  split at h
  case h_1 => simp at h
  case h_2 hvalid =>
    split at h
    · simp only [Prod.mk.injEq, Except.ok.injEq] at h
      exact ⟨hvalid, h.2.symm⟩
    · simp at h

/-- What one request to a store does to it and to its folder of models: nothing; or it adds a model,
with its logic; or it removes a live model, with its logic if that is here. -/
theorem serve_cases (hserves : s.Serves d folder) (hholds : d.HoldsModels folder live) (i : Nat)
    (request : StoreRequest) {report : StoreReport StoreAnswer}
    (hreport : s.serve d request = report) {e : StoreEvent} (he : e = ⟨i, request, report.result⟩) :
    (report.store = s ∧ report.disk = d ∧ e.saved? = none ∧ e.deleted? = none) ∨
    (∃ id logic, request.altered? = some id ∧ report.store = s.register id logic ∧
      e.saved? = some id ∧ e.deleted? = none ∧ d.SameApartFrom report.disk (id.place folder) ∧
      report.disk.HoldsModels folder fun other => other = id ∨ live other) ∨
    (∃ id, request.altered? = some id ∧ report.store = s.unregister id ∧
      e.saved? = none ∧ e.deleted? = some id ∧ d.SameApartFrom report.disk (id.place folder) ∧
      report.disk.HoldsModels folder fun other => live other ∧ other ≠ id) := by
  subst hreport he
  cases request with
  | save logic given signature id now =>
    obtain ⟨after, saved, hsave, hid, hafter, hsame⟩ :=
      save_of_holdsModels hserves hholds logic given signature id now
    refine .inr (.inl ⟨id, logic, rfl, ?_⟩)
    simp only [serve, hsave, StoreEvent.saved?, StoreEvent.deleted?, hid, true_and]
    exact ⟨hsame, hafter⟩
  | delete uri =>
    cases hid : s.idOfModel d uri with
    | ok id =>
      obtain ⟨huri, hlive⟩ := (idOfModel_eq_ok_iff hserves hholds).mp hid
      obtain ⟨hafter, hsame⟩ := hholds.clear id
      refine .inr (.inr ⟨id, huri, ?_⟩)
      simp only [serve, delete_of_live hserves hholds huri hlive, StoreEvent.saved?,
        StoreEvent.deleted?, huri, true_and]
      exact ⟨hsame, hafter⟩
    | error e =>
      refine .inl ?_
      simp only [serve, delete_of_error hid, StoreEvent.saved?, StoreEvent.deleted?, and_self]
  | load uri => exact .inl ⟨rfl, rfl, rfl, rfl⟩
  | manifest uri => exact .inl ⟨rfl, rfl, rfl, rfl⟩
  | list => exact .inl ⟨rfl, rfl, rfl, rfl⟩

end Store

/-! ## What any calls keep -/

namespace Chronicle

/-- A chronicle in which all stores have their models in one folder of a disk that was as it is
outside: the folder holds the live models, and each model has its logic where it is live through. -/
structure Sound (base : Disk) (folder : DiskPath) (c : Chronicle) : Prop where
  /-- The disk has changed inside the folder only. -/
  outside : base.SameOutside c.disk folder
  /-- All stores have the folder. -/
  serves : ∀ s ∈ c.stores, s.Serves c.disk folder
  /-- The folder holds the live models. -/
  holds : c.disk.HoldsModels folder (Live c.events)
  /-- A store has the logic of the models that are live through it. -/
  logic : ∀ i id, LiveThrough c.events i id →
    ∃ s, c.stores[i]? = some s ∧ (s.registry.lookup id).isSome = true

variable {base : Disk} {folder : DiskPath} {c : Chronicle} {i : Nat} {s : Store}

/-- What is asked of a store that is open is answered. -/
theorem perform_asking (hs : c.stores[i]? = some s) (request : StoreRequest) :
    c.perform (.asking i request) =
      ⟨(s.serve c.disk request).disk, c.stores.set i (s.serve c.disk request).store,
        c.events ++ [⟨i, request, (s.serve c.disk request).result⟩]⟩ := by
  simp only [perform, hs]

/-- A chronicle stays sound if the store that answers has the logic of the models that are live
through it afterwards, and the folder holds the live models. -/
theorem Sound.answered (h : Sound base folder c) (hs : c.stores[i]? = some s) {t : Store} {d : Disk}
    {e : StoreEvent} (hstore : e.store = i) (hconfig : t.config = s.config)
    (hsame : c.disk.SameOutside d folder) (hholds : d.HoldsModels folder (Live (c.events ++ [e])))
    (hlogic : ∀ id, LiveThrough (c.events ++ [e]) i id → (t.registry.lookup id).isSome = true) :
    Sound base folder ⟨d, c.stores.set i t, c.events ++ [e]⟩ where
  outside := h.outside.trans hsame
  serves := by
    intro u hu
    rcases List.mem_or_eq_of_mem_set hu with hu | rfl
    · exact (h.serves u hu).of_sameOutside hsame
    · exact ((h.serves s (List.mem_of_getElem? hs)).of_sameOutside hsame).of_config hconfig
  holds := hholds
  logic := by
    intro j id hlive
    have hlength : i < c.stores.length := (List.getElem?_eq_some_iff.mp hs).1
    by_cases hj : j = i
    · subst hj
      exact ⟨t, List.getElem?_set_self hlength, hlogic id hlive⟩
    · rcases liveThrough_concat.mp hlive with ⟨hother, -⟩ | ⟨hbefore, -⟩
      · exact absurd (hother.symm.trans hstore) hj
      · obtain ⟨u, hu, hlookup⟩ := h.logic j id hbefore
        exact ⟨u, by rw [List.getElem?_set_ne (Ne.symm hj), hu], hlookup⟩

/-- What a store is asked keeps a chronicle sound. -/
theorem Sound.asking (h : Sound base folder c) (i : Nat) (request : StoreRequest) :
    Sound base folder (c.perform (.asking i request)) := by
  cases hs : c.stores[i]? with
  | none =>
    have hsame : c.perform (.asking i request) = c := by simp only [perform, hs]
    rwa [hsame]
  | some s =>
    have hserves := h.serves s (List.mem_of_getElem? hs)
    have hlookup {id : ModelId} (hlive : LiveThrough c.events i id) :
        (s.registry.lookup id).isSome = true := by
      obtain ⟨t, ht, hlookup⟩ := h.logic i id hlive
      rw [hs, Option.some.injEq] at ht
      rwa [ht]
    rw [perform_asking hs]
    generalize hreport : s.serve c.disk request = report
    generalize he : (⟨i, request, report.result⟩ : StoreEvent) = e
    have hstore : e.store = i := by rw [← he]
    rcases Store.serve_cases hserves h.holds i request hreport he.symm with
      ⟨ht, hd, hsaved, hdeleted⟩ | ⟨id, logic, -, ht, hsaved, hdeleted, hsame, hholds⟩ |
        ⟨id, -, ht, hsaved, hdeleted, hsame, hholds⟩
    · refine h.answered hs hstore (by rw [ht]) (by rw [hd]; exact c.disk.sameOutside_refl folder)
        ?_ fun other hlive => ?_
      · rw [hd]
        exact h.holds.congr fun other => by simp [live_concat, hsaved, hdeleted]
      · rw [liveThrough_concat, hsaved, hdeleted] at hlive
        rw [ht]
        exact hlookup (by simpa using hlive)
    · refine h.answered hs hstore (by rw [ht]; rfl) hsame.sameOutside ?_ fun other hlive => ?_
      · exact hholds.congr fun other => by simp [live_concat, hsaved, hdeleted, eq_comm]
      · rw [ht]
        by_cases hother : other = id
        · rw [hother, Store.lookup_register]
          rfl
        · rw [Store.lookup_register_of_ne hother]
          rw [liveThrough_concat, hsaved, hdeleted] at hlive
          exact hlookup (by simpa [Ne.symm hother] using hlive)
    · refine h.answered hs hstore (by rw [ht]; rfl) hsame.sameOutside ?_ fun other hlive => ?_
      · exact hholds.congr fun other => by simp [live_concat, hsaved, hdeleted, eq_comm]
      · rw [liveThrough_concat, hsaved, hdeleted] at hlive
        obtain ⟨hbefore, hother⟩ : LiveThrough c.events i other ∧ id ≠ other := by
          simpa using hlive
        rw [ht, Store.lookup_unregister_of_ne (Ne.symm hother)]
        exact hlookup hbefore

/-- One more store on the folder keeps a chronicle sound. -/
theorem Sound.opening (h : Sound base folder c) (hvacant : base.IsVacant folder)
    {config : StoreConfig} (hroom : config.HasRoom)
    (hleads : config.validate = .ok () → base.LeadsTo config.modelsDir folder) :
    Sound base folder (c.perform (.opening config)) := by
  cases hvalid : config.validate with
  | error e =>
    have hopen : Store.openAt c.disk config = (c.disk, .error e) := by
      simp only [Store.openAt, hvalid]
    simpa only [perform, hopen] using h
  | ok =>
    have hbase : Store.Serves ⟨config, []⟩ base folder :=
      Store.serves_of_isVacant (hleads hvalid) hvacant hroom
    have hserves := hbase.of_sameOutside h.outside
    have hopen : Store.openAt c.disk config = (c.disk, .ok ⟨config, []⟩) := by
      simp only [Store.openAt, hvalid, hserves.leads.makeFolders]
    simp only [perform, hopen]
    constructor
    case outside => exact h.outside
    case holds => exact h.holds
    case serves =>
      intro s hs
      rcases List.mem_append.mp hs with hs | hs
      · exact h.serves s hs
      · rw [List.mem_singleton.mp hs]
        exact hserves
    case logic =>
      intro i id hlive
      obtain ⟨s, hs, hlookup⟩ := h.logic i id hlive
      exact ⟨s, by rw [List.getElem?_append_left (List.getElem?_eq_some_iff.mp hs).1, hs], hlookup⟩

/-- Any calls keep a chronicle sound, as long as stores are opened on the folder only. -/
theorem Sound.run (hvacant : base.IsVacant folder) {calls : List StoreCall}
    (hopenings : ∀ config, .opening config ∈ calls → config.HasRoom ∧
      (config.validate = .ok () → base.LeadsTo config.modelsDir folder))
    {c : Chronicle} (h : Sound base folder c) : Sound base folder (c.run calls) := by
  induction calls generalizing c with
  | nil => exact h
  | cons call rest ih =>
    refine ih (fun config hconfig => hopenings config (List.mem_cons_of_mem call hconfig)) ?_
    cases call with
    | opening config =>
      obtain ⟨hroom, hleads⟩ := hopenings config List.mem_cons_self
      exact h.opening hvacant hroom hleads
    | asking i request => exact h.asking i request

/-! ## What stores answer -/

/-- Every store answers by the models that are live in the chronicle. -/
structure Reflects (c : Chronicle) : Prop where
  /-- The live models are listed, each once, in ascending order. -/
  listed : ∀ s ∈ c.stores, ∃ ids, s.list c.disk = .ok ids ∧
    ids.Pairwise (fun a b => a.code < b.code) ∧ ∀ id, id ∈ ids ↔ Live c.events id
  /-- Loading refuses the addresses of models that are not live, and texts that are no addresses. -/
  loads : ∀ s ∈ c.stores, ∀ uri, Refuses (Live c.events) uri (s.load c.disk uri).value
  /-- So does reading a manifest. -/
  manifests : ∀ s ∈ c.stores, ∀ uri, Refuses (Live c.events) uri (s.manifest c.disk uri)
  /-- So does removing a model. -/
  deletes : ∀ s ∈ c.stores, ∀ uri, Refuses (Live c.events) uri (s.delete c.disk uri).value.result
  /-- The models that are live can be removed, and no others. -/
  deleted : ∀ s ∈ c.stores, ∀ uri, (s.delete c.disk uri).value.result = .ok () ↔
    ∃ id, ModelId.ofUri? uri = some id ∧ Live c.events id
  /-- Models can be saved. -/
  saves : ∀ s ∈ c.stores, ∀ logic given signature id now, ∃ saved,
    (s.save c.disk logic given signature id now).value.result = .ok saved ∧ saved.modelId = id
  /-- The logic of a model is missing only where another store has saved it. -/
  logicMissing : ∀ i s, c.stores[i]? = some s → ∀ uri missing,
    (s.load c.disk uri).value = .error (.logicMissing missing) →
      missing = uri ∧ ∃ id, ModelId.ofUri? uri = some id ∧ ¬ LiveThrough c.events i id ∧
        ∃ j, j ≠ i ∧ LiveThrough c.events j id
  /-- A request that is not about a live model leaves its manifest as it is. -/
  kept : ∀ i request id, Live c.events id → request.altered? ≠ some id → ∀ s ∈ c.stores,
    ∃ text, c.disk.read (s.manifestPath id) = some text ∧
      (c.perform (.asking i request)).disk.read (s.manifestPath id) = some text

/-- What is asked of a store changes the disk only where the model of the request lies. -/
theorem Sound.disk_asking (h : Sound base folder c) (i : Nat) (request : StoreRequest) :
    (c.perform (.asking i request)).disk = c.disk ∨ ∃ id, request.altered? = some id ∧
      c.disk.SameApartFrom (c.perform (.asking i request)).disk (id.place folder) := by
  cases hs : c.stores[i]? with
  | none =>
    left
    simp only [perform, hs]
  | some s =>
    rw [perform_asking hs]
    rcases Store.serve_cases (h.serves s (List.mem_of_getElem? hs)) h.holds i request rfl rfl with
      ⟨-, hd, -⟩ | ⟨id, -, haltered, -, -, -, hsame, -⟩ | ⟨id, haltered, -, -, -, hsame, -⟩
    · exact .inl hd
    · exact .inr ⟨id, haltered, hsame⟩
    · exact .inr ⟨id, haltered, hsame⟩

/-- What is asked of a store leaves the manifests of other live models as they are. -/
theorem Sound.kept (h : Sound base folder c) (i : Nat) (request : StoreRequest) {id : ModelId}
    (hlive : Live c.events id) (hother : request.altered? ≠ some id) {s : Store}
    (hs : s ∈ c.stores) : ∃ text, c.disk.read (s.manifestPath id) = some text ∧
      (c.perform (.asking i request)).disk.read (s.manifestPath id) = some text := by
  have hserves := h.serves s hs
  have hfolder := h.holds.models id hlive
  obtain ⟨text, htext⟩ := h.holds.manifests id hlive
  have hread := (Store.read_manifestPath_iff hserves hfolder).mpr htext
  refine ⟨text, hread, ?_⟩
  rcases h.disk_asking i request with hdisk | ⟨altered, haltered, hsame⟩
  · rw [hdisk, hread]
  · have hne : id ≠ altered := by
      rintro rfl
      exact hother haltered
    obtain ⟨hplace, hmanifest⟩ := ModelId.not_under_place folder hne
    rw [Store.read_manifestPath_iff (hserves.of_sameOutside hsame.sameOutside)
      (by rw [hsame _ hplace, hfolder]), hsame _ hmanifest, htext]

/-- In a sound chronicle every store answers by the live models. -/
theorem Sound.reflects (h : Sound base folder c) : c.Reflects where
  listed := fun s hs => Store.list_spec (h.serves s hs) h.holds
  loads := fun s hs uri => Store.refuses_load (h.serves s hs) h.holds uri
  manifests := fun s hs uri => Store.refuses_manifest (h.serves s hs) h.holds uri
  deletes := fun s hs uri => Store.refuses_delete (h.serves s hs) h.holds uri
  deleted := fun s hs uri => Store.delete_eq_ok_iff (h.serves s hs) h.holds
  saves := by
    intro s hs logic given signature id now
    obtain ⟨after, saved, hsave, hid, -⟩ :=
      Store.save_of_holdsModels (h.serves s hs) h.holds logic given signature id now
    exact ⟨saved, by rw [hsave], hid⟩
  logicMissing := by
    intro i s hs uri missing hload
    obtain ⟨hmissing, id, huri, ⟨j, hlive⟩, hlookup⟩ :=
      Store.logicMissing_of_load (h.serves s (List.mem_of_getElem? hs)) h.holds hload
    have hhere : ¬ LiveThrough c.events i id := by
      intro hhere
      obtain ⟨t, ht, hregistered⟩ := h.logic i id hhere
      rw [hs, Option.some.injEq] at ht
      rw [← ht, hlookup] at hregistered
      cases hregistered
    refine ⟨hmissing, id, huri, hhere, j, ?_, hlive⟩
    rintro rfl
    exact hhere hlive
  kept := fun i request _ hlive hother _ hs => h.kept i request hlive hother hs

/-- Stores are opened on one root, whose folder of models is empty in the beginning and whose
manifests all have paths that the file system takes. Then after any calls of them, in any order,
every store answers by the models that are live in the chronicle of the calls. -/
theorem run_reflects {disk opened : Disk} {config : StoreConfig} {first : Store}
    (hopen : Store.openAt disk config = (opened, .ok first))
    (hempty : opened.IsEmptyFolder config.modelsDir) (hroom : config.HasRoom)
    (calls : List StoreCall)
    (hroots : ∀ other, .opening other ∈ calls →
      opened.locate other.rootDir = opened.locate config.rootDir ∧ other.HasRoom) :
    (run ⟨opened, [first], []⟩ calls).Reflects := by
  obtain ⟨folder, hleads, hvacant⟩ := hempty
  obtain ⟨hvalid, rfl⟩ := Store.openAt_spec hopen
  have hstart : Sound opened folder ⟨opened, [⟨config, []⟩], []⟩ := by
    constructor
    case outside => exact opened.sameOutside_refl folder
    case serves =>
      intro s hs
      rw [List.mem_singleton.mp hs]
      exact Store.serves_of_isVacant hleads hvacant hroom
    case holds => exact hvacant.holdsModels.congr fun id => by simp [not_live_nil]
    case logic => exact fun i id hlive => absurd ⟨i, hlive⟩ not_live_nil
  refine (hstart.run hvacant fun other hother => ?_).reflects
  obtain ⟨hroot, hotherRoom⟩ := hroots other hother
  exact ⟨hotherRoom, fun hotherValid =>
    StoreConfig.leadsTo_modelsDir hvalid hroom hotherValid hotherRoom hroot hleads⟩

/-- Two stores on one root, which is written in two ways: each saves a model, and the second removes
the model of the first. -/
theorem run_reflects_two_stores :
    ∃ opened first, Store.openAt .empty (.ofRoot "store") = (opened, .ok first) ∧
      opened.IsEmptyFolder "store/models" ∧
      let c := run ⟨opened, [first], []⟩
        [.opening (.ofRoot "./store"),
          .asking 0 (.save (Store.identity none) none none Store.nilId Store.epoch),
          .asking 1 (.save (Store.identity none) none none ⟨1⟩ Store.epoch),
          .asking 1 (.delete Store.nilId.uri)]
      c.events.map (fun e => (e.saved?, e.deleted?)) =
          [(some Store.nilId, none), (some ⟨1⟩, none), (none, some Store.nilId)] ∧
        c.Reflects := by
  have hopen : Store.openAt .empty (.ofRoot "store") =
      (⟨[(["store", "models"], .folder), (["store"], .folder)]⟩, .ok ⟨.ofRoot "store", []⟩) := rfl
  have hempty : Disk.IsEmptyFolder ⟨[(["store", "models"], .folder), (["store"], .folder)]⟩
      "store/models" := by
    refine ⟨["store", "models"], ⟨by decide, by decide⟩, ?_⟩
    rintro place ⟨name, rest, rfl⟩
    rfl
  refine ⟨_, _, hopen, hempty, by decide +kernel, run_reflects hopen hempty ?_ _ ?_⟩
  · exact StoreConfig.hasRoom_of_short (by decide) (by decide)
  · intro other hother
    obtain rfl : other = .ofRoot "./store" := by simpa using hother
    exact ⟨by decide, StoreConfig.hasRoom_of_short (by decide) (by decide)⟩

end Chronicle

end TypedModel
