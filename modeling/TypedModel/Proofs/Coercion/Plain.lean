import TypedModel.Coercion.Basic
import TypedModel.Proofs.Sequence

/-!
# Plain coercion

Coercion said again without regard to what may be passed through: every list, map and
record is built anew, every union is its first member that accepts, and there is no
rejection, only the lack of a value. The main statement is that coercion, which rebuilds a
value only around parts that change and treats optional hints apart, accepts the same values
and gives the same ones.
-/

namespace TypedModel

/-- Values of a scalar kind. -/
def ScalarKind.admits : ScalarKind → Value → Bool
  | .int, .long _ | .str, .str _ | .bool, .bool _ | .float, .double _ | .bytes, .bytes _
  | .datetime, .datetime _ => true
  | _, _ => false

/-- The items that a list hint sees: those of a list, or a frame read as a list. -/
def Value.listed? : Value → Option (List Value)
  | .list items => some items
  | .frame f => some f.items
  | _ => none

/-- The only value that is null. -/
theorem Value.eq_null_of_isNull {v : Value} (h : v.isNull = true) : v = .null := by
  cases v <;> first | rfl | cases h

namespace TypeHint

/-- A scalar of its own kind stays, and `float` turns an integer into a double. -/
def plainScalar (kind : ScalarKind) (v : Value) : Option Value :=
  if kind.admits v then some v
  else
    match kind, v with
    | .float, .long n => some (.double (.ofInt n.toInt))
    | _, _ => Option.none

/-- A map is coerced as one, and a frame as the list of its rows, each of them a map. -/
def plainRows (onMap : Entries Value → Option Value) : Value → Option Value
  | .map entries => onMap entries
  | .frame f => (f.rows.mapM fun row => onMap (f.rowEntries row)).map .list
  | _ => Option.none

mutual

/-- What a value becomes under a hint, built anew; none where it does not fit. -/
def plain : TypeHint → Value → Option Value
  | .any, v | .frame, v | .foreign _, v => some v
  | .none, v => if v.isNull then some v else Option.none
  | .scalar kind, v => plainScalar kind v
  | .union members, v => plainFirst members v
  | .list element, v => do
    let items ← v.listed?
    (items.mapM (plain element)).map .list
  | .dict _ element, v =>
    plainRows
      (fun entries => (entries.mapM fun e => (plain element e.2).map (e.1, ·)).map .map) v
  | .record ⟨name, fields⟩, v =>
    match v with
    | .record r => if r.name = name then some v else Option.none
    | v => plainRows (fun entries => (plainFields fields entries).map (.record ⟨name, ·⟩)) v
termination_by structural h => h

/-- The result of the first member that accepts. -/
def plainFirst : List TypeHint → Value → Option Value
  | [], _ => Option.none
  | member :: rest, v =>
    match plain member v with
    | some w => some w
    | Option.none => plainFirst rest v
termination_by structural members => members

/-- The fields of a record from a map: a value given is coerced, an absent one has its
default. -/
def plainFields : List FieldSpec → Entries Value → Option (List (String × Value))
  | [], _ => some []
  | ⟨name, hint, default?⟩ :: rest, entries => do
    let value ←
      match entries.get? name with
      | some given => plain hint given
      | Option.none => default?
    let values ← plainFields rest entries
    some ((name, value) :: values)
termination_by structural fields => fields

end

/-- The fields built plainly begin with the value of the first field, coerced or its default. -/
theorem plainFields_cons_eq_some_iff {name : String} {hint : TypeHint} {default? : Option Value}
    {rest : List FieldSpec} {entries : Entries Value} {values : List (String × Value)} :
    plainFields (⟨name, hint, default?⟩ :: rest) entries = some values ↔
      ∃ value others, values = (name, value) :: others ∧
        (match entries.get? name with
          | some given => hint.plain given = some value
          | Option.none => default? = some value) ∧
        plainFields rest entries = some others := by
  cases hg : entries.get? name <;>
    simp only [plainFields, hg, Option.bind_eq_bind, Option.bind_eq_some_iff, Option.some.injEq]
  all_goals
    constructor
    · rintro ⟨value, hv, others, ho, rfl⟩
      exact ⟨value, others, rfl, hv, ho⟩
    · rintro ⟨value, others, rfl, hv, ho⟩
      exact ⟨value, hv, others, ho, rfl⟩

/-- The only hint of the missing value. -/
theorem eq_none_of_isNone {h : TypeHint} (hn : h.isNone = true) : h = .none := by
  cases h <;> first | rfl | cases hn

/-- A union that makes a hint optional has that hint and none, in one order or the other. -/
theorem eq_pair_of_optionalMember {members : List TypeHint} {inner : TypeHint}
    (h : optionalMember? members = some inner) : members = [inner, .none] ∨ members = [.none, inner] := by
  match members with
  | [] | [_] | _ :: _ :: _ :: _ => cases h
  | [a, b] =>
    simp only [optionalMember?] at h
    split at h
    · rename_i ha
      split at h
      · cases h
      · cases h
        exact .inr (by rw [eq_none_of_isNone ha])
    · split at h
      · rename_i hb
        cases h
        exact .inl (by rw [eq_none_of_isNone hb])
      · cases h

/-- A union of two is the first one, or else the second. -/
theorem plainFirst_pair (a b : TypeHint) (v : Value) :
    plainFirst [a, b] v = (a.plain v).or (b.plain v) := by
  rw [plainFirst, plainFirst, plainFirst]
  cases a.plain v with
  | some w => rfl
  | none => cases b.plain v <;> rfl

mutual

/-- Null stays null under every hint that takes it. -/
theorem plain_null : ∀ {h : TypeHint} {w : Value}, h.plain .null = some w → w = .null
  | .any, _, h | .frame, _, h | .foreign _, _, h | .none, _, h => by
    cases h
    rfl
  | .scalar kind, _, h => by cases kind <;> cases h
  | .list _, _, h | .dict _ _, _, h | .record ⟨_, _⟩, _, h => by cases h
  | .union _, _, h => plainFirst_null h

/-- Null stays null under every union that takes it. -/
theorem plainFirst_null : ∀ {members : List TypeHint} {w : Value},
    plainFirst members .null = some w → w = .null
  | member :: rest, w, h => by
    rw [plainFirst] at h
    split at h
    · rename_i hm
      cases h
      exact plain_null hm
    · exact plainFirst_null h

end

end TypeHint

namespace Coercion

open Sequence

/-- The outcome of a visit as the value it gives. -/
def outcome (given : Value) (x : Except Rejection Coercion) : Option Value :=
  (x.map (·.apply given)).toOption

/-- Putting a coerced value in its place keeps the outcome. -/
theorem toOption_applied (given : Value) (x : Except Rejection Coercion) :
    (x >>= fun c => pure (c.apply given)).toOption = outcome given x := by
  cases x <;> rfl

/-- A value built from what a computation gives is rebuilt. -/
theorem outcome_rebuilt {α : Type} (given : Value) (x : Except Rejection α) (build : α → Value) :
    outcome given (x >>= fun a => .ok (.rebuilt (build a))) = x.toOption.map build := by
  cases x <;> rfl

/-- Nothing but parts that pass through leaves every part as it is. -/
theorem zipWith_apply_of_passThrough {parts : List Coercion} {values : List Value}
    (hp : parts.all isPassThrough = true) (hl : parts.length = values.length) :
    parts.zipWith apply values = values := by
  induction parts generalizing values with
  | nil => simpa using hl.symm
  | cons part parts ih =>
    cases values with
    | nil => simp at hl
    | cons value values =>
      simp only [List.all_cons, Bool.and_eq_true] at hp
      have hpart : part.apply value = value := by
        cases part with
        | passThrough => rfl
        | rebuilt w => cases hp.1
      rw [List.zipWith_cons_cons, hpart, ih hp.2 (by simpa using hl)]

/-- A value made of parts becomes what its parts become, whether it is rebuilt or not. -/
theorem apply_ofParts {parts : List Coercion} {values : List Value} (build : List Value → Value)
    (hl : parts.length = values.length) :
    (ofParts parts fun parts => build (parts.zipWith apply values)).apply (build values) =
      build (parts.zipWith apply values) := by
  unfold ofParts
  split
  · rename_i hp
    rw [zipWith_apply_of_passThrough hp hl]
    rfl
  · rfl

/-- Visits of places, each of which agrees with a plain coercion, give the parts of the plain
run. -/
theorem mapM_visits {β : Type} {visit : β → Except Rejection Coercion} {f : Value → Option Value}
    (value : β → Value) (places : List β)
    (h : ∀ p ∈ places, outcome (value p) (visit p) = f (value p)) :
    ((places.mapM visit).toOption.map fun parts => parts.zipWith apply (places.map value)) =
      (places.map value).mapM f := by
  induction places with
  | nil => rfl
  | cons p places ih =>
    have hp := h p (by simp)
    have hrest := ih fun q hq => h q (by simp [hq])
    rw [List.map_cons, List.mapM_cons, List.mapM_cons, ← hp, ← hrest]
    cases visit p with
    | error r => rfl
    | ok c =>
      cases places.mapM visit <;> rfl

/-- Visits of places succeed with one part for each place. -/
theorem length_of_mapM {β : Type} {visit : β → Except Rejection Coercion} {places : List β}
    {parts : List Coercion} (h : places.mapM visit = .ok parts) :
    parts.length = places.length := by
  have ho := congrArg Except.toOption h
  rw [toOption_mapM] at ho
  exact (mapM_eq_some_iff.mp ho).length_eq.symm

/-- The copy after the remaining items: what the parts make of them stands in front of the copy
so far, or of all the items before them where there was none, and a copy is begun by the first
part that is rebuilt. -/
theorem visitItemsFrom_eq (visit : Visit) (path : Path) (i : Nat) (before : List Value)
    (copy : Option (List Value)) (items : List Value) :
    visitItemsFrom visit path i before copy items =
      ((items.zipIdx i).mapM fun p => visit (path ++ [.index p.2]) p.1).map fun parts =>
        if parts.all isPassThrough then copy.map (items.reverse ++ ·)
        else some ((parts.zipWith apply items).reverse ++ copy.getD before) := by
  induction items generalizing i before copy with
  | nil => cases copy <;> rfl
  | cons item rest ih =>
    rw [visitItemsFrom, List.zipIdx_cons, List.mapM_cons]
    cases visit (path ++ [.index i]) item with
    | error r => rfl
    | ok c =>
      cases hp : (rest.zipIdx (i + 1)).mapM fun p => visit (path ++ [.index p.2]) p.1 with
      | error r => cases c <;> simp [ih, hp, bind, Except.bind, Except.map]
      | ok parts =>
        have hl : parts.length = rest.length := by
          rw [length_of_mapM hp, List.length_zipIdx]
        by_cases ha : parts.all isPassThrough = true
        · have hz := zipWith_apply_of_passThrough ha hl
          cases c <;> cases copy <;>
            simp [ih, hp, ha, hz, bind, Except.bind, pure, Except.pure, Except.map, apply,
              isPassThrough]
        · cases c <;> cases copy <;>
            simp [ih, hp, ha, bind, Except.bind, pure, Except.pure, Except.map, apply,
              isPassThrough]

/-- Starting the copy late does not show: a list is made of the parts of all its items. -/
theorem visitItems_eq_ofParts (visit : Visit) (path : Path) (items : List Value) :
    visitItems visit path items =
      (items.zipIdx.mapM fun p => visit (path ++ [.index p.2]) p.1).map fun parts =>
        ofParts parts fun parts => .list (parts.zipWith apply items) := by
  rw [visitItems, visitItemsFrom_eq]
  cases items.zipIdx.mapM fun p => visit (path ++ [.index p.2]) p.1 with
  | error r => rfl
  | ok parts =>
    by_cases ha : parts.all isPassThrough = true <;>
      simp [ofParts, ha, bind, Except.bind, Except.map]

/-- Items of a list become what the plain run over them gives. -/
theorem outcome_visitItems {visit : Visit} {f : Value → Option Value}
    (h : ∀ path v, outcome v (visit path v) = f v) (path : Path) (items : List Value) :
    outcome (.list items) (visitItems visit path items) = (items.mapM f).map .list := by
  have hrun := mapM_visits Prod.fst items.zipIdx
    (fun p _ => h (path ++ [.index p.2]) p.1)
  rw [List.zipIdx_map_fst] at hrun
  rw [← hrun, visitItems_eq_ofParts]
  cases hp : items.zipIdx.mapM fun p => visit (path ++ [.index p.2]) p.1 with
  | error r => rfl
  | ok parts =>
    have hl : parts.length = items.length := by
      rw [length_of_mapM hp, List.length_zipIdx]
    exact congrArg some (apply_ofParts Value.list hl)

/-- Values put back under their names are a run over the entries. -/
theorem mapM_entries (f : Value → Option Value) (entries : Entries Value) :
    (entries.mapM fun e => (f e.2).map (e.1, ·)) =
      ((entries.map Prod.snd).mapM f).map fun values => (entries.map Prod.fst).zip values := by
  induction entries with
  | nil => rfl
  | cons e entries ih =>
    rw [List.map_cons, List.map_cons, List.mapM_cons, List.mapM_cons, ih]
    cases f e.2 with
    | none => rfl
    | some v => cases (entries.map Prod.snd).mapM f <;> rfl

/-- Coerced values stay under the names of their entries. -/
theorem zipWith_entries (parts : List Coercion) (entries : Entries Value) :
    parts.zipWith (fun part entry => (entry.1, part.apply entry.2)) entries =
      (entries.map Prod.fst).zip (parts.zipWith apply (entries.map Prod.snd)) := by
  induction parts generalizing entries with
  | nil => simp
  | cons part parts ih =>
    cases entries with
    | nil => rfl
    | cons e entries =>
      rw [List.zipWith_cons_cons, ih]
      rfl

/-- Values of a map become what the plain run over its entries gives. -/
theorem outcome_visitEntries {visit : Visit} {f : Value → Option Value}
    (h : ∀ path v, outcome v (visit path v) = f v) (path : Path) (entries : Entries Value) :
    outcome (.map entries) (visitEntries visit path entries) =
      (entries.mapM fun e => (f e.2).map (e.1, ·)).map .map := by
  have hrun := mapM_visits Prod.snd entries
    (fun e _ => h (path ++ [.name e.1]) e.2)
  rw [mapM_entries, ← hrun, visitEntries]
  cases hp : entries.mapM fun e => visit (path ++ [.name e.1]) e.2 with
  | error r => rfl
  | ok parts =>
    have hl : parts.length = (entries.map Prod.snd).length := by
      rw [length_of_mapM hp, List.length_map]
    have hz : (entries.map Prod.fst).zip (entries.map Prod.snd) = entries :=
      (List.zip_of_prod rfl rfl).symm
    have ha := apply_ofParts (fun values => .map ((entries.map Prod.fst).zip values)) hl
    rw [hz] at ha
    refine congrArg some (Eq.trans ?_ ha)
    simp only [zipWith_entries]

/-- Rows of a frame become the list that the plain run over them gives. -/
theorem outcome_visitRows {visit : Path → Entries Value → Except Rejection Coercion}
    {f : Entries Value → Option Value}
    (h : ∀ path entries, outcome (.map entries) (visit path entries) = f entries)
    (path : Path) (frame : Frame) :
    outcome (.frame frame) (visitRows visit path frame) =
      (frame.rows.mapM fun row => f (frame.rowEntries row)).map .list := by
  have hmap : (frame.rows.zipIdx.mapM fun row => f (frame.rowEntries row.1)) =
      frame.rows.mapM fun row => f (frame.rowEntries row) := by
    conv => rhs; rw [← List.zipIdx_map_fst 0 frame.rows, List.mapM_map]
    rfl
  have hrow (row : List Value × Nat) : f (frame.rowEntries row.1) = (do
      let part ← visit (path ++ [.index row.2]) (frame.rowEntries row.1)
      pure (part.apply (.map (frame.rowEntries row.1))) : Except Rejection Value).toOption := by
    rw [toOption_applied, h]
  simp only [← hmap, hrow]
  rw [← toOption_mapM]
  exact outcome_rebuilt _ _ _

/-- A scalar becomes what it plainly becomes. -/
theorem outcome_visitScalar (kind : ScalarKind) (path : Path) (v : Value) :
    outcome v (visitScalar kind path v) = TypeHint.plainScalar kind v := by
  cases kind <;> cases v <;> rfl

/-- Outcomes of the members are those of the hints one by one. -/
@[simp] theorem visitMembers_eq_map (members : List TypeHint) (path : Path) (v : Value) :
    visitMembers members path v = members.map fun member => visit member path v := by
  induction members with
  | nil => rfl
  | cons member rest ih => rw [visitMembers, ih]; rfl

/-- The first member that accepts is the first one with a plain result. -/
theorem outcome_firstAccepted {members : List TypeHint} {path : Path} {v : Value} (r : Rejection)
    (h : ∀ member ∈ members, outcome v (visit member path v) = member.plain v) :
    outcome v
        (match firstAccepted? (members.map fun member => visit member path v) with
          | some c => .ok c
          | none => .error r) =
      TypeHint.plainFirst members v := by
  induction members with
  | nil => rfl
  | cons member rest ih =>
    have hm := h member (by simp)
    have hr := ih fun m hm => h m (by simp [hm])
    rw [TypeHint.plainFirst, ← hm, ← hr, List.map_cons]
    cases visit member path v <;> rfl

/-- A union becomes what its first member that accepts makes of the value; the short way of
optional hints gives the same, since null stays null under every hint that takes it. -/
theorem outcome_visitUnion {members : List TypeHint} {path : Path} {v : Value}
    (h : ∀ member ∈ members, outcome v (visit member path v) = member.plain v) :
    outcome v (visitUnion members (members.map fun member => visit member path v) path v) =
      TypeHint.plainFirst members v := by
  have hany := outcome_firstAccepted (.clash path (.union members) v) h
  match members with
  | [] | [_] | _ :: _ :: _ :: _ => exact hany
  | [a, b] =>
    have ha := h a (by simp)
    have hb := h b (by simp)
    rw [TypeHint.plainFirst_pair] at hany ⊢
    simp only [List.map_cons, List.map_nil] at hany ⊢
    unfold visitUnion
    dsimp only
    split
    · rename_i hc
      simp only [Bool.and_eq_true, Bool.not_eq_true'] at hc
      obtain rfl := TypeHint.eq_none_of_isNone hc.1
      rw [TypeHint.plain]
      split
      · rfl
      · rw [hb, Option.none_or]
    · split
      · rename_i hc
        simp only [Bool.and_eq_true, Bool.not_eq_true'] at hc
        obtain rfl := TypeHint.eq_none_of_isNone hc.1
        rw [TypeHint.plain]
        split
        · rename_i hv
          obtain rfl := Value.eq_null_of_isNull hv
          cases hp : a.plain .null with
          | none => rfl
          | some w => rw [TypeHint.plain_null hp]; rfl
        · rw [ha, Option.or_none]
      · exact hany

mutual

/-- Coercion gives what plain coercion gives, wherever the value lies. -/
theorem outcome_visit : ∀ (h : TypeHint) (path : Path) (v : Value),
    outcome v (visit h path v) = h.plain v
  | .any, _, _ | .frame, _, _ | .foreign _, _, _ => rfl
  | .none, path, v => by
    rw [visit, TypeHint.plain]
    split <;> rfl
  | .scalar kind, path, v => outcome_visitScalar kind path v
  | .union members, path, v => by
    rw [visit, visitMembers_eq_map, TypeHint.plain]
    exact outcome_visitUnion fun member hm => outcome_visit_member members member hm path v
  | .list element, path, v => by
    have hitems := outcome_visitItems (outcome_visit element) path
    cases v with
    | list items => exact hitems items
    | frame f =>
      have hlist := toOption_map (visitItems (visit element) path f.items)
        fun c => c.apply (.list f.items)
      exact (outcome_rebuilt _ _ _).trans (hlist.symm.trans (hitems f.items))
    | _ => rfl
  | .dict key element, path, v => by
    have hentries := outcome_visitEntries (outcome_visit element)
    cases v with
    | map entries => exact hentries path entries
    | frame f => exact outcome_visitRows hentries path f
    | _ => rfl
  | .record ⟨name, fields⟩, path, v => by
    have hfields (path : Path) (entries : Entries Value) :=
      (outcome_rebuilt (.map entries) (visitFields fields path entries) (.record ⟨name, ·⟩)).trans
        (congrArg (Option.map _) (toOption_visitFields fields path entries))
    cases v with
    | record r =>
      rw [visit, TypeHint.plain]
      split <;> rfl
    | map entries => exact hfields path entries
    | frame f => exact outcome_visitRows hfields path f
    | _ => rfl

/-- Coercion gives what plain coercion gives under each member of a union. -/
theorem outcome_visit_member : ∀ (members : List TypeHint), ∀ member ∈ members,
    ∀ (path : Path) (v : Value), outcome v (visit member path v) = member.plain v
  | first :: rest, member, hm, path, v => by
    rcases List.mem_cons.mp hm with he | hm
    · rw [he]
      exact outcome_visit first path v
    · exact outcome_visit_member rest member hm path v

/-- The fields of a record built from a map are those built plainly. -/
theorem toOption_visitFields : ∀ (fields : List FieldSpec) (path : Path)
    (entries : Entries Value),
    (visitFields fields path entries).toOption = TypeHint.plainFields fields entries
  | [], _, _ => rfl
  | ⟨name, hint, default?⟩ :: rest, path, entries => by
    have hrest := toOption_visitFields rest path entries
    cases hg : entries.get? name with
    | some given =>
      have hgiven := outcome_visit hint (path ++ [.name name]) given
      simp only [visitFields, TypeHint.plainFields, hg, ← hgiven, ← hrest]
      cases visit hint (path ++ [.name name]) given with
      | error r => rfl
      | ok c => cases visitFields rest path entries <;> rfl
    | none =>
      simp only [visitFields, TypeHint.plainFields, hg, ← hrest]
      cases default? with
      | none => rfl
      | some value => cases visitFields rest path entries <;> rfl

end

end Coercion

namespace TypeHint

open Coercion Sequence

/-- The value of a coercion is the plain one. -/
theorem toOption_coerce (h : TypeHint) (v : Value) : (h.coerce v).toOption = h.plain v := by
  rw [← outcome_visit h [] v, coerce, coerce?, outcome]
  cases visit h [] v <;> rfl

/-- Coercion gives a value exactly where the plain one gives it. -/
theorem coerce_eq_ok_iff {h : TypeHint} {v w : Value} :
    h.coerce v = .ok w ↔ h.plain v = some w := by
  rw [← toOption_eq_some_iff, toOption_coerce]

/-- Validation accepts exactly the values that have a plain coercion. -/
theorem validate_eq_ok_iff {h : TypeHint} {v : Value} :
    h.validate v = .ok () ↔ (h.plain v).isSome := by
  rw [← toOption_coerce, validate]
  cases h.coerce v <;> simp [Except.map, Except.toOption]

/-- Coercion is plain coercion: it accepts the same values and gives the same results,
validation accepts what has a plain result, and at every place a value that passes through is
its own plain result, as a rebuilt one is the plain result of the given value. -/
theorem coercion_is_plain (h : TypeHint) (v : Value) :
    (∀ w, h.coerce v = .ok w ↔ h.plain v = some w) ∧
      (h.validate v = .ok () ↔ (h.plain v).isSome) ∧
      (∀ path, visit h path v = .ok .passThrough → h.plain v = some v) ∧
      ∀ path w, visit h path v = .ok (.rebuilt w) → h.plain v = some w := by
  refine ⟨fun w => coerce_eq_ok_iff, validate_eq_ok_iff, fun path hv => ?_, fun path w hv => ?_⟩
  · rw [← outcome_visit h path v, hv]
    rfl
  · rw [← outcome_visit h path v, hv]
    rfl

/-- A list whose only wide item lies behind items that pass through: it is rebuilt as the plain
coercion says, and the list that results passes through. -/
theorem coercion_is_plain_optional_items :
    let h := TypeHint.list (.optional (.scalar .float))
    let given := Value.list [.null, .double (.zero true), .long 2]
    let result := Value.list [.null, .double (.zero true), .double (.ofInt 2)]
    visit h [.name "x"] given = .ok (.rebuilt result) ∧ h.plain given = some result ∧
      visit h [] result = .ok .passThrough ∧ h.plain result = some result := by
  intro h given result
  have hg : visit h [.name "x"] given = .ok (.rebuilt result) := rfl
  have hr : visit h [] result = .ok .passThrough := rfl
  exact ⟨hg, (coercion_is_plain h given).2.2.2 _ _ hg, hr, (coercion_is_plain h result).2.2.1 _ hr⟩

end TypeHint

end TypedModel
