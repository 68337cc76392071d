import AliasCheck.Proofs.RecordMembers
import AliasCheck.Registry

/-!
# Which documents are registries

Inside a document the decoders accept just what the grammar of records describes. The induction is
on the document; it carries along that every part to be decoded stands in a place for a record, in
which no list stands.
-/

namespace AliasCheck
namespace Decode

open Json (Node Item Field IsSchema IsProperty DistinctItems DistinctMembers itemsNesting
  membersNesting recordsAreObjects itemsAreObjects membersAreObjects)

theorem finishRecord_eq_ok {r : Record} {missing : Problem} {stop : Nat} {s : Schema} :
    finishRecord r missing stop = .ok s
      ↔ ∃ name, r.name = some name ∧ r.toSchema name = .ok s := by
  rw [finishRecord]
  cases r.name with
  | none => exact ⟨nofun, nofun⟩
  | some name =>
    rw [mapError_eq_ok]
    exact ⟨fun h => ⟨name, rfl, h⟩, fun ⟨_, hname, h⟩ => by cases hname; exact h⟩

/-! ## Steps of the decoders -/

/-- The end of a list adds nothing to its items. -/
theorem orNull_isList_array {α : Type} {R : Json → α → Prop} {xs : List Json}
    {body : Except Error (List α)} (h : ∀ as, body = .ok as ↔ List.Forall₂ R xs as) (stop : Nat)
    {o : Option (List α)} :
    (body >>= fun as => listEnd (.ok stop) >>= fun _ => .ok (some as)) = .ok o
      ↔ OrNull (IsList R) (.array xs) o := by
  have hlist : Json.array xs ≠ .null := nofun
  rw [orNull_of_ne hlist, bind_eq_ok]
  constructor
  · rintro ⟨as, has, hend⟩
    cases hend
    exact ⟨as, ⟨xs, rfl, (h as).mp has⟩, rfl⟩
  · rintro ⟨as, ⟨_, hxs, has⟩, rfl⟩
    cases hxs
    exact ⟨as, (h as).mpr has, rfl⟩

theorem orNull_isList_null {α : Type} {R : Json → α → Prop} {o : Option (List α)} :
    OrNull (IsList R) .null o ↔ o = none := by
  refine orNull_null ?_
  rintro as ⟨items, hlist, -⟩
  cases hlist

theorem not_orNull_isList {α : Type} {R : Json → α → Prop} {x : Json} (hnull : x ≠ .null)
    (hlist : ∀ items, x ≠ .array items) {o : Option (List α)} : ¬ OrNull (IsList R) x o := by
  rw [orNull_of_ne hnull]
  rintro ⟨_, ⟨items, hx, -⟩, -⟩
  exact hlist items hx

/-- A member is entered, and the others after it. -/
theorem atKey_bind_eq_ok {Rec V : Type} {key : String} {after : Nat} {result : Except Error Rec}
    {set : V → Rec} {p : V → Prop} (h : ∀ r, result = .ok r ↔ ∃ a, p a ∧ r = set a)
    {more : Rec → Except Error Rec} {r' : Rec} :
    (atKey key after result >>= more) = .ok r' ↔ ∃ a, p a ∧ more (set a) = .ok r' := by
  rw [bind_eq_ok]
  constructor
  · rintro ⟨r, hr, hmore⟩
    obtain ⟨a, ha, rfl⟩ := (h r).mp (mapError_eq_ok.mp hr)
    exact ⟨a, ha, hmore⟩
  · rintro ⟨a, ha, hmore⟩
    exact ⟨set a, mapError_eq_ok.mpr ((h _).mpr ⟨a, ha, rfl⟩), hmore⟩

/-- The members of a record are entered one after the other. -/
theorem recordFields_cons_eq_ok {depth afterKey after : Nat} {node : Node} {fields : List Field}
    {f : RecordField} {x : Json} {members : Table Json} {r r' : Record}
    (hf : f.toKey ∉ Table.names members) (hold : r.get f = none)
    (hfield : ∀ next, recordField r f node (fun _ => optionalSchemas depth node)
      (fun _ => optionalProperties depth node) = .ok next ↔ ∃ a, f.Holds x a ∧ next = r.set f a)
    (hrest : ∀ a, recordFields depth (r.set f a) fields = .ok r' ↔ Known members ∧
      Takes RecordField.toKey Record.get RecordField.Holds (r.set f a) members r') :
    recordFields depth r (⟨.ok f.toKey, afterKey, none, node, after⟩ :: fields) = .ok r' ↔
      Known ((f.toKey, x) :: members) ∧
      Takes RecordField.toKey Record.get RecordField.Holds r ((f.toKey, x) :: members) r' := by
  have hhas : r.has f = false := by
    rw [Record.has_eq, hold]
    rfl
  rw [recordFields_cons f f.ofKey?_toKey hhas, atKey_bind_eq_ok hfield, known_cons,
    takes_cons RecordField.toKey_injective Record.get_set_self Record.get_set_of_ne hf]
  simp only [hrest]
  constructor
  · rintro ⟨a, ha, hknown, htakes⟩
    exact ⟨hknown, a, ha, htakes⟩
  · rintro ⟨hknown, a, ha, htakes⟩
    exact ⟨a, ha, hknown, htakes⟩

/-- A member without a field is an error. -/
theorem recordFields_unknown {depth afterKey after : Nat} {key : String} {node : Node}
    {fields : List Field} {r r' : Record} (hkey : ∀ f : RecordField, f.toKey ≠ key) :
    recordFields depth r (⟨.ok key, afterKey, none, node, after⟩ :: fields) ≠ .ok r' := by
  rw [recordFields]
  simp [keyOf, ofFaults, mapError_ok, RecordField.ofKey?_eq_none hkey, bind, Except.bind]

/-- The members of a property's record are entered one after the other. -/
theorem propertyFields_cons_eq_ok {depth afterKey after : Nat} {node : Node} {fields : List Field}
    {f : PropertyField} {x : Json} {members : Table Json} {r r' : PropertyRecord}
    (hf : f.toKey ∉ Table.names members) (hold : r.get f = none)
    (hfield : ∀ next, propertyField r f node (fun _ => schema depth node) = .ok next
      ↔ ∃ a, f.Holds x a ∧ next = r.set f a)
    (hrest : ∀ a, propertyFields depth (r.set f a) fields = .ok r' ↔
      Takes PropertyField.toKey PropertyRecord.get PropertyField.Holds (r.set f a) members r') :
    propertyFields depth r (⟨.ok f.toKey, afterKey, none, node, after⟩ :: fields) = .ok r' ↔
      Takes PropertyField.toKey PropertyRecord.get PropertyField.Holds r
        ((f.toKey, x) :: members) r' := by
  have hhas : r.has f = false := by
    rw [PropertyRecord.has_eq, hold]
    rfl
  rw [propertyFields_cons f f.ofKey?_toKey hhas, atKey_bind_eq_ok hfield,
    takes_cons PropertyField.toKey_injective PropertyRecord.get_set_self
      PropertyRecord.get_set_of_ne hf]
  simp only [hrest]

/-- A member without a field is skipped. -/
theorem propertyFields_skip {depth afterKey after : Nat} {key : String} {node : Node} {x : Json}
    {fields : List Field} {r : PropertyRecord} (hkey : ∀ f : PropertyField, f.toKey ≠ key)
    (hnode : node.Denotes x) :
    propertyFields depth r (⟨.ok key, afterKey, none, node, after⟩ :: fields)
      = propertyFields depth r fields := by
  obtain ⟨stop, hfinish⟩ := hnode.finish_ok
  rw [propertyFields]
  simp [keyOf, ofFaults, mapError_ok, PropertyField.ofKey?_eq_none hkey, colon, hfinish, bind,
    Except.bind]

/-- An item is decoded, and the others after it. -/
theorem atIndex_bind_eq_ok {α : Type} {R : Json → α → Prop} {x : Json} {xs : List Json}
    {first : Except Error α} {more : Except Error (List α)} (hfirst : ∀ a, first = .ok a ↔ R x a)
    (hmore : ∀ as, more = .ok as ↔ List.Forall₂ R xs as) (index after : Nat) {as : List α} :
    (atIndex index after first >>= fun a => more >>= fun as => .ok (a :: as)) = .ok as
      ↔ List.Forall₂ R (x :: xs) as := by
  rw [List.forall₂_cons_left_iff, bind_eq_ok]
  constructor
  · rintro ⟨a, ha, h⟩
    obtain ⟨as, has, h⟩ := bind_eq_ok.mp h
    cases h
    exact ⟨a, as, (hfirst a).mp (mapError_eq_ok.mp ha), (hmore as).mp has, rfl⟩
  · rintro ⟨a, as, ha, has, rfl⟩
    exact ⟨a, mapError_eq_ok.mpr ((hfirst a).mpr ha), bind_eq_ok.mpr ⟨as, (hmore as).mpr has, rfl⟩⟩

/-! ## Whole records -/

mutual

theorem schema_eq_ok (x : Json) {node : Node} {depth : Nat} (hnode : node.Denotes x)
    (hkeys : x.DistinctKeys) (hdepth : x.nesting ≤ depth)
    (hplace : recordsAreObjects .schema x = true) {s : Schema} :
    schema depth node = .ok s ↔ IsSchema x s := by
  match x with
  | .array items => cases hplace
  | .null | .bool _ | .number _ | .string _ =>
    cases hnode
    exact ⟨nofun, nofun⟩
  | .object members =>
    cases hnode with
    | object hfields =>
    cases depth with
    | zero => exact absurd hdepth (Nat.not_succ_le_zero _)
    | succ depth =>
      have hread : ∀ {r : Record}, recordFields depth .empty _ = .ok r ↔ Known members ∧
          Takes RecordField.toKey Record.get RecordField.Holds .empty members r :=
        recordFields_eq_ok members hfields hkeys.1 hkeys.2 (Nat.le_of_succ_le_succ hdepth) hplace
          fun f _ => by cases f <;> rfl
      rw [isSchema_object_iff]
      constructor
      · intro h
        obtain ⟨r, hr, hfinish⟩ := bind_eq_ok.mp h
        obtain ⟨hknown, htakes⟩ := hread.mp hr
        obtain ⟨name, hname, hs⟩ := finishRecord_eq_ok.mp hfinish
        exact ⟨hknown, r, name, htakes, hname, hs⟩
      · rintro ⟨hknown, r, name, htakes, hname, hs⟩
        exact bind_eq_ok.mpr
          ⟨r, hread.mpr ⟨hknown, htakes⟩, finishRecord_eq_ok.mpr ⟨name, hname, hs⟩⟩

theorem recordFields_eq_ok (members : Table Json) {fields : List Field} {depth : Nat}
    (h : Field.DenoteAll fields members) (hnames : (Table.names members).Nodup)
    (hkeys : DistinctMembers members) (hdepth : membersNesting members ≤ depth)
    (hplace : membersAreObjects .schema members = true) {r r' : Record}
    (hfresh : ∀ f : RecordField, f.toKey ∈ Table.names members → r.get f = none) :
    recordFields depth r fields = .ok r' ↔
      Known members ∧
      Takes RecordField.toKey Record.get RecordField.Holds r members r' := by
  match members with
  | [] =>
    cases h
    rw [takes_nil]
    constructor
    · intro h
      cases h
      exact ⟨List.forall_mem_nil _, fun _ => rfl⟩
    · rintro ⟨-, htakes⟩
      rw [Record.ext_get htakes]
      rfl
  | (key, x) :: members =>
    cases h with
    | @cons _ _ node _ _ _ _ hx hmembers =>
    obtain ⟨hfirst, hmore⟩ := Nat.max_le.mp hdepth
    obtain ⟨hnew, hdistinct⟩ := List.nodup_cons.mp hnames
    rw [membersAreObjects, Bool.and_eq_true] at hplace
    by_cases hkey : ∃ f : RecordField, f.toKey = key
    · obtain ⟨f, rfl⟩ := hkey
      have hschemas : f = .params ∨ f = .types →
          ∀ o, optionalSchemas depth node = .ok o ↔ OrNull (IsList IsSchema) x o := by
        intro hf o
        have hunder : Json.Place.under f.toKey .schema = .schemas := by
          rcases hf with rfl | rfl <;> rfl
        rw [hunder] at hplace
        exact optionalSchemas_eq_ok x hx hkeys.1 hfirst hplace.1
      have hproperties : f = .properties →
          ∀ o, optionalProperties depth node = .ok o ↔ OrNull (IsList IsProperty) x o := by
        intro hf o
        subst hf
        exact optionalProperties_eq_ok x hx hkeys.1 hfirst hplace.1
      refine recordFields_cons_eq_ok hnew (hfresh f List.mem_cons_self)
        (fun _ => recordField_eq_ok hx f hschemas hproperties) fun a => ?_
      refine recordFields_eq_ok members hmembers hdistinct hkeys.2 hmore hplace.2 fun g hg => ?_
      have hne : g ≠ f := fun h => hnew (h ▸ hg)
      rw [Record.get_set_of_ne r f a g hne]
      exact hfresh g (List.mem_cons_of_mem _ hg)
    · refine iff_of_false (recordFields_unknown fun f hf => hkey ⟨f, hf⟩) ?_
      rintro ⟨hknown, -⟩
      exact hkey (hknown key List.mem_cons_self)

theorem optionalSchemas_eq_ok (x : Json) {node : Node} {depth : Nat} (hnode : node.Denotes x)
    (hkeys : x.DistinctKeys) (hdepth : x.nesting ≤ depth)
    (hplace : recordsAreObjects .schemas x = true)
    {o : Option (List Schema)} :
    optionalSchemas depth node = .ok o ↔ OrNull (IsList IsSchema) x o := by
  match x with
  | .null =>
    cases hnode
    rw [orNull_isList_null]
    exact ok_eq_ok
  | .array items =>
    cases hnode with
    | array hitems =>
    cases depth with
    | zero => exact absurd hdepth (Nat.not_succ_le_zero _)
    | succ depth =>
      exact orNull_isList_array (fun _ => schemaItems_eq_ok items hitems hkeys
        (Nat.le_of_succ_le_succ hdepth) hplace 0) _
  | .bool _ | .number _ | .string _ | .object _ =>
    cases hnode
    refine iff_of_false nofun (not_orNull_isList ?_ ?_)
    · exact nofun
    · exact nofun

theorem schemaItems_eq_ok (xs : List Json) {items : List Item} {depth : Nat}
    (h : Item.DenoteAll items xs) (hkeys : DistinctItems xs) (hdepth : itemsNesting xs ≤ depth)
    (hplaces : itemsAreObjects .schema xs = true) (index : Nat) {ss : List Schema} :
    schemaItems depth index items = .ok ss ↔ List.Forall₂ IsSchema xs ss := by
  match xs with
  | [] =>
    cases h
    rw [List.forall₂_nil_left_iff]
    exact ok_eq_ok
  | x :: xs =>
    cases h with
    | cons hx hxs =>
    obtain ⟨hfirst, hmore⟩ := Nat.max_le.mp hdepth
    rw [itemsAreObjects, Bool.and_eq_true] at hplaces
    exact atIndex_bind_eq_ok (fun _ => schema_eq_ok x hx hkeys.1 hfirst hplaces.1)
      (fun _ => schemaItems_eq_ok xs hxs hkeys.2 hmore hplaces.2 (index + 1)) index _

theorem optionalProperties_eq_ok (x : Json) {node : Node} {depth : Nat} (hnode : node.Denotes x)
    (hkeys : x.DistinctKeys) (hdepth : x.nesting ≤ depth)
    (hplace : recordsAreObjects .properties x = true)
    {o : Option (List Property)} :
    optionalProperties depth node = .ok o ↔ OrNull (IsList IsProperty) x o := by
  match x with
  | .null =>
    cases hnode
    rw [orNull_isList_null]
    exact ok_eq_ok
  | .array items =>
    cases hnode with
    | array hitems =>
    cases depth with
    | zero => exact absurd hdepth (Nat.not_succ_le_zero _)
    | succ depth =>
      exact orNull_isList_array (fun _ => propertyItems_eq_ok items hitems hkeys
        (Nat.le_of_succ_le_succ hdepth) hplace 0) _
  | .bool _ | .number _ | .string _ | .object _ =>
    cases hnode
    refine iff_of_false nofun (not_orNull_isList ?_ ?_)
    · exact nofun
    · exact nofun

theorem propertyItems_eq_ok (xs : List Json) {items : List Item} {depth : Nat}
    (h : Item.DenoteAll items xs) (hkeys : DistinctItems xs) (hdepth : itemsNesting xs ≤ depth)
    (hplaces : itemsAreObjects .property xs = true) (index : Nat) {ps : List Property} :
    propertyItems depth index items = .ok ps ↔ List.Forall₂ IsProperty xs ps := by
  match xs with
  | [] =>
    cases h
    rw [List.forall₂_nil_left_iff]
    exact ok_eq_ok
  | x :: xs =>
    cases h with
    | cons hx hxs =>
    obtain ⟨hfirst, hmore⟩ := Nat.max_le.mp hdepth
    rw [itemsAreObjects, Bool.and_eq_true] at hplaces
    exact atIndex_bind_eq_ok (fun _ => property_eq_ok x hx hkeys.1 hfirst hplaces.1)
      (fun _ => propertyItems_eq_ok xs hxs hkeys.2 hmore hplaces.2 (index + 1)) index _

theorem property_eq_ok (x : Json) {node : Node} {depth : Nat} (hnode : node.Denotes x)
    (hkeys : x.DistinctKeys) (hdepth : x.nesting ≤ depth)
    (hplace : recordsAreObjects .property x = true) {p : Property} :
    property depth node = .ok p ↔ IsProperty x p := by
  match x with
  | .array items => cases hplace
  | .null | .bool _ | .number _ | .string _ =>
    cases hnode
    exact ⟨nofun, nofun⟩
  | .object members =>
    cases hnode with
    | @object _ stop _ _ hfields =>
    cases depth with
    | zero => exact absurd hdepth (Nat.not_succ_le_zero _)
    | succ depth =>
      have hread : ∀ {r : PropertyRecord}, propertyFields depth .empty _ = .ok r ↔
          Takes PropertyField.toKey PropertyRecord.get PropertyField.Holds .empty members r :=
        propertyFields_eq_ok members hfields hkeys.1 hkeys.2 (Nat.le_of_succ_le_succ hdepth) hplace
          fun f _ => by cases f <;> rfl
      rw [isProperty_object_iff (fun field => .missingField field.toKey) stop]
      constructor
      · intro h
        obtain ⟨r, hr, hfinish⟩ := bind_eq_ok.mp h
        exact ⟨r, hread.mp hr, hfinish⟩
      · rintro ⟨r, htakes, hfinish⟩
        exact bind_eq_ok.mpr ⟨r, hread.mpr htakes, hfinish⟩

theorem propertyFields_eq_ok (members : Table Json) {fields : List Field} {depth : Nat}
    (h : Field.DenoteAll fields members) (hnames : (Table.names members).Nodup)
    (hkeys : DistinctMembers members) (hdepth : membersNesting members ≤ depth)
    (hplace : membersAreObjects .property members = true) {r r' : PropertyRecord}
    (hfresh : ∀ f : PropertyField, f.toKey ∈ Table.names members → r.get f = none) :
    propertyFields depth r fields = .ok r' ↔
      Takes PropertyField.toKey PropertyRecord.get PropertyField.Holds r members r' := by
  match members with
  | [] =>
    cases h
    rw [takes_nil]
    constructor
    · intro h
      cases h
      exact fun _ => rfl
    · intro htakes
      rw [PropertyRecord.ext_get htakes]
      rfl
  | (key, x) :: members =>
    cases h with
    | @cons _ _ node _ _ _ _ hx hmembers =>
    obtain ⟨hfirst, hmore⟩ := Nat.max_le.mp hdepth
    obtain ⟨hnew, hdistinct⟩ := List.nodup_cons.mp hnames
    rw [membersAreObjects, Bool.and_eq_true] at hplace
    have hrest : ∀ {next : PropertyRecord},
        (∀ g : PropertyField, g.toKey ∈ Table.names members → next.get g = none) →
        (propertyFields depth next _ = .ok r' ↔
          Takes PropertyField.toKey PropertyRecord.get PropertyField.Holds next members r') :=
      fun hnext => propertyFields_eq_ok members hmembers hdistinct hkeys.2 hmore hplace.2 hnext
    by_cases hkey : ∃ f : PropertyField, f.toKey = key
    · obtain ⟨f, rfl⟩ := hkey
      have hschema : f = .type → ∀ s, schema depth node = .ok s ↔ IsSchema x s := by
        intro hf s
        subst hf
        exact schema_eq_ok x hx hkeys.1 hfirst hplace.1
      refine propertyFields_cons_eq_ok hnew (hfresh f List.mem_cons_self)
        (fun _ => propertyField_eq_ok hx f hschema) fun a => hrest fun g hg => ?_
      have hne : g ≠ f := fun h => hnew (h ▸ hg)
      rw [PropertyRecord.get_set_of_ne r f a g hne]
      exact hfresh g (List.mem_cons_of_mem _ hg)
    · have hskip : ∀ f : PropertyField, f.toKey ≠ key := fun f hf => hkey ⟨f, hf⟩
      rw [propertyFields_skip hskip hx, takes_skip hskip]
      exact hrest fun g hg => hfresh g (List.mem_cons_of_mem _ hg)

end

/-- The members of a registry are entered in their order. -/
theorem registryFields_eq_ok {members : Table Json} {fields : List Field} {depth : Nat}
    (h : Field.DenoteAll fields members) (hkeys : DistinctMembers members)
    (hdepth : membersNesting members ≤ depth)
    (hplace : membersAreObjects .registry members = true) {table r : Table Schema} :
    registryFields depth table fields = .ok r ↔ ∃ entries : Table Schema,
      List.Forall₂ (fun m entry => entry.1 = m.1 ∧ IsSchema m.2 entry.2) members entries ∧
      r = Table.merge table entries := by
  induction members generalizing fields table with
  | nil =>
    cases h
    simp only [List.forall₂_nil_left_iff, exists_eq_left]
    exact ok_eq_ok
  | cons m members ih =>
    cases h with
    | @cons _ after node fields key x _ hx hmembers =>
    obtain ⟨hfirst, hmore⟩ := Nat.max_le.mp hdepth
    rw [membersAreObjects, Bool.and_eq_true] at hplace
    have hschema : ∀ {s}, schema depth node = .ok s ↔ IsSchema x s :=
      schema_eq_ok x hx hkeys.1 hfirst hplace.1
    show (atKey key after (schema depth node) >>= fun s =>
      registryFields depth (Table.insert key s table) fields) = _ ↔ _
    constructor
    · intro h
      obtain ⟨s, hs, hrest⟩ := bind_eq_ok.mp h
      obtain ⟨entries, hall, rfl⟩ := (ih hmembers hkeys.2 hmore hplace.2).mp hrest
      exact ⟨(key, s) :: entries, .cons ⟨rfl, hschema.mp (mapError_eq_ok.mp hs)⟩ hall, rfl⟩
    · rintro ⟨_, hall, rfl⟩
      obtain ⟨⟨_, s⟩, entries, ⟨rfl, hs⟩, hrest, rfl⟩ := List.forall₂_cons_left_iff.mp hall
      exact bind_eq_ok.mpr ⟨s, mapError_eq_ok.mpr (hschema.mpr hs),
        (ih hmembers hkeys.2 hmore hplace.2).mpr ⟨entries, hrest, rfl⟩⟩

end Decode

namespace Registry

open Json (IsSchema IsRegistry)

/-- What is decoded from a document is the registry of which it holds the records. -/
theorem parse_eq_ok {text : List Char} {x : Json} (h : Json.IsDocument text x)
    (hplace : x.recordsAreObjects .registry = true) {r : Registry} :
    parse text = .ok r ↔ x.IsRegistry r := by
  obtain ⟨hnode, hkeys, hdepth, -⟩ := h
  rw [parse]
  generalize Json.maxDepth = depth at hdepth ⊢
  generalize (Json.Node.ofText text).1 = node at hnode ⊢
  cases hnode with
  | @object _ _ fields members hfields =>
    cases depth with
    | zero => exact absurd hdepth (Nat.not_succ_le_zero _)
    | succ depth =>
      have hread : ∀ r : Registry, Decode.registryFields depth [] fields = .ok r ↔
          ∃ entries : Table Schema,
            List.Forall₂ (fun m entry => entry.1 = m.1 ∧ IsSchema m.2 entry.2) members entries ∧
            r = Table.merge [] entries := fun r =>
        Decode.registryFields_eq_ok hfields hkeys.2 (Nat.le_of_succ_le_succ hdepth) hplace
      have hmerge : ∀ {entries : Registry},
          List.Forall₂ (fun m entry => entry.1 = m.1 ∧ IsSchema m.2 entry.2) members entries →
          Table.merge [] entries = entries := by
        intro entries hall
        have hdistinct : (Table.names ([] ++ entries)).Nodup := by
          rw [List.nil_append, Table.names_of_forall₂ hall fun _ _ h => h.1]
          exact hkeys.1
        exact Table.merge_eq_append hdistinct
      constructor
      · intro h
        obtain ⟨table, htable, hend⟩ := bind_eq_ok.mp h
        cases hend
        obtain ⟨entries, hall, rfl⟩ := (hread _).mp htable
        rw [hmerge hall]
        exact ⟨members, rfl, hall⟩
      · rintro ⟨_, ⟨⟩, hall⟩
        exact bind_eq_ok.mpr ⟨r, (hread r).mpr ⟨r, hall, (hmerge hall).symm⟩, rfl⟩
  | _ =>
    refine iff_of_false nofun ?_
    rintro ⟨_, hx, -⟩
    cases hx

/-- A document is decoded if and only if it is an object that holds the record of a schema under
each of its keys. The registry then holds these schemas, in the order of the document. -/
theorem parse_document {text : List Char} {x : Json} (h : Json.IsDocument text x)
    (hplace : x.recordsAreObjects .registry = true) :
    ((∃ r, parse text = .ok r) ↔
      ∃ members, x = .object members ∧ ∀ m ∈ members, ∃ s, IsSchema m.2 s) ∧
    ∀ r, parse text = .ok r ↔ x.IsRegistry r := by
  refine ⟨?_, fun r => parse_eq_ok h hplace⟩
  rw [← Json.exists_isRegistry_iff]
  exact exists_congr fun r => parse_eq_ok h hplace

/-- The order of members does not matter, kinds of detail may be null, and the record of a property
may have a note. -/
theorem parse_document_example :
    parse (Json.object [("A", .object [("types", .array [.object [("name", .string "T"),
            ("nullable", .bool true)]]), ("literal", .null), ("name", .string "Union")]),
        ("B", .object [("name", .string "Object"), ("properties", .array [.object
            [("note", .array [.null]), ("type", .object [("name", .string "s")]),
              ("key", .string "k")]])])]).pretty.toList
      = .ok [("A", .union [(Schema.value "T").orNull]),
          ("B", .object [⟨"k", .value "s", false⟩])] := by
  have hdocument : ∀ x : Json, x.NumberFree → x.DistinctKeys → x.nesting ≤ Json.maxDepth →
      Json.trailing? (Json.Node.ofText (x.writeLines 0)).2 = none →
      Json.IsDocument x.pretty.toList x := by
    intro x hfree hkeys hdepth hend
    refine ⟨Json.Node.denotes_ofText_pretty hfree, hkeys, hdepth, ?_⟩
    rwa [Json.pretty, String.toList_ofList]
  refine ((parse_document
    (hdocument _ ?_ ?_ (by decide) (by decide +kernel)) (by decide)).2 _).mpr ?_
  · simp [Json.NumberFree, Json.NumberFreeItems, Json.NumberFreeMembers]
  · simp [Json.DistinctKeys, Json.DistinctItems, Json.DistinctMembers, Table.names]
  have hT : IsSchema (.object [("name", .string "T"), ("nullable", .bool true)])
      (Schema.value "T").orNull :=
    .value ⟨by decide, rfl, .inl rfl⟩ (by simp [Json.Blank, Table.get?])
  have hs : IsSchema (.object [("name", .string "s")]) (.value "s") :=
    .value ⟨by decide, rfl, .inr ⟨rfl, rfl⟩⟩ (by simp [Json.Blank, Table.get?])
  refine ⟨_, rfl, .cons ⟨rfl, ?_⟩ (.cons ⟨rfl, ?_⟩ .nil)⟩
  · exact .union ⟨by decide, rfl, .inr ⟨rfl, rfl⟩⟩ rfl (.cons hT .nil)
      (by simp [Json.Blank, Table.get?])
  · exact .object ⟨by decide, rfl, .inr ⟨rfl, rfl⟩⟩ rfl
      (.cons (.mk rfl rfl hs (.inr ⟨rfl, rfl⟩)) .nil) (by simp [Json.Blank, Table.get?])

end Registry
end AliasCheck
