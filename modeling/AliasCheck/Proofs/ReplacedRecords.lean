import AliasCheck.Proofs.ExchangedValues
import AliasCheck.Proofs.RegistryDocuments

/-!
# Where a registry with a bad record is at fault

Put an object that is no record in the place of any record of a registry: what is read then is an
error, and its path leads to that object or into it. All that stands in front of the object is read
as before, so nothing else can be at fault earlier. The way to the record is a chain of lists and
objects, and in each of them the decoder goes from entry to entry (`Stepwise`). So an entry that is
refused is what the list or the object is refused for, and its error gets one more segment.
-/

namespace AliasCheck

/-! ## Records inside of a text -/

namespace Json

open Decode (Segment)

/-- The place of the item at an index of a list. A list may stand for a record; then its items stand
for the fields in their order. -/
def Place.nth (index : Nat) : Place → Place
  | schema => (RecordField.all[index]?.map fun f => under f.toKey schema).getD other
  | property => (PropertyField.all[index]?.map fun f => under f.toKey property).getD other
  | place => place.item

/-- The record of a schema stands at the end of a path that leads into a tree. -/
inductive RecordAt : Place → Node → List Segment → Node → Prop where
  | here {record : Node} : RecordAt .schema record [] record
  | key {place : Place} {start : Nat} {fields : List Field} {finish : Except Breakdown Nat}
      {field : Field} {key : String} {path : List Segment} {record : Node}
      (hfield : field ∈ fields) (hkey : field.key = .ok key)
      (h : RecordAt (place.under key) field.node path record) :
      RecordAt place (.object start fields finish) (.key key :: path) record
  | index {place : Place} {start : Nat} {items : List Item} {finish : Except Breakdown Nat}
      {item : Item} {index : Nat} {path : List Segment} {record : Node}
      (hitem : items[index]? = some item) (h : RecordAt (place.nth index) item.node path record) :
      RecordAt place (.array start items finish) (.index index :: path) record

/-- What the decoder of a place says to a value, its result aside. -/
def Place.decode (depth : Nat) (node : Node) : Place → Except Decode.Error Unit
  | registry => (Decode.registry depth node).map fun _ => ()
  | schema => (Decode.schema depth node).map fun _ => ()
  | property => (Decode.property depth node).map fun _ => ()
  | schemas => (Decode.optionalSchemas depth node).map fun _ => ()
  | properties => (Decode.optionalProperties depth node).map fun _ => ()
  | other => .ok ()

end Json

namespace Decode

open Json (Node Item Field Place)

/-! ## Decoders of lists -/

section Stepwise

variable {σ X τ α : Type} {go : σ → List X → Except Error τ}

/-- What a reader does with a list when its first entry is given: it fails because of that entry, or
it goes on with the rest. -/
def GoesOn (go : σ → List X → Except Error τ) (f : List X → Except Error τ) : Prop :=
  (∃ e, ∀ xs, f xs = .error e) ∨ ∃ s g, ∀ xs, f xs = (go s xs).map g

theorem GoesOn.error (e : Error) : GoesOn go fun _ => .error e := .inl ⟨e, fun _ => rfl⟩

theorem GoesOn.bind {x : Except Error α} {f : α → List X → Except Error τ}
    (h : ∀ a, GoesOn go (f a)) : GoesOn go fun xs => x >>= fun a => f a xs := by
  cases x with
  | error e => exact .error e
  | ok a => exact h a

theorem GoesOn.rest (s : σ) : GoesOn go (go s) := by
  refine .inr ⟨s, id, fun xs => ?_⟩
  cases go s xs <;> rfl

theorem GoesOn.map (s : σ) (g : τ → τ) : GoesOn go fun xs => go s xs >>= fun a => .ok (g a) := by
  refine .inr ⟨s, g, fun xs => ?_⟩
  dsimp only
  cases go s xs <;> rfl

/-- A reader that looks at one entry of its list after the other, and may count them. -/
def Stepwise (go : Nat → σ → List X → Except Error τ) : Prop :=
  ∀ i s x, GoesOn (go (i + 1)) fun xs => go i s (x :: xs)

/-- If an entry that is read is exchanged for one that is refused, the whole list is refused for it.
What stands in front of the entry is read, so the reader comes to it. -/
theorem Stepwise.error {go : Nat → σ → List X → Except Error τ} (h : Stepwise go)
    {P : Error → Prop} {x y : X} {pre post post' : List X} (i : Nat) (s : σ) {a : τ}
    (hok : go i s (pre ++ x :: post) = .ok a)
    (hy : ∀ s a, go (i + pre.length) s (x :: post) = .ok a →
      ∃ e, go (i + pre.length) s (y :: post') = .error e ∧ P e) :
    ∃ e, go i s (pre ++ y :: post') = .error e ∧ P e := by
  induction pre generalizing i s a with
  | nil => exact hy s a hok
  | cons p pre ih =>
    rw [List.cons_append] at hok ⊢
    rcases h i s p with ⟨e, he⟩ | ⟨s', g, hg⟩
    · cases (he _).symm.trans hok
    · have hg : ∀ xs, go i s (p :: xs) = (go (i + 1) s' xs).map g := hg
      rw [hg] at hok ⊢
      obtain ⟨b, hb, -⟩ := map_eq_ok.mp hok
      have hlength : i + (p :: pre).length = i + 1 + pre.length := by
        rw [List.length_cons]
        omega
      rw [hlength] at hy
      obtain ⟨e, he, hP⟩ := ih (i + 1) s' hb hy
      exact ⟨e, by rw [he]; rfl, hP⟩

theorem stepwise_recordFields (depth : Nat) :
    Stepwise fun _ r fields => recordFields depth r fields := by
  rintro - r ⟨key, afterKey, noColon, node, after⟩
  simp only [recordFields]
  refine .bind fun key => ?_
  cases RecordField.ofKey? key with
  | none => exact .error _
  | some field =>
    dsimp only
    split
    · exact .error _
    · exact .bind fun _ => .bind fun r => .rest r

theorem stepwise_propertyFields (depth : Nat) :
    Stepwise fun _ r fields => propertyFields depth r fields := by
  rintro - r ⟨key, afterKey, noColon, node, after⟩
  simp only [propertyFields]
  refine .bind fun key => ?_
  cases PropertyField.ofKey? key with
  | none => exact .bind fun _ => .bind fun _ => .rest r
  | some field =>
    dsimp only
    split
    · exact .error _
    · exact .bind fun _ => .bind fun r => .rest r

theorem stepwise_registryFields (depth : Nat) :
    Stepwise fun _ table fields => registryFields depth table fields := by
  rintro - table ⟨key, afterKey, noColon, node, after⟩
  exact .bind fun key => .bind fun _ => .bind fun s => .rest _

theorem stepwise_recordItems (depth : Nat) : Stepwise (recordItems depth) := by
  rintro index r ⟨start, node, after⟩
  simp only [recordItems]
  cases RecordField.all[index]? with
  | none => exact .error _
  | some field => exact .bind fun r => .rest r

theorem stepwise_propertyRecordItems (depth : Nat) : Stepwise (propertyRecordItems depth) := by
  rintro index r ⟨start, node, after⟩
  simp only [propertyRecordItems]
  cases PropertyField.all[index]? with
  | none => exact .error _
  | some field => exact .bind fun r => .rest r

theorem stepwise_schemaItems (depth : Nat) :
    Stepwise fun index (_ : Unit) items => schemaItems depth index items := by
  rintro index - ⟨start, node, after⟩
  exact .bind fun s => .map () (s :: ·)

theorem stepwise_propertyItems (depth : Nat) :
    Stepwise fun index (_ : Unit) items => propertyItems depth index items := by
  rintro index - ⟨start, node, after⟩
  exact .bind fun p => .map () (p :: ·)

end Stepwise

/-! ## Entries that are refused -/

section Entries

variable {depth index start after after' afterKey : Nat} {key : String} {node node' : Node}
  {e : Error}

/-- What is refused at the place of a field is refused as that field. -/
theorem recordField_eq_error {f : RecordField} (r : Record)
    (h : (Place.under f.toKey .schema).decode depth node = .error e) :
    recordField r f node (fun _ => optionalSchemas depth node)
      (fun _ => optionalProperties depth node) = .error e := by
  cases f with
  | name | nullable | literal => cases h
  | properties | params | types => exact map_eq_error.mpr (map_eq_error.mp h)

theorem propertyField_eq_error {f : PropertyField} (r : PropertyRecord)
    (h : (Place.under f.toKey .property).decode depth node = .error e) :
    propertyField r f node (fun _ => schema depth node) = .error e := by
  cases f with
  | key | optional => cases h
  | type => exact map_eq_error.mpr (map_eq_error.mp h)

/-- The entry of a list or an object is refused for an error inside of it. -/
theorem exists_bind_eq_error_under {α β : Type} {x : Except Error α} (h : x = .error e)
    (segment : Segment) (after : Nat) (f : α → Except Error β) :
    ∃ e', ((x.mapError fun e => (e.under segment).noticedAt after) >>= f) = .error e' ∧
      e'.path = segment :: e.path := by
  subst h
  exact ⟨_, rfl, rfl⟩

/-- A member that is refused stands first, in the place of one under the same key that is read. -/
theorem recordFields_eq_error {r r' : Record} {post post' : List Field}
    (hok : recordFields depth r (⟨.ok key, afterKey, none, node, after⟩ :: post) = .ok r')
    (h : (Place.under key .schema).decode depth node' = .error e) :
    ∃ e', recordFields depth r (⟨.ok key, afterKey, none, node', after'⟩ :: post') = .error e' ∧
      e'.path = .key key :: e.path := by
  -- A key that is unknown or not the first of its kind is refused whatever its value is.
  by_cases hkey : ∃ f : RecordField, f.toKey = key
  · obtain ⟨f, rfl⟩ := hkey
    cases hhas : r.has f with
    | true =>
      rw [recordFields] at hok
      simp [keyOf, ofFaults, mapError_ok, f.ofKey?_toKey, hhas, bind, Except.bind] at hok
    | false =>
      rw [recordFields_cons f f.ofKey?_toKey hhas]
      exact exists_bind_eq_error_under (recordField_eq_error r h) _ _ _
  · exact absurd hok (recordFields_unknown fun f hf => hkey ⟨f, hf⟩)

theorem propertyFields_eq_error {r r' : PropertyRecord} {post post' : List Field}
    (hok : propertyFields depth r (⟨.ok key, afterKey, none, node, after⟩ :: post) = .ok r')
    (h : (Place.under key .property).decode depth node' = .error e) :
    ∃ e', propertyFields depth r (⟨.ok key, afterKey, none, node', after'⟩ :: post') = .error e' ∧
      e'.path = .key key :: e.path := by
  by_cases hkey : ∃ f : PropertyField, f.toKey = key
  · obtain ⟨f, rfl⟩ := hkey
    cases hhas : r.has f with
    | true =>
      rw [propertyFields] at hok
      simp [keyOf, ofFaults, mapError_ok, f.ofKey?_toKey, hhas, bind, Except.bind] at hok
    | false =>
      rw [propertyFields_cons f f.ofKey?_toKey hhas]
      exact exists_bind_eq_error_under (propertyField_eq_error r h) _ _ _
  · -- What stands under other keys is skipped, so there is nothing to refuse.
    have hother : Place.under key .property = .other := if_neg fun hk => hkey ⟨.type, hk.symm⟩
    rw [hother] at h
    cases h

theorem registryFields_eq_error {table : Table Schema} {post' : List Field}
    (h : (Place.under key .registry).decode depth node' = .error e) :
    ∃ e', registryFields depth table (⟨.ok key, afterKey, none, node', after'⟩ :: post')
        = .error e' ∧ e'.path = .key key :: e.path :=
  exists_bind_eq_error_under (map_eq_error.mp h) (.key key) after' _

/-- An item that is refused stands first. -/
theorem recordItems_eq_error {r : Record} {post' : List Item}
    (h : (Place.nth index .schema).decode depth node' = .error e) :
    ∃ e', recordItems depth index r (⟨start, node', after'⟩ :: post') = .error e' ∧
      e'.path = .index index :: e.path := by
  rw [Place.nth] at h
  rw [recordItems]
  cases hfield : RecordField.all[index]? with
  | none =>
    rw [hfield] at h
    cases h
  | some field =>
    rw [hfield] at h
    exact exists_bind_eq_error_under (recordField_eq_error r h) (.index index) after' _

theorem propertyRecordItems_eq_error {r : PropertyRecord} {post' : List Item}
    (h : (Place.nth index .property).decode depth node' = .error e) :
    ∃ e', propertyRecordItems depth index r (⟨start, node', after'⟩ :: post') = .error e' ∧
      e'.path = .index index :: e.path := by
  rw [Place.nth] at h
  rw [propertyRecordItems]
  cases hfield : PropertyField.all[index]? with
  | none =>
    rw [hfield] at h
    cases h
  | some field =>
    rw [hfield] at h
    exact exists_bind_eq_error_under (propertyField_eq_error r h) (.index index) after' _

theorem schemaItems_eq_error {post' : List Item}
    (h : (Place.nth index .schemas).decode depth node' = .error e) :
    ∃ e', schemaItems depth index (⟨start, node', after'⟩ :: post') = .error e' ∧
      e'.path = .index index :: e.path :=
  exists_bind_eq_error_under (map_eq_error.mp h) (.index index) after' _

theorem propertyItems_eq_error {post' : List Item}
    (h : (Place.nth index .properties).decode depth node' = .error e) :
    ∃ e', propertyItems depth index (⟨start, node', after'⟩ :: post') = .error e' ∧
      e'.path = .index index :: e.path :=
  exists_bind_eq_error_under (map_eq_error.mp h) (.index index) after' _

end Entries

end Decode

namespace Json

open Decode (Segment Error)

/-! ## Lists and objects with a refused entry -/

section Containers

variable {place : Place} {depth start : Nat} {node node' : Node} {e : Error}

/-- A value is refused for its entries. -/
theorem exists_eq_error_of_entries {α β γ : Type} {entries entries' : Except Error α}
    {f : α → Except Error β} {f' : α → Except Error γ} {P : Error → Prop}
    (hok : ((entries >>= f).map fun _ => ()) = .ok ())
    (h : ∀ a, entries = .ok a → ∃ e, entries' = .error e ∧ P e) :
    ∃ e, ((entries' >>= f').map fun _ => ()) = .error e ∧ P e := by
  obtain ⟨_, hread, -⟩ := map_eq_ok.mp hok
  obtain ⟨a, ha, -⟩ := bind_eq_ok.mp hread
  obtain ⟨e, rfl, hP⟩ := h a ha
  exact ⟨e, rfl, hP⟩

/-- If a member of an object that is read is exchanged for one that is refused, the object is
refused for an error inside of that member. -/
theorem Place.object_eq_error {key : String} {afterKey after after' : Nat}
    {pre post post' : List Field} {finish finish' : Except Breakdown Nat}
    (hok : place.decode depth
      (.object start (pre ++ ⟨.ok key, afterKey, none, node, after⟩ :: post) finish) = .ok ())
    (h : (place.under key).decode (depth - 1) node' = .error e) :
    ∃ e', place.decode depth (.object start
      (pre ++ ⟨.ok key, afterKey, none, node', after'⟩ :: post') finish') = .error e' ∧
      e'.path = .key key :: e.path := by
  cases place with
  | schemas | properties | other => cases h
  | registry =>
    cases depth with
    | zero => cases hok
    | succ depth =>
      exact exists_eq_error_of_entries hok fun _ hread =>
        (Decode.stepwise_registryFields depth).error 0 [] hread
          fun _ _ _ => Decode.registryFields_eq_error h
  | schema =>
    cases depth with
    | zero => cases hok
    | succ depth =>
      exact exists_eq_error_of_entries hok fun _ hread =>
        (Decode.stepwise_recordFields depth).error 0 .empty hread
          fun _ _ hok => Decode.recordFields_eq_error hok h
  | property =>
    cases depth with
    | zero => cases hok
    | succ depth =>
      exact exists_eq_error_of_entries hok fun _ hread =>
        (Decode.stepwise_propertyFields depth).error 0 .empty hread
          fun _ _ hok => Decode.propertyFields_eq_error hok h

/-- The same for an item of a list. -/
theorem Place.array_eq_error {itemStart after after' : Nat} {pre post post' : List Item}
    {finish finish' : Except Breakdown Nat}
    (hok : place.decode depth
      (.array start (pre ++ ⟨itemStart, node, after⟩ :: post) finish) = .ok ())
    (h : (place.nth pre.length).decode (depth - 1) node' = .error e) :
    ∃ e', place.decode depth (.array start (pre ++ ⟨itemStart, node', after'⟩ :: post') finish')
      = .error e' ∧ e'.path = .index pre.length :: e.path := by
  rw [← Nat.zero_add pre.length] at h ⊢
  cases place with
  | registry | other => cases h
  | schema =>
    cases depth with
    | zero => cases hok
    | succ depth =>
      exact exists_eq_error_of_entries hok fun _ hread =>
        (Decode.stepwise_recordItems depth).error 0 .empty hread
          fun _ _ _ => Decode.recordItems_eq_error h
  | property =>
    cases depth with
    | zero => cases hok
    | succ depth =>
      exact exists_eq_error_of_entries hok fun _ hread =>
        (Decode.stepwise_propertyRecordItems depth).error 0 .empty hread
          fun _ _ _ => Decode.propertyRecordItems_eq_error h
  | schemas =>
    cases depth with
    | zero => cases hok
    | succ depth =>
      exact exists_eq_error_of_entries hok fun _ hread =>
        (Decode.stepwise_schemaItems depth).error 0 () hread
          fun _ _ _ => Decode.schemaItems_eq_error h
  | properties =>
    cases depth with
    | zero => cases hok
    | succ depth =>
      exact exists_eq_error_of_entries hok fun _ hread =>
        (Decode.stepwise_propertyItems depth).error 0 () hread
          fun _ _ _ => Decode.propertyItems_eq_error h

end Containers

/-! ## Records that are exchanged -/

theorem exists_append_of_getElem? {α : Type} {xs : List α} {i : Nat} {x : α} (h : xs[i]? = some x) :
    ∃ pre post, xs = pre ++ x :: post ∧ pre.length = i := by
  obtain ⟨hlt, rfl⟩ := List.getElem?_eq_some_iff.mp h
  refine ⟨xs.take i, xs.drop (i + 1), ?_, List.length_take_of_le (Nat.le_of_lt hlt)⟩
  rw [List.getElem_cons_drop, List.take_append_drop]

/-- No decoder takes the value for a record. -/
def Refused (tree : Node) : Prop := ∀ depth ≤ maxDepth, ∀ s, Decode.schema depth tree ≠ .ok s

/-- The value `tree` has been put at the end of `path` into a value, which has become `node`. If it
is no record, `node` is refused for it; what may follow `tree` may follow `node`. -/
structure Blames (place : Place) (depth : Nat) (path : List Segment) (tree node : Node) : Prop where
  apart {rest : List Char} (h : tree.Apart rest) : node.Apart rest
  error (h : Refused tree) : ∃ e, place.decode depth node = .error e ∧ path <+: e.path

/-- To blame for an entry is to blame for the list or the object that holds it. -/
theorem Blames.entry {place place' : Place} {depth depth' : Nat} {path : List Segment}
    {tree entry node : Node} {segment : Segment} (h : Blames place' depth' path tree entry)
    (hnode : ∀ rest, node.Apart rest)
    (hentry : ∀ {e}, place'.decode depth' entry = .error e →
      ∃ e', place.decode depth node = .error e' ∧ e'.path = segment :: e.path) :
    Blames place depth (segment :: path) tree node := by
  refine ⟨fun _ => hnode _, fun hrefused => ?_⟩
  obtain ⟨e, he, hpath⟩ := h.error hrefused
  obtain ⟨e', he', hpath'⟩ := hentry he
  exact ⟨e', he', hpath' ▸ List.cons_prefix_cons.mpr ⟨rfl, hpath⟩⟩

/-- Each record that has been read can be exchanged, and is to blame if the other value is no
record. The induction is on the way to the record. -/
theorem RecordAt.slot {place : Place} {node record : Node} {path : List Segment}
    (h : RecordAt place node path record) {start stop depth : Nat} {text : List Char}
    (hspelled : Spelled .value start text node stop) (hdepth : depth ≤ maxDepth)
    (hok : place.decode depth node = .ok ()) :
    Slot start text record fun text' tree => ∃ node' stop', Spelled .value start text' node' stop' ∧
      Blames place depth path tree node' := by
  induction h generalizing start stop depth text with
  | here =>
    refine (Slot.self hspelled).imp ?_
    rintro text' tree ⟨stop', htree⟩
    refine ⟨tree, stop', htree, id, fun hrefused => ?_⟩
    cases hdecode : Decode.schema depth tree with
    | ok s => exact absurd hdecode (hrefused depth hdepth s)
    | error e => exact ⟨e, map_eq_error.mpr hdecode, List.nil_prefix⟩
  | @key place _ _ _ field key path record hfield hkey _ ih =>
    obtain ⟨pre, post, rfl⟩ := List.append_of_mem hfield
    obtain ⟨hnone, hslot⟩ := hspelled.slot_object
    obtain ⟨_, afterKey, _, inner, after⟩ := field
    cases hkey
    cases hnone
    -- The member is read, since otherwise the object would be refused for it.
    have hinner : (place.under key).decode (depth - 1) inner = .ok () :=
      eq_ok_of_ne_error fun e he => by
        obtain ⟨e', he', -⟩ := Place.object_eq_error hok he
        cases hok.symm.trans he'
    refine (hslot.inside fun hspelled => ih hspelled (by omega) hinner).imp ?_
    rintro text' tree ⟨node', ⟨after', post', stop', hspelled'⟩, hblames⟩
    exact ⟨_, stop', hspelled', hblames.entry (fun _ => nofun) (Place.object_eq_error hok)⟩
  | @index place _ _ _ item _ path record hitem _ ih =>
    obtain ⟨pre, post, rfl, rfl⟩ := exists_append_of_getElem? hitem
    obtain ⟨itemStart, inner, after⟩ := item
    have hinner : (place.nth pre.length).decode (depth - 1) inner = .ok () :=
      eq_ok_of_ne_error fun e he => by
        obtain ⟨e', he', -⟩ := Place.array_eq_error hok he
        cases hok.symm.trans he'
    refine (hspelled.slot_array.inside fun hspelled => ih hspelled (by omega) hinner).imp ?_
    rintro text' tree ⟨node', ⟨after', post', stop', hspelled'⟩, hblames⟩
    exact ⟨_, stop', hspelled', hblames.entry (fun _ => nofun) (Place.array_eq_error hok)⟩

/-- A registry is no record itself. -/
theorem RecordAt.path_ne_nil {node record : Node} {path : List Segment}
    (h : RecordAt .registry node path record) : path ≠ [] := by
  cases h with
  | key _ _ _ => exact List.cons_ne_nil _ _
  | index _ _ => exact List.cons_ne_nil _ _

end Json

/-! ## Paths in messages -/

namespace Decode.Error

theorem writeSegments_append (path rest : List Segment) :
    writeSegments (path ++ rest) = writeSegments path ++ writeSegments rest := by
  induction path with
  | nil => rw [List.nil_append, writeSegments, String.empty_append]
  | cons segment path ih =>
    cases segment <;> simp only [List.cons_append, writeSegments, ih, String.append_assoc]

/-- The text of a path begins with that of the way to any place on it but the root. -/
theorem writePath_append {path : List Segment} (hpath : path ≠ []) (rest : List Segment) :
    writePath (path ++ rest) = writePath path ++ writeSegments rest := by
  obtain ⟨segment, path, rfl⟩ := List.exists_cons_of_ne_nil hpath
  cases segment <;>
    simp only [List.cons_append, writePath, writeSegments_append, String.append_assoc]

/-- So does the message of an error that is found there. -/
theorem exists_pathMessage {e : Error} {path : List Segment} (hpath : path ≠ [])
    (h : path <+: e.path) (text : List Char) :
    ∃ more, e.pathMessage text = "at JSON path " ++ writePath path ++ more := by
  obtain ⟨rest, hrest⟩ := h
  rw [pathMessage, ← hrest, writePath_append hpath]
  exact ⟨writeSegments rest ++ " → " ++ e.message text, by simp [toString, String.append_assoc]⟩

end Decode.Error

/-! ## Registries -/

namespace Registry

open Json (Node Spelled IsObjectText RecordAt)

/-- In a text that is read as a registry each record, at whatever path, is a stretch of the text.
With any object there that is no record the text is not read any more, and the message begins with
the path of the record or with a longer one. -/
theorem parse_replaced_record {text : List Char} {r : Registry} {path : List Decode.Segment}
    {record : Node} (h : parse text = .ok r)
    (hrecord : RecordAt .registry (Node.ofText text).1 path record) :
    ∃ front old back, text = front ++ (old ++ back) ∧
      Spelled .value (byteLength front) old record (byteLength (front ++ old)) ∧
      ∀ new, IsObjectText 0 new → (∀ s, Schema.parse new ≠ .ok s) → ∃ e more,
        parse (front ++ (new ++ back)) = .error e ∧ path <+: e.path ∧
        e.pathMessage (front ++ (new ++ back))
          = "at JSON path " ++ Decode.Error.writePath path ++ more := by
  have hdecode := h
  rw [parse] at hdecode
  generalize hread : Node.ofText text = read at hdecode hrecord
  obtain ⟨node, after⟩ := read
  obtain ⟨start, fields, stop, rfl⟩ := object_of_registry hdecode
  obtain ⟨blanks, object, hblanks, hrest, -, hspelled⟩ :=
    Json.isSound_read _ _ _ after stop hread rfl
  have htext : text = blanks ++ (object ++ after.rest) := hrest
  rw [← Json.byteLength_blanks hblanks] at hspelled
  have hslot := (hrecord.slot hspelled (Nat.le_refl _) (map_eq_ok.mpr ⟨r, hdecode, rfl⟩)).around
    blanks after.rest
  rw [← htext] at hslot
  obtain ⟨front, old, back, hsplit, hold, hfits⟩ := hslot
  simp only [Nat.zero_add] at hold hfits
  refine ⟨front, old, back, hsplit, hold, fun new hnew hinvalid => ?_⟩
  obtain ⟨_, _, htree⟩ := hnew.move (byteLength front)
  obtain ⟨inner, hinner, node', stop', hnode', hblames⟩ := hfits new _ _ htree
  obtain ⟨e, he, hpath⟩ := hblames.error fun depth hdepth s hs =>
    hinvalid s (Schema.parse_of_spelled htree hdepth hs)
  obtain ⟨more, hmore⟩ := Decode.Error.exists_pathMessage hrecord.path_ne_nil hpath
    (front ++ (new ++ back))
  refine ⟨e, more, ?_, hpath, hmore⟩
  rw [Json.byteLength_blanks hblanks] at hnode'
  -- The object is no number, so whatever stood behind the record may stand behind it.
  have hapart : node'.Apart after.rest := hblames.apart (by rintro ⟨_, _, ⟨⟩⟩)
  rw [hinner, parse, Json.ofText_of_spelled hblanks hnode' hapart]
  exact map_eq_error.mp he

/-- An empty object in the place of a parameter. -/
theorem parse_replaced_record_example :
    parse "\x7b\"A\":\x7b\"name\":\"f\",\"params\":[\x7b\"name\":\"B\"\x7d]\x7d\x7d".toList
      = .ok [("A", .generic "f" [.value "B"])] ∧
    IsObjectText 0 "\x7b\x7d".toList ∧ (∀ s, Schema.parse "\x7b\x7d".toList ≠ .ok s) ∧
    ∃ front old back,
      "\x7b\"A\":\x7b\"name\":\"f\",\"params\":[\x7b\"name\":\"B\"\x7d]\x7d\x7d".toList
        = front ++ (old ++ back) ∧
      ∃ e more, parse (front ++ ("\x7b\x7d".toList ++ back)) = .error e ∧
        e.pathMessage (front ++ ("\x7b\x7d".toList ++ back))
          = "at JSON path A.params[0]" ++ more := by
  have hparse : parse
      "\x7b\"A\":\x7b\"name\":\"f\",\"params\":[\x7b\"name\":\"B\"\x7d]\x7d\x7d".toList
      = .ok [("A", .generic "f" [.value "B"])] := by decide +kernel
  have hnew : IsObjectText 0 "\x7b\x7d".toList := ⟨_, _, .object (.fieldsEnd .nil)⟩
  have hinvalid : ∀ s, Schema.parse "\x7b\x7d".toList ≠ .ok s := nofun
  obtain ⟨record, hrecord⟩ : ∃ record, RecordAt .registry (Node.ofText
      "\x7b\"A\":\x7b\"name\":\"f\",\"params\":[\x7b\"name\":\"B\"\x7d]\x7d\x7d".toList).1
      [.key "A", .key "params", .index 0] record :=
    ⟨_, .key List.mem_cons_self rfl <| .key (List.mem_cons_of_mem _ List.mem_cons_self) rfl <|
      .index rfl .here⟩
  obtain ⟨front, old, back, hsplit, -, hreplaced⟩ := parse_replaced_record hparse hrecord
  obtain ⟨e, more, he, -, hmore⟩ := hreplaced _ hnew hinvalid
  exact ⟨hparse, hnew, hinvalid, front, old, back, hsplit, e, more, he, hmore⟩

end Registry

end AliasCheck
