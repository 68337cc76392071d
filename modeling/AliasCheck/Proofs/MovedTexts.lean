import AliasCheck.Proofs.TrailingText
import AliasCheck.Schema.Decode

/-!
# JSON texts at another place

A tree remembers where everything in it stands, so a text that stands elsewhere has another tree.
`Moved` says that it differs in nothing that a decoder of records takes notice of. A part of a JSON
text can stand anywhere (`Spelled.move`), and what decoders make of it there they make of it at any
other place (`carried_of_moved`). They may even be allowed more open lists and objects there: a
record inside of a text is a record when it stands alone (`Schema.parse_of_spelled`).
-/

namespace AliasCheck

/-! ## Results that are kept -/

/-- What the one result gives, the other one gives too. -/
def Carries {ε α : Type} (x y : Except ε α) : Prop := ∀ a, x = .ok a → y = .ok a

namespace Carries

variable {ε ε' α β : Type} {x y : Except ε α}

theorem refl (x : Except ε α) : Carries x x := fun _ h => h

/-- A failure gives nothing. -/
theorem error (e : ε) (y : Except ε α) : Carries (.error e) y := nofun

theorem bind {f g : α → Except ε β} (h : Carries x y) (hfg : ∀ a, Carries (f a) (g a)) :
    Carries (x >>= f) (y >>= g) := by
  intro b hb
  obtain ⟨a, ha, hf⟩ := bind_eq_ok.mp hb
  exact bind_eq_ok.mpr ⟨a, h a ha, hfg a b hf⟩

theorem map {f : α → β} (h : Carries x y) : Carries (x.map f) (y.map f) := by
  intro b hb
  obtain ⟨a, ha, rfl⟩ := map_eq_ok.mp hb
  exact map_eq_ok.mpr ⟨a, h a ha, rfl⟩

theorem mapError {f g : ε → ε'} (h : Carries x y) : Carries (x.mapError f) (y.mapError g) :=
  fun a ha => mapError_eq_ok.mpr (h a (mapError_eq_ok.mp ha))

/-- What opens one more list or object may be given more of them. -/
theorem opened {f g : Nat → Except ε α} {e : ε} (hzero : f 0 = .error e)
    (hsucc : ∀ {m n}, m ≤ n → Carries (f (m + 1)) (g (n + 1))) {m n : Nat} (h : m ≤ n) :
    Carries (f m) (g n) := by
  cases m with
  | zero =>
    rw [hzero]
    exact error e _
  | succ m =>
    cases n with
    | zero => exact absurd h (Nat.not_succ_le_zero _)
    | succ n => exact hsucc (Nat.le_of_succ_le_succ h)

end Carries

namespace Json

open StringLiteral (hexValue hexNumber)

/-! ## Bytes

Only strings have characters of several bytes. The rest of a JSON text has as many bytes as
characters, and counting the latter is what its readers do.
-/

theorem utf8Size_of_le {c : Char} (h : c ≤ '\x7f') : c.utf8Size = 1 :=
  Char.utf8Size_eq_one_iff.mpr h

theorem utf8Size_of_isDigit {c : Char} (h : c.isDigit = true) : c.utf8Size = 1 := by
  rw [Char.isDigit, Bool.and_eq_true, decide_eq_true_eq, decide_eq_true_eq] at h
  exact utf8Size_of_le (Char.le_trans (show c ≤ '9' from h.2) (by decide))

theorem utf8Size_of_hexNumber {value n : Nat} {digits : List Char}
    (h : hexNumber value digits = some n) : ∀ c ∈ digits, c.utf8Size = 1 := by
  induction digits generalizing value with
  | nil => exact List.forall_mem_nil _
  | cons c digits ih =>
    obtain ⟨d, hd, hmore⟩ := Option.bind_eq_some_iff.mp h
    refine List.forall_mem_cons.mpr ⟨?_, ih hmore⟩
    rw [hexValue] at hd
    split at hd
    · rename_i hdigit
      exact utf8Size_of_isDigit hdigit
    · split at hd
      · rename_i hlower
        exact utf8Size_of_le (Char.le_trans hlower.2 (by decide))
      · split at hd
        · rename_i hupper
          exact utf8Size_of_le (Char.le_trans hupper.2 (by decide))
        · cases hd

theorem byteLength_blanks {ws : List Char} (h : Blanks ws) : byteLength ws = ws.length := by
  refine byteLength_eq_length.mpr fun c hc => ?_
  have hblank := h c hc
  simp only [Cursor.isBlank, Bool.or_eq_true, decide_eq_true_eq] at hblank
  rcases hblank with ((rfl | rfl) | rfl) | rfl <;> rfl

theorem Numeral.ExponentText.utf8Size {e : Option (Bool × List Char)} {text : List Char}
    (h : ExponentText e text) : ∀ c ∈ text, c.utf8Size = 1 := by
  cases h with
  | none => exact List.forall_mem_nil _
  | @some e sign digits he hsign _ hall =>
    have hletter : e.utf8Size = 1 := by rcases he with rfl | rfl <;> rfl
    refine List.forall_mem_cons.mpr ⟨hletter, List.forall_mem_append.mpr ⟨?_, ?_⟩⟩
    · rcases hsign with rfl | rfl | rfl
      · exact List.forall_mem_nil _
      · exact List.forall_mem_singleton.mpr rfl
      · exact List.forall_mem_singleton.mpr rfl
    · exact fun d hd => utf8Size_of_isDigit (hall d hd)

/-- The text of a numeral has as many bytes as characters. -/
theorem Numeral.IsText.byteLength_eq {n : Numeral} {text : List Char} (h : n.IsText text) :
    byteLength text = text.length := by
  obtain ⟨exponent, hexponent, rfl⟩ := h.parts
  have hsign : ∀ c ∈ (if n.negative then ['-'] else []), c.utf8Size = 1 := by
    cases n.negative with
    | false => exact List.forall_mem_nil _
    | true => exact List.forall_mem_singleton.mpr rfl
  have hfraction : ∀ c ∈ fractionText n.fraction, c.utf8Size = 1 := by
    rw [fractionText]
    split
    · exact List.forall_mem_nil _
    · exact List.forall_mem_cons.mpr ⟨rfl, fun d hd => utf8Size_of_isDigit (h.fraction d hd)⟩
  have hwhole : ∀ c ∈ n.whole, c.utf8Size = 1 := fun d hd => utf8Size_of_isDigit (h.whole.all d hd)
  refine byteLength_eq_length.mpr ?_
  simp only [List.forall_mem_append]
  exact ⟨hsign, hwhole, hfraction, hexponent.utf8Size⟩

theorem Separator.byteLength_eq {first : Bool} {separator : List Char}
    (h : Separator first separator) : byteLength separator = separator.length := by
  cases h with
  | first hws => exact byteLength_blanks hws
  | later hws hws' =>
    rw [byteLength_append, byteLength_cons, byteLength_blanks hws, byteLength_blanks hws',
      List.length_append, List.length_cons, Nat.add_comm ','.utf8Size]
    rfl

namespace Quoted

theorem byteLength_hex {a b c d : Char} {n : Nat} (h : hex? a b c d = some n) (cs : List Char) :
    byteLength ('\\' :: 'u' :: a :: b :: c :: d :: cs) = 6 + byteLength cs := by
  have hdigits := utf8Size_of_hexNumber h
  have ha : a.utf8Size = 1 := hdigits a (by simp)
  have hb : b.utf8Size = 1 := hdigits b (by simp)
  have hc : c.utf8Size = 1 := hdigits c (by simp)
  have hd : d.utf8Size = 1 := hdigits d (by simp)
  have hslash : '\\'.utf8Size = 1 := rfl
  have hu : 'u'.utf8Size = 1 := rfl
  simp only [byteLength_cons, ha, hb, hc, hd, hslash, hu]
  omega

theorem utf8Size_of_short {e c : Char} (h : short? e = some c) : e.utf8Size = 1 := by
  unfold short? at h
  split at h <;> first | rfl | cases h

end Quoted

section Widths

variable {c : Char} {ws : List Char}

theorem add_byteLength_cons (hc : c.utf8Size = 1) (start : Nat) (cs : List Char) :
    start + 1 + byteLength cs = start + byteLength (c :: cs) := by
  rw [byteLength_cons, hc, Nat.add_assoc]

theorem add_byteLength_end (hws : Blanks ws) (hc : c.utf8Size = 1) (start : Nat) :
    start + ws.length + 1 = start + byteLength (ws ++ [c]) := by
  rw [byteLength_append, byteLength_blanks hws, Nat.add_assoc, byteLength_cons, hc]
  rfl

/-- What stands in front of the value of a member: a separator, the key, and a colon with blanks
around it. -/
def memberFront (separator keyText ws ws' : List Char) : List Char :=
  separator ++ '"' :: (keyText ++ (ws ++ ':' :: ws'))

theorem memberFront_append (separator keyText ws ws' cs : List Char) :
    memberFront separator keyText ws ws' ++ cs
      = separator ++ '"' :: (keyText ++ (ws ++ ':' :: (ws' ++ cs))) := by
  simp only [memberFront, List.append_assoc, List.cons_append]

theorem add_byteLength_memberFront {first : Bool} {separator ws' : List Char}
    (hseparator : Separator first separator) (hws : Blanks ws) (hws' : Blanks ws')
    (keyText : List Char) (start : Nat) :
    start + separator.length + 1 + byteLength keyText + ws.length + 1 + ws'.length
      = start + byteLength (memberFront separator keyText ws ws') := by
  have hquote : '"'.utf8Size = 1 := rfl
  have hcolon : ':'.utf8Size = 1 := rfl
  simp only [memberFront, byteLength_append, byteLength_cons, hseparator.byteLength_eq,
    byteLength_blanks hws, byteLength_blanks hws', hquote, hcolon]
  omega

end Widths

/-! ## Moving -/

/-- What is read as a string is so at any other place too, and the string takes its bytes. -/
theorem Quoted.body_move {strict : Bool} {offset : Nat} {cs text : List Char} {after : Cursor}
    (h : body strict offset cs = .ok (text, after)) : ∃ used, cs = used ++ after.rest ∧
      ∀ start, body strict start cs = .ok (text, ⟨start + byteLength used, after.rest⟩) := by
  fun_induction body strict offset cs generalizing text after with
  | case2 offset cs =>
    cases h
    exact ⟨['"'], rfl, fun start => body_quote strict start cs⟩
  | case5 offset a b c d cs n hhex hn ih =>
    obtain ⟨text, hrest, rfl⟩ := andThen_eq_ok.mp h
    obtain ⟨used, rfl, hused⟩ := ih hrest
    refine ⟨'\\' :: 'u' :: a :: b :: c :: d :: used, rfl, fun start => ?_⟩
    rw [byteLength_hex hhex, ← Nat.add_assoc]
    simp only [body, hhex, if_pos hn]
    exact andThen_eq_ok.mpr ⟨text, hused _, rfl⟩
  | case8 offset a b c d n hhex hn hlow e f g i cs low hhex' hlow' ih =>
    obtain ⟨text, hrest, rfl⟩ := andThen_eq_ok.mp h
    obtain ⟨used, rfl, hused⟩ := ih hrest
    refine ⟨'\\' :: 'u' :: a :: b :: c :: d :: '\\' :: 'u' :: e :: f :: g :: i :: used, rfl,
      fun start => ?_⟩
    rw [byteLength_hex hhex, byteLength_hex hhex', ← Nat.add_assoc, ← Nat.add_assoc]
    simp only [body, hhex, hhex', if_neg hn, if_neg hlow, if_pos hlow']
    exact andThen_eq_ok.mpr ⟨text, hused _, rfl⟩
  | case11 offset e cs hu c hshort ih =>
    obtain ⟨text, hrest, rfl⟩ := andThen_eq_ok.mp h
    obtain ⟨used, rfl, hused⟩ := ih hrest
    refine ⟨'\\' :: e :: used, rfl, fun start => ?_⟩
    have hwidth : byteLength ('\\' :: e :: used) = 2 + byteLength used := by
      rw [byteLength_cons, byteLength_cons, utf8Size_of_short hshort, ← Nat.add_assoc]
      rfl
    rw [body_short hshort, hwidth, ← Nat.add_assoc]
    exact andThen_eq_ok.mpr ⟨text, hused _, rfl⟩
  | case15 offset c cs hquote hempty _ hslash hshown ih =>
    obtain ⟨text, hrest, rfl⟩ := andThen_eq_ok.mp h
    obtain ⟨used, rfl, hused⟩ := ih hrest
    refine ⟨c :: used, rfl, fun start => ?_⟩
    rw [body_plain hquote (ne_slash hempty hslash) hshown, byteLength_cons, ← Nat.add_assoc]
    exact andThen_eq_ok.mpr ⟨text, hused _, rfl⟩
  | _ => simp_all

/-- A string can stand anywhere, and a strict reader gets the same from it there. -/
theorem Node.IsString.move {start stop : Nat} {text : List Char} {value : Except Fault String}
    (h : IsString start text value stop) : stop = start + byteLength text ∧
      ∀ start', ∃ value', IsString start' text value' (start' + byteLength text) ∧
        Carries value value' := by
  have hread := h []
  rw [List.append_nil, readString] at hread
  dsimp only at hread
  split at hread
  · rename_i lax after hlax
    cases hread
    obtain ⟨used, hsplit, hused⟩ := Quoted.body_move hlax
    rw [List.append_nil] at hsplit
    subst hsplit
    have hstop := hlax.symm.trans (hused start)
    cases hstop
    refine ⟨rfl, fun start' => ?_⟩
    have hread' : readString ⟨start', text⟩ = .ok
        ((Quoted.body true start' text).map fun read => String.ofList read.1,
          ⟨start' + byteLength text, []⟩) := by
      rw [readString, hused start']
    obtain ⟨text', htext', hstring⟩ := isString_of_readString hread'
    rw [List.append_nil] at htext'
    cases htext'
    refine ⟨_, hstring, fun s hs => ?_⟩
    obtain ⟨⟨t, after⟩, hstrict, rfl⟩ := map_eq_ok.mp hs
    obtain ⟨used, -, hmoved⟩ := Quoted.body_move hstrict
    rw [hmoved start']
    rfl
  · split at hread <;> cases hread

/-- The second tree is the first one at another place: it differs from it in offsets, and whatever
string can be had from the first can be had from it. -/
inductive Moved : (p : Part) → p.Value → p.Value → Prop where
  | null {stop stop' : Nat} : Moved .value (.null stop) (.null stop')
  | bool {b : Bool} {stop stop' : Nat} : Moved .value (.bool b stop) (.bool b stop')
  | number {n n' : Except Fault Number} {stop stop' : Nat} :
      Moved .value (.number n stop) (.number n' stop')
  | string {s s' : Except Fault String} {stop stop' : Nat} (h : Carries s s') :
      Moved .value (.string s stop) (.string s' stop')
  | array {start start' stop stop' : Nat} {items items' : List Item}
      (h : Moved (.items true) items items') :
      Moved .value (.array start items (.ok stop)) (.array start' items' (.ok stop'))
  | object {start start' stop stop' : Nat} {fields fields' : List Field}
      (h : Moved (.fields true) fields fields') :
      Moved .value (.object start fields (.ok stop)) (.object start' fields' (.ok stop'))
  | itemsEnd {first : Bool} : Moved (.items first) [] []
  | item {first : Bool} {start start' after after' : Nat} {node node' : Node}
      {items items' : List Item} (h : Moved .value node node')
      (hs : Moved (.items false) items items') :
      Moved (.items first) (⟨start, node, after⟩ :: items) (⟨start', node', after'⟩ :: items')
  | fieldsEnd {first : Bool} : Moved (.fields first) [] []
  | field {first : Bool} {key key' : Except Fault String} {afterKey afterKey' after after' : Nat}
      {node node' : Node} {fields fields' : List Field} (hkey : Carries key key')
      (h : Moved .value node node') (hs : Moved (.fields false) fields fields') :
      Moved (.fields first) (⟨key, afterKey, none, node, after⟩ :: fields)
        (⟨key', afterKey', none, node', after'⟩ :: fields')

/-- A part of a JSON text takes its bytes, and it can stand anywhere. -/
theorem Spelled.move {p : Part} {start stop : Nat} {text : List Char} {tree : p.Value}
    (h : Spelled p start text tree stop) : stop = start + byteLength text ∧
      ∀ start', ∃ tree', Spelled p start' text tree' (start' + byteLength text) ∧
        Moved p tree tree' := by
  induction h with
  | null => exact ⟨rfl, fun _ => ⟨_, .null, .null⟩⟩
  | trueWord => exact ⟨rfl, fun _ => ⟨_, .trueWord, .bool⟩⟩
  | falseWord => exact ⟨rfl, fun _ => ⟨_, .falseWord, .bool⟩⟩
  | number h =>
    rw [h.byteLength_eq]
    exact ⟨rfl, fun _ => ⟨_, .number h, .number⟩⟩
  | @string start stop text s h =>
    obtain ⟨rfl, hmove⟩ := h.move
    refine ⟨add_byteLength_cons rfl start text, fun start' => ?_⟩
    obtain ⟨s', hs', hcarries⟩ := hmove (start' + 1)
    rw [← add_byteLength_cons rfl]
    exact ⟨_, .string hs', .string hcarries⟩
  | @array start stop text items h ih =>
    obtain ⟨rfl, hmove⟩ := ih
    refine ⟨add_byteLength_cons rfl start text, fun start' => ?_⟩
    obtain ⟨items', hitems', hmoved⟩ := hmove (start' + 1)
    rw [← add_byteLength_cons rfl]
    exact ⟨_, .array hitems', .array hmoved⟩
  | @object start stop text fields h ih =>
    obtain ⟨rfl, hmove⟩ := ih
    refine ⟨add_byteLength_cons rfl start text, fun start' => ?_⟩
    obtain ⟨fields', hfields', hmoved⟩ := hmove (start' + 1)
    rw [← add_byteLength_cons rfl]
    exact ⟨_, .object hfields', .object hmoved⟩
  | @itemsEnd first start ws hws =>
    refine ⟨add_byteLength_end hws rfl start, fun start' => ?_⟩
    rw [← add_byteLength_end hws rfl]
    exact ⟨_, .itemsEnd hws, .itemsEnd⟩
  | @item first start mid stop separator text more node items hseparator h hs ih ihs =>
    obtain ⟨rfl, hmove⟩ := ih
    obtain ⟨rfl, hmoves⟩ := ihs
    have hwidth : ∀ start, start + separator.length + byteLength text + byteLength more
        = start + byteLength (separator ++ (text ++ more)) := by
      intro start
      rw [byteLength_append, byteLength_append, hseparator.byteLength_eq]
      omega
    refine ⟨hwidth start, fun start' => ?_⟩
    obtain ⟨node', hnode', hmoved⟩ := hmove (start' + separator.length)
    obtain ⟨items', hitems', hmoved'⟩ := hmoves (start' + separator.length + byteLength text)
    rw [← hwidth]
    exact ⟨_, .item hseparator hnode' hitems', .item hmoved hmoved'⟩
  | @fieldsEnd first start ws hws =>
    refine ⟨add_byteLength_end hws rfl start, fun start' => ?_⟩
    rw [← add_byteLength_end hws rfl]
    exact ⟨_, .fieldsEnd hws, .fieldsEnd⟩
  | @field first start afterKey mid stop separator keyText ws ws' text more key node fields
      hseparator hkey hws hws' h hs ih ihs =>
    obtain ⟨rfl, hkeyMove⟩ := hkey.move
    obtain ⟨rfl, hmove⟩ := ih
    obtain ⟨rfl, hmoves⟩ := ihs
    have hwidth : ∀ start, start + separator.length + 1 + byteLength keyText + ws.length + 1
        + ws'.length + byteLength text + byteLength more = start + byteLength
          (separator ++ '"' :: (keyText ++ (ws ++ ':' :: (ws' ++ (text ++ more))))) := by
      intro start
      rw [← memberFront_append, byteLength_append, byteLength_append,
        add_byteLength_memberFront hseparator hws hws', Nat.add_assoc, Nat.add_assoc]
    refine ⟨hwidth start, fun start' => ?_⟩
    obtain ⟨key', hkey', hcarries⟩ := hkeyMove (start' + separator.length + 1)
    obtain ⟨node', hnode', hmoved⟩ := hmove _
    obtain ⟨fields', hfields', hmoved'⟩ := hmoves _
    rw [← hwidth]
    exact ⟨_, .field hseparator hkey' hws hws' hnode' hfields', .field hcarries hmoved hmoved'⟩

/-- An object can stand anywhere. -/
theorem IsObjectText.move {start : Nat} {text : List Char} (h : IsObjectText start text)
    (start' : Nat) : IsObjectText start' text := by
  obtain ⟨fields, stop, hspelled⟩ := h
  obtain ⟨-, hmove⟩ := hspelled.move
  obtain ⟨tree, htree, hmoved⟩ := hmove start'
  cases hmoved
  cases htree with
  | object hfields => exact ⟨_, _, .object hfields⟩

end Json

/-! ## Decoding -/

namespace Decode

open Json (Part Node Item Field Fault Breakdown Moved)

/-- What decoders make of the first value they make of the second one too, also if more may be open
there. -/
structure NodeCarried (node node' : Node) : Prop where
  finish : ∃ stop stop', node.finish = .ok stop ∧ node'.finish = .ok stop'
  string : Carries (string node) (string node')
  boolean : Carries (boolean node) (boolean node')
  optionalString : Carries (optionalString node) (optionalString node')
  schema {m n : Nat} (h : m ≤ n) : Carries (schema m node) (schema n node')
  optionalSchemas {m n : Nat} (h : m ≤ n) :
    Carries (optionalSchemas m node) (optionalSchemas n node')
  optionalProperties {m n : Nat} (h : m ≤ n) :
    Carries (optionalProperties m node) (optionalProperties n node')
  property {m n : Nat} (h : m ≤ n) : Carries (property m node) (property n node')

/-- The same for the items of a list. -/
structure ItemsCarried (items items' : List Item) : Prop where
  recordItems {m n : Nat} (h : m ≤ n) (index : Nat) (r : Record) :
    Carries (recordItems m index r items) (recordItems n index r items')
  schemaItems {m n : Nat} (h : m ≤ n) (index : Nat) :
    Carries (schemaItems m index items) (schemaItems n index items')
  propertyItems {m n : Nat} (h : m ≤ n) (index : Nat) :
    Carries (propertyItems m index items) (propertyItems n index items')
  propertyRecordItems {m n : Nat} (h : m ≤ n) (index : Nat) (r : PropertyRecord) :
    Carries (propertyRecordItems m index r items) (propertyRecordItems n index r items')

/-- The same for the members of an object. -/
structure FieldsCarried (fields fields' : List Field) : Prop where
  recordFields {m n : Nat} (h : m ≤ n) (r : Record) :
    Carries (recordFields m r fields) (recordFields n r fields')
  propertyFields {m n : Nat} (h : m ≤ n) (r : PropertyRecord) :
    Carries (propertyFields m r fields) (propertyFields n r fields')

/-- The same for any part of a text. -/
def Carried : (p : Part) → p.Value → p.Value → Prop
  | .value => NodeCarried
  | .items _ => ItemsCarried
  | .fields _ => FieldsCarried

section Containers

variable {node node' : Node} {items items' : List Item} {fields fields' : List Field}
  {key key' : Except Fault String} {m n start start' stop stop' after after' : Nat}

theorem carries_finishRecord (r : Record) (missing missing' : Problem) (stop stop' : Nat) :
    Carries (finishRecord r missing stop) (finishRecord r missing' stop') := by
  rw [finishRecord, finishRecord]
  cases r.name with
  | none => exact .error _ _
  | some name => exact .refl _

theorem carries_finishProperty (r : PropertyRecord) (missing missing' : PropertyField → Problem)
    (stop stop' : Nat) :
    Carries (finishProperty r missing stop) (finishProperty r missing' stop') := by
  rw [finishProperty, finishProperty]
  split
  · exact .error _ _
  · exact .error _ _
  · exact .refl _

theorem NodeCarried.recordField (h : NodeCarried node node') (hle : m ≤ n) (r : Record)
    (field : RecordField) :
    Carries
      (recordField r field node (fun _ => Decode.optionalSchemas m node)
        (fun _ => Decode.optionalProperties m node))
      (recordField r field node' (fun _ => Decode.optionalSchemas n node')
        (fun _ => Decode.optionalProperties n node')) := by
  cases field with
  | name => exact h.string.map
  | nullable => exact h.boolean.map
  | literal => exact h.optionalString.map
  | properties => exact (h.optionalProperties hle).map
  | params | types => exact (h.optionalSchemas hle).map

theorem NodeCarried.propertyField (h : NodeCarried node node') (hle : m ≤ n) (r : PropertyRecord)
    (field : PropertyField) :
    Carries (propertyField r field node fun _ => Decode.schema m node)
      (propertyField r field node' fun _ => Decode.schema n node') := by
  cases field with
  | key => exact h.string.map
  | type => exact (h.schema hle).map
  | optional => exact h.boolean.map

theorem ItemsCarried.array (h : ItemsCarried items items') :
    NodeCarried (.array start items (.ok stop)) (.array start' items' (.ok stop')) where
  finish := ⟨stop, stop', rfl, rfl⟩
  string := .error _ _
  boolean := .error _ _
  optionalString := .error _ _
  schema := .opened (f := (schema · (.array start items (.ok stop))))
    (g := (schema · (.array start' items' (.ok stop')))) rfl fun hle =>
      (h.recordItems hle 0 .empty).bind fun r => carries_finishRecord r _ _ _ _
  optionalSchemas := .opened (f := (optionalSchemas · (.array start items (.ok stop))))
    (g := (optionalSchemas · (.array start' items' (.ok stop')))) rfl fun hle =>
      (h.schemaItems hle 0).bind fun _ => .refl _
  optionalProperties := .opened (f := (optionalProperties · (.array start items (.ok stop))))
    (g := (optionalProperties · (.array start' items' (.ok stop')))) rfl fun hle =>
      (h.propertyItems hle 0).bind fun _ => .refl _
  property := .opened (f := (property · (.array start items (.ok stop))))
    (g := (property · (.array start' items' (.ok stop')))) rfl fun hle =>
      (h.propertyRecordItems hle 0 .empty).bind fun r => carries_finishProperty r
        (fun _ => .tooShort items.length .propertyRecord)
        (fun _ => .tooShort items'.length .propertyRecord) stop stop'

theorem FieldsCarried.object (h : FieldsCarried fields fields') :
    NodeCarried (.object start fields (.ok stop)) (.object start' fields' (.ok stop')) where
  finish := ⟨stop, stop', rfl, rfl⟩
  string := .error _ _
  boolean := .error _ _
  optionalString := .error _ _
  schema := .opened (f := (schema · (.object start fields (.ok stop))))
    (g := (schema · (.object start' fields' (.ok stop')))) rfl fun hle =>
      (h.recordFields hle .empty).bind fun r => carries_finishRecord r _ _ _ _
  optionalSchemas _ := .error _ _
  optionalProperties _ := .error _ _
  property := .opened (f := (property · (.object start fields (.ok stop))))
    (g := (property · (.object start' fields' (.ok stop')))) rfl fun hle =>
      (h.propertyFields hle .empty).bind fun r => carries_finishProperty r
        (fun field => .missingField field.toKey) (fun field => .missingField field.toKey) stop stop'

theorem ItemsCarried.nil : ItemsCarried [] [] :=
  ⟨fun _ _ _ => .refl _, fun _ _ => .refl _, fun _ _ => .refl _, fun _ _ _ => .refl _⟩

theorem ItemsCarried.cons (h : NodeCarried node node') (hs : ItemsCarried items items') :
    ItemsCarried (⟨start, node, after⟩ :: items) (⟨start', node', after'⟩ :: items') where
  recordItems hle index r := by
    rw [Decode.recordItems, Decode.recordItems]
    cases RecordField.all[index]? with
    | none => exact .error _ _
    | some field =>
      exact (h.recordField hle r field).mapError.bind fun r => hs.recordItems hle (index + 1) r
  schemaItems hle index :=
    (h.schema hle).mapError.bind fun _ => (hs.schemaItems hle (index + 1)).bind fun _ => .refl _
  propertyItems hle index :=
    (h.property hle).mapError.bind fun _ => (hs.propertyItems hle (index + 1)).bind fun _ => .refl _
  propertyRecordItems hle index r := by
    rw [Decode.propertyRecordItems, Decode.propertyRecordItems]
    cases PropertyField.all[index]? with
    | none => exact .error _ _
    | some field =>
      exact (h.propertyField hle r field).mapError.bind fun r =>
        hs.propertyRecordItems hle (index + 1) r

theorem FieldsCarried.nil : FieldsCarried [] [] := ⟨fun _ _ => .refl _, fun _ _ => .refl _⟩

theorem FieldsCarried.cons (hkey : Carries key key') (h : NodeCarried node node')
    (hs : FieldsCarried fields fields') :
    FieldsCarried (⟨key, start, none, node, after⟩ :: fields)
      (⟨key', start', none, node', after'⟩ :: fields') where
  recordFields hle r := by
    rw [Decode.recordFields, Decode.recordFields]
    refine hkey.mapError.mapError.bind fun key => ?_
    cases RecordField.ofKey? key with
    | none => exact .error _ _
    | some field =>
      dsimp only
      split
      · exact .error _ _
      · exact (Carries.refl _).bind fun _ =>
          (h.recordField hle r field).mapError.bind fun r => hs.recordFields hle r
  propertyFields hle r := by
    obtain ⟨stop, stop', hstop, hstop'⟩ := h.finish
    rw [Decode.propertyFields, Decode.propertyFields, hstop, hstop']
    refine hkey.mapError.mapError.bind fun key => ?_
    cases PropertyField.ofKey? key with
    | none => exact (Carries.refl _).bind fun _ => hs.propertyFields hle r
    | some field =>
      dsimp only
      split
      · exact .error _ _
      · exact (Carries.refl _).bind fun _ =>
          (h.propertyField hle r field).mapError.bind fun r => hs.propertyFields hle r

/-- Decoders make the same of a part of a text wherever it stands. -/
theorem carried_of_moved {p : Part} {tree tree' : p.Value} (h : Moved p tree tree') :
    Carried p tree tree' := by
  induction h with
  | null =>
    exact ⟨⟨_, _, rfl, rfl⟩, .error _ _, .error _ _, .refl _, fun _ => .error _ _, fun _ => .refl _,
      fun _ => .refl _, fun _ => .error _ _⟩
  | bool =>
    exact ⟨⟨_, _, rfl, rfl⟩, .error _ _, .refl _, .error _ _, fun _ => .error _ _,
      fun _ => .error _ _, fun _ => .error _ _, fun _ => .error _ _⟩
  | number =>
    exact ⟨⟨_, _, rfl, rfl⟩, .error _ _, .error _ _, .error _ _, fun _ => .error _ _,
      fun _ => .error _ _, fun _ => .error _ _, fun _ => .error _ _⟩
  | string h =>
    exact ⟨⟨_, _, rfl, rfl⟩, h.mapError, .error _ _, h.mapError.map, fun _ => .error _ _,
      fun _ => .error _ _, fun _ => .error _ _, fun _ => .error _ _⟩
  | array _ ih => exact ItemsCarried.array ih
  | object _ ih => exact FieldsCarried.object ih
  | itemsEnd => exact ItemsCarried.nil
  | item _ _ ih ihs => exact ItemsCarried.cons ih ihs
  | fieldsEnd => exact FieldsCarried.nil
  | field hkey _ _ ih ihs => exact FieldsCarried.cons hkey ih ihs

end Containers

end Decode

open Json (Node Spelled maxDepth)

/-- A record that is decoded somewhere in a text is one when it stands alone. -/
theorem Schema.parse_of_spelled {start stop depth : Nat} {text : List Char} {node : Node}
    {s : Schema} (h : Spelled .value start text node stop) (hdepth : depth ≤ maxDepth)
    (hs : Decode.schema depth node = .ok s) : Schema.parse text = .ok s := by
  obtain ⟨-, hmove⟩ := h.move
  obtain ⟨node', hspelled, hmoved⟩ := hmove 0
  have halone : Node.ofText text = (node', ⟨0 + byteLength text, []⟩) := by
    have hread : Node.ofText ([] ++ (text ++ [])) = (node', ⟨0 + byteLength text, []⟩) :=
      Json.ofText_of_spelled Json.Blanks.nil hspelled fun _ => nofun
    rwa [List.nil_append, List.append_nil] at hread
  have hs' : Decode.schema maxDepth node' = .ok s :=
    (Decode.carried_of_moved hmoved : Decode.NodeCarried node node').schema hdepth s hs
  rw [Schema.parse, halone]
  exact bind_eq_ok.mpr ⟨s, hs', rfl⟩

end AliasCheck
