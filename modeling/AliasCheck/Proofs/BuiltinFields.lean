import AliasCheck.Proofs.PrintedTerms
import AliasCheck.Proofs.Verdicts
import AliasCheck.Registry

/-!
# From a source to the errors of a document

For object types whose members all have types with a builtin check, the way from the source to the
errors of a document can be followed to its end. The source is printed as terms are, so it is known
what is read from it; what is read compiles without any further checks, and the validator finds what
the declaration lets one expect.
-/

namespace AliasCheck

open Piece

/-- A type with a builtin check. -/
inductive BuiltinType where
  | string | number | boolean | date
  deriving DecidableEq, Repr

namespace BuiltinType

def name : BuiltinType → String
  | string => "string"
  | number => "number"
  | boolean => "boolean"
  | date => "Date"

/-- What values of the type have to pass. -/
def check : BuiltinType → Check
  | string => Check.ofType "string"
  | number => Check.ofType "number"
  | boolean => Check.ofType "boolean"
  | date => Check.instanceOf .date

def term : BuiltinType → TypeTerm
  | string => .keyword .string
  | number => .keyword .number
  | boolean => .keyword .boolean
  | date => .named "Date"

end BuiltinType

/-- The declaration of a member whose type has a builtin check. -/
structure BuiltinField where
  key : String
  nullable : Bool
  type : BuiltinType

namespace BuiltinField

/-- The member as it is written. -/
def text (f : BuiltinField) : String :=
  quoteKey f.key ++ ":" ++ (if f.nullable then "?" else "") ++ f.type.name

/-- The source that declares an object type with these members, with some spaces inside the braces
and behind commas. -/
def source (gap : Nat) (fields : List BuiltinField) : String :=
  "type X = \x7b" ++ String.ofList (List.replicate gap ' ')
    ++ ("," ++ String.ofList (List.replicate gap ' ')).intercalate (fields.map text)
    ++ String.ofList (List.replicate gap ' ') ++ "\x7d"

/-- What the member has against a document. -/
def errorIn (document : Json) (f : BuiltinField) : Option KeyedError :=
  (Validator.refusal f.type.check f.nullable (document.get? f.key)).map fun reason =>
    ⟨f.key, document.get? f.key, reason⟩

def term (f : BuiltinField) : TypeTerm := if f.nullable then .nullable f.type.term else f.type.term

def member (f : BuiltinField) : Member := ⟨f.key, f.term, false⟩

def property (f : BuiltinField) : Property := ⟨f.key, ⟨f.nullable, .value f.type.name⟩, false⟩

/-! ## The source -/

section Source

variable (gap : Nat) (short : List Nat → Bool) (path : List Nat)

/-- The room in front of a piece. -/
def front (p : Piece) : Nat := if p = mark .closeBrace then gap else 0

/-- The room behind a piece. -/
def back (p : Piece) : Nat := if p = mark .openBrace ∨ p = mark .comma then gap else 0

theorem room_openBrace : front gap (mark .openBrace) = 0 ∧ back gap (mark .openBrace) = gap :=
  ⟨rfl, rfl⟩

theorem room_comma : front gap (mark .comma) = 0 ∧ back gap (mark .comma) = gap := ⟨rfl, rfl⟩

theorem room_closeBrace : front gap (mark .closeBrace) = gap ∧ back gap (mark .closeBrace) = 0 :=
  ⟨rfl, rfl⟩

theorem pieces_member (f : BuiltinField) : f.member.pieces short path
    = token .string (quoteKey f.key) :: mark .colon ::
      ((if f.nullable then [mark .question] else []) ++ [token .identifier f.type.name]) := by
  obtain ⟨key, nullable, type⟩ := f
  have htype : type.term.pieces short (0 :: path) = [token .identifier type.name] ∧
      type.term.pieces short path = [token .identifier type.name] := by
    cases type <;> exact ⟨rfl, rfl⟩
  cases nullable with
  | false => exact congrArg (token .string (quoteKey key) :: mark .colon :: ·) htype.2
  | true =>
    have hstrong : ¬ type.term.strength < 2 := by cases type <;> decide
    show _ :: _ :: TypeTerm.pieces short path (.nullable type.term) = _
    rw [TypeTerm.pieces, TypeTerm.enclose, if_neg hstrong, htype.1]
    rfl

/-- A member is written as its text, without any room. -/
theorem render_member (f : BuiltinField) :
    render (spread (front gap) (back gap) (f.member.pieces short path)) = f.text.toList := by
  have hroom : ∀ p ∈ f.member.pieces short path, front gap p = 0 ∧ back gap p = 0 := by
    intro p hp
    rw [pieces_member, List.mem_cons, List.mem_cons, List.mem_append, List.mem_singleton] at hp
    rcases hp with rfl | rfl | hp | rfl
    · exact ⟨rfl, rfl⟩
    · exact ⟨rfl, rfl⟩
    · split at hp
      · rw [List.mem_singleton] at hp
        subst hp
        exact ⟨rfl, rfl⟩
      · exact absurd hp List.not_mem_nil
    · exact ⟨rfl, rfl⟩
  have hquestion : render (if f.nullable then [mark .question] else [])
      = (if f.nullable then "?" else "").toList := by
    cases f.nullable <;> rfl
  have hname : render [token .identifier f.type.name] = f.type.name.toList := List.append_nil _
  have hkey : (token .string (quoteKey f.key)).text = (quoteKey f.key).toList := rfl
  have hcolon : (mark .colon).text = ":".toList := rfl
  rw [spread_eq_self hroom, pieces_member, text, render_cons, render_cons, render_append, hquestion,
    hname, hkey, hcolon]
  simp only [String.toList_append, List.append_assoc]

/-- The members stand between commas. -/
theorem render_members (i : Nat) (fields : List BuiltinField) :
    render (spread (front gap) (back gap)
        ((Member.listPieces short path i (fields.map member)).drop 1))
      = (',' :: List.replicate gap ' ').intercalate (fields.map fun f => f.text.toList) := by
  induction fields generalizing i with
  | nil => rfl
  | cons f fields ih =>
    have hrest := ih (i + 1)
    have hcomma : (mark .comma).text = [','] := rfl
    rw [List.map_cons, Member.listPieces, List.drop_one, List.tail_cons, spread_append,
      render_append, render_member]
    cases fields with
    | nil => rfl
    | cons g fields =>
      rw [List.map_cons, Member.listPieces, List.drop_one, List.tail_cons] at hrest
      rw [List.map_cons, Member.listPieces, spread_cons, (room_comma gap).1, (room_comma gap).2]
      simp only [List.replicate_zero, List.nil_append, render_cons, render_append, render_spaces,
        hrest, hcomma, List.map_cons, List.intercalate_cons_cons, List.append_assoc,
        List.cons_append]

theorem source_eq (fields : List BuiltinField) :
    source gap fields = "type X = " ++ String.ofList (render (spread (front gap) (back gap)
      ((TypeTerm.object (fields.map member) false).pieces short []))) := by
  have hmembers := render_members gap short [] 0 fields
  have hbody : ∀ body : List Char, (String.ofList body).toList = body :=
    fun _ => String.toList_ofList
  have hbraces : (mark .openBrace).text = "\x7b".toList ∧ (mark .closeBrace).text = "\x7d".toList :=
    ⟨rfl, rfl⟩
  have hnothing : spread (front gap) (back gap) [] = [] ∧ render [] = [] := ⟨rfl, rfl⟩
  rw [← String.toList_inj, source, TypeTerm.pieces]
  simp only [String.toList_append, String.toList_intercalate, List.map_map, hbody, spread_cons,
    spread_append, render_cons, render_append, render_spaces, hmembers, bar, room_openBrace,
    room_closeBrace, hbraces]
  simp [hnothing, Function.comp_def]

theorem isPrintable_object {fields : List BuiltinField}
    (h : ∀ f ∈ fields, Blanking.hasMark f.key.toList = false) :
    (TypeTerm.object (fields.map member) false).isPrintable = true := by
  rw [TypeTerm.isPrintable]
  induction fields with
  | nil => rfl
  | cons f fields ih =>
    rw [List.forall_mem_cons] at h
    have htype : f.type.term.isPrintable = true := by cases f.type <;> decide
    have hterm : f.term.isPrintable = true := by
      rw [term]
      split
      · rwa [TypeTerm.isPrintable]
      · exact htype
    rw [List.map_cons, Member.arePrintable, ih h.2, Bool.and_true]
    show Member.isPrintable ⟨f.key, f.term, false⟩ = true
    rw [Member.isPrintable, h.1, hterm]
    rfl

/-- No word of the source ends with the first word of the mark. -/
theorem not_opens_of_mem (i : Nat) (fields : List BuiltinField) {kind : Token.Kind} {text : String}
    (h : token kind text ∈ Member.listPieces short path i (fields.map member)) :
    kind = .string ∨ ¬ Blanking.Opens text.toList := by
  induction fields generalizing i with
  | nil => exact absurd h List.not_mem_nil
  | cons f fields ih =>
    have htype : ¬ Blanking.Opens f.type.name.toList := by cases f.type <;> decide
    rw [List.map_cons, Member.listPieces, List.mem_cons, List.mem_append, pieces_member,
      List.mem_cons, List.mem_cons, List.mem_append, List.mem_singleton] at h
    rcases h with h | (h | h | h | h) | h
    · cases h
      exact .inr (by decide)
    · cases h
      exact .inl rfl
    · cases h
      exact .inr (by decide)
    · split at h
      · rw [List.mem_singleton] at h
        cases h
        exact .inr (by decide)
      · exact absurd h List.not_mem_nil
    · cases h
      exact .inr htype
    · exact ih _ h

theorem legible_spread {fields : List BuiltinField}
    (h : ∀ f ∈ fields, Blanking.hasMark f.key.toList = false) :
    Legible (spread (front gap) (back gap)
      ((TypeTerm.object (fields.map member) false).pieces short [])) := by
  refine (TypeTerm.legible_pieces short (isPrintable_object h)).spread fun kind text hmem => ?_
  rw [TypeTerm.pieces, List.mem_cons, List.mem_append, List.mem_append, List.mem_append] at hmem
  rcases hmem with hmem | hmem | hmem | hmem | hmem
  · cases hmem
    exact .inr (by decide)
  · exact absurd hmem List.not_mem_nil
  · exact not_opens_of_mem short [] 0 fields (List.mem_of_mem_drop hmem)
  · exact absurd hmem List.not_mem_nil
  · rw [List.mem_singleton] at hmem
    cases hmem
    exact .inr (by decide)

theorem parse_source {fields : List BuiltinField}
    (h : ∀ f ∈ fields, Blanking.hasMark f.key.toList = false) :
    Program.parse (source gap fields)
      = .ok [.declares ⟨"X", [], .object (fields.map member) false⟩] := by
  rw [source_eq gap fun _ => false]
  refine Program.parse_declaration (legible_spread gap _ h) fun ts hts => ?_
  exact TypeTerm.reads_pieces _ (isPrintable_object h) (spells_spread.mp hts)

theorem toSchema_object (fields : List BuiltinField) :
    (TypeTerm.object (fields.map member) false).toSchema = .object (fields.map property) := by
  have hmembers : Member.toProperties (fields.map member) = fields.map property := by
    induction fields with
    | nil => rfl
    | cons f fields ih =>
      have hproperty : f.member.toProperty = f.property := by
        obtain ⟨key, nullable, type⟩ := f
        cases nullable <;> cases type <;> rfl
      rw [List.map_cons, Member.toProperties, ih, hproperty, List.map_cons]
  rw [TypeTerm.toSchema, hmembers]

theorem ofSource_source (gap : Nat) {fields : List BuiltinField}
    (h : ∀ f ∈ fields, Blanking.hasMark f.key.toList = false) :
    Registry.ofSource (source gap fields) = .ok [("X", .object (fields.map property))] := by
  rw [Registry.ofSource, parse_source gap h, ← toSchema_object]
  rfl

end Source

/-! ## The errors -/

theorem checkFor_name (checks : Table Check) (b : BuiltinType) :
    Validator.checkFor checks b.name = some b.check := by
  cases b <;> rfl

/-- Builtin checks say why they refuse a value. -/
theorem check_ne_error_empty (b : BuiltinType) (value : Option Json) :
    b.check value ≠ .error "" := by
  have htype : ∀ expected, Check.ofType expected value ≠ .error "" := by
    intro expected h
    rw [Check.ofType] at h
    split at h
    · cases h
    · simp [toString] at h
  cases b with
  | string => exact htype "string"
  | number => exact htype "number"
  | boolean => exact htype "boolean"
  | date =>
    intro h
    rw [BuiltinType.check, Check.instanceOf] at h
    split at h
    · cases h
    · simp [toString] at h

theorem reason_ne_empty {b : BuiltinType} {nullable : Bool} {value : Option Json} {reason : String}
    (h : Validator.refusal b.check nullable value = some reason) : reason ≠ "" := by
  rintro rfl
  rcases Validator.refusal_eq_some h with h | h
  · exact absurd h (by decide)
  · exact check_ne_error_empty b value h

theorem errorFor_property (checks : Table Check) (document : Json) (f : BuiltinField) :
    Validator.errorFor checks document f.key f.property.schema = errorIn document f := by
  have hcheck : Validator.checkFor checks f.property.schema.name = some f.type.check :=
    checkFor_name checks f.type
  rw [Validator.errorFor, hcheck, errorIn]
  show (Validator.refusal f.type.check f.nullable (document.get? f.key)).bind _ = _
  cases hrefusal : Validator.refusal f.type.check f.nullable (document.get? f.key) with
  | none => rfl
  | some reason => exact if_neg (reason_ne_empty hrefusal)

/-- A source that declares an object type whose members have types with builtin checks gives one
alias, which compiles without further checks and finds in a document just what the members have
against it, in their order. -/
theorem ofSource_then_validate (gap : Nat) (fields : List BuiltinField)
    (h : ∀ f ∈ fields, Blanking.hasMark f.key.toList = false) :
    ∃ s v, Registry.ofSource (source gap fields) = .ok [("X", s)] ∧
      Validator.compile [] s = .ok v ∧
      ∀ document, Validator.validate v document = fields.filterMap (errorIn document) := by
  have hchecks : ∀ p ∈ fields.map property, Validator.HasCheck [] p := by
    intro p hp
    obtain ⟨f, -, rfl⟩ := List.mem_map.mp hp
    exact Validator.hasCheck_iff.mpr ⟨_, checkFor_name [] f.type⟩
  have hcompiles : ∃ v, Validator.compile [] (.object (fields.map property)) = .ok v :=
    Validator.exists_compile_eq_ok.mpr ⟨fields.map property, rfl, hchecks⟩
  obtain ⟨v, hv⟩ := hcompiles
  refine ⟨.object (fields.map property), v, ofSource_source gap h, hv, fun document => ?_⟩
  rw [Validator.validate_of_compile hv rfl, List.filterMap_map]
  exact List.filterMap_congr fun f _ => errorFor_property [] document f

/-- Keys may be empty, be written with backslashes and come up twice. -/
theorem ofSource_then_validate_example :
    ∃ s v, Registry.ofSource (source 1 [⟨"a\\\"\n", true, .number⟩, ⟨"", false, .string⟩,
        ⟨"", true, .date⟩, ⟨"b", false, .boolean⟩]) = .ok [("X", s)] ∧
      Validator.compile [] s = .ok v ∧
      Validator.validate v (.object [("", .bool true), ("a\\\"\n", .null)])
        = [⟨"", some (.bool true), "expected string but found boolean"⟩,
          ⟨"", some (.bool true), "expected Date but was not instance"⟩,
          ⟨"b", none, "missing"⟩] := by
  obtain ⟨s, v, hsource, hcompile, hvalidate⟩ := ofSource_then_validate 1
    [⟨"a\\\"\n", true, .number⟩, ⟨"", false, .string⟩, ⟨"", true, .date⟩, ⟨"b", false, .boolean⟩]
    (by decide)
  refine ⟨s, v, hsource, hcompile, ?_⟩
  rw [hvalidate]
  rfl

end BuiltinField

end AliasCheck
