import AliasCheck.Proofs.JsonGrammar
import AliasCheck.Registry

/-!
# Text behind a JSON document

The reader of documents accepts a text only if the whole of it is one JSON value with blanks around
it. The reader of registries stops behind the first value: a registry that is followed by a second
one, by leftovers of an earlier text or by anything else is the same as the registry alone.
-/

namespace AliasCheck
namespace Json

/-- The text is a single JSON value with nothing but blanks in front of it and behind it. -/
def IsOneValue (text : List Char) : Prop :=
  ∃ blanks value blanks' node stop, text = blanks ++ (value ++ blanks') ∧ Blanks blanks ∧
    Blanks blanks' ∧ Spelled .value blanks.length value node stop

/-- The text, which begins at `start`, is a JSON object from its opening to its closing brace. -/
def IsObjectText (start : Nat) (text : List Char) : Prop :=
  ∃ fields stop, Spelled .value start text (.object start fields (.ok stop)) stop

/-! ## Documents -/

/-- A tree that has a value has an end. -/
theorem Node.finish_of_value {node : Node} {depth : Nat} {x : Json}
    (h : node.value depth = .ok x) : ∃ stop, node.finish = .ok stop := by
  cases node with
  | null stop | bool _ stop | number _ stop | string _ stop => exact ⟨stop, rfl⟩
  | array start items finish =>
    cases depth with
    | zero => cases h
    | succ depth =>
      obtain ⟨_, _, h⟩ := bind_eq_ok.mp h
      obtain ⟨stop, hstop, _⟩ := bind_eq_ok.mp h
      exact ⟨stop, mapError_eq_ok.mp hstop⟩
  | object start fields finish =>
    cases depth with
    | zero => cases h
    | succ depth =>
      obtain ⟨_, _, h⟩ := bind_eq_ok.mp h
      obtain ⟨stop, hstop, _⟩ := bind_eq_ok.mp h
      exact ⟨stop, mapError_eq_ok.mp hstop⟩
  | broken breakdown => cases h

/-- Only blanks stand where no trailing text is found. -/
theorem blanks_of_trailing {c : Cursor} (h : trailing? c = none) : Blanks c.rest := by
  obtain ⟨ws, cs, hws, hrest, hskip, -⟩ := c.exists_skipBlanks
  rw [trailing?, hskip] at h
  cases cs with
  | nil =>
    rw [hrest, List.append_nil]
    exact hws
  | cons d ds => cases h

/-- A text that is read as a document is one value with blanks around it. -/
theorem isOneValue_of_parse {text : List Char} {x : Json} (h : parse text = .ok x) :
    IsOneValue text := by
  rw [parse] at h
  generalize hread : Node.ofText text = read at h
  obtain ⟨node, after⟩ := read
  obtain ⟨x', hvalue, hend⟩ := bind_eq_ok.mp h
  obtain ⟨stop, hfinish⟩ := Node.finish_of_value hvalue
  obtain ⟨ws, value, hws, hrest, -, hspelled⟩ := isSound_read _ _ node after stop hread hfinish
  cases htrailing : trailing? after with
  | some fault =>
    rw [htrailing] at hend
    cases hend
  | none =>
    rw [Nat.zero_add] at hspelled
    exact ⟨ws, value, after.rest, node, stop, hrest, hws, blanks_of_trailing htrailing, hspelled⟩

/-- In a text that is one value, what the reader leaves behind the value are blanks. -/
theorem IsOneValue.rest_ofText {text : List Char} (h : IsOneValue text) :
    Blanks (Node.ofText text).2.rest := by
  obtain ⟨ws, value, ws', node, stop, rfl, hws, hws', hspelled⟩ := h
  have hapart : node.Apart ws' := by
    intro _ d hd
    have hblank : Cursor.isBlank d = true := hws' d (List.mem_of_mem_head? hd)
    simp only [Cursor.isBlank, Bool.or_eq_true, decide_eq_true_eq] at hblank
    rcases hblank with ((rfl | rfl) | rfl) | rfl <;> decide
  rw [ofText_of_spelled hws hspelled hapart]
  exact hws'

end Json

/-! ## Registries -/

namespace Registry

open Json (Blanks IsObjectText IsOneValue)

/-- A registry is decoded from an object that is complete. -/
theorem object_of_registry {node : Json.Node} {depth : Nat} {r : Registry}
    (h : Decode.registry depth node = .ok r) :
    ∃ start fields stop, node = .object start fields (.ok stop) := by
  cases node with
  | object start fields finish =>
    cases depth with
    | zero => cases h
    | succ depth =>
      obtain ⟨_, _, h⟩ := bind_eq_ok.mp h
      obtain ⟨stop, hstop, _⟩ := bind_eq_ok.mp h
      exact ⟨start, fields, stop, by rw [mapError_eq_ok.mp (mapError_eq_ok.mp hstop)]⟩
  | null _ | bool _ _ | number _ _ | string _ _ | array _ _ _ | broken _ => cases h

/-- What a registry is, or why it is none, does not depend on what follows its object. -/
theorem parse_append {blanks object : List Char} (hblanks : Blanks blanks)
    (hobject : IsObjectText blanks.length object) (rest : List Char) :
    parse (blanks ++ (object ++ rest)) = parse (blanks ++ object) := by
  obtain ⟨fields, stop, hspelled⟩ := hobject
  have hread : ∀ rest, Json.Node.ofText (blanks ++ (object ++ rest))
      = (.object blanks.length fields (.ok stop), ⟨stop, rest⟩) := by
    intro rest
    refine Json.ofText_of_spelled hblanks hspelled ?_
    rintro ⟨_, _, heq⟩
    cases heq
  have halone := hread []
  rw [List.append_nil] at halone
  rw [parse, parse, hread, halone]

/-- A text that is read as a registry begins with a JSON object, with blanks in front of it, and
what stands behind the object does not matter. -/
theorem object_of_parse {text : List Char} {r : Registry} (h : parse text = .ok r) :
    ∃ blanks object rest, text = blanks ++ (object ++ rest) ∧ Blanks blanks ∧
      IsObjectText blanks.length object ∧
      ∀ other, parse (blanks ++ (object ++ other)) = .ok r := by
  have hdecode := h
  rw [parse] at hdecode
  generalize hread : Json.Node.ofText text = read at hdecode
  obtain ⟨node, after⟩ := read
  obtain ⟨start, fields, stop, rfl⟩ := object_of_registry hdecode
  obtain ⟨blanks, object, hblanks, hrest, -, hspelled⟩ :=
    Json.isSound_read _ _ _ after stop hread rfl
  rw [Nat.zero_add] at hspelled
  have htext : text = blanks ++ (object ++ after.rest) := hrest
  have hobject : IsObjectText blanks.length object := by
    cases hspelled with
    | object hfields => exact ⟨fields, stop, .object hfields⟩
  refine ⟨blanks, object, after.rest, htext, hblanks, hobject, fun other => ?_⟩
  rw [parse_append hblanks hobject, ← parse_append hblanks hobject after.rest, ← htext, h]

/-- Something stands behind the object here. -/
theorem object_of_parse_example :
    parse "\x7b\"A\":[\"string\"]\x7d \x7b".toList = .ok [("A", .value "string")] ∧
      ∃ blanks object rest,
        "\x7b\"A\":[\"string\"]\x7d \x7b".toList = blanks ++ (object ++ rest) ∧ Blanks blanks ∧
        IsObjectText blanks.length object ∧
        ∀ other, parse (blanks ++ (object ++ other)) = .ok [("A", .value "string")] := by
  have h : parse "\x7b\"A\":[\"string\"]\x7d \x7b".toList = .ok [("A", .value "string")] := by
    decide +kernel
  exact ⟨h, object_of_parse h⟩

/-- An empty registry with a letter behind it is read, and it is not one JSON value; the reader of
documents refuses it. -/
theorem parse_of_not_isOneValue :
    parse "\x7b\x7d x".toList = .ok [] ∧ ¬ IsOneValue "\x7b\x7d x".toList ∧
      Json.parse "\x7b\x7d x".toList = .error ⟨.trailingText, 4⟩ := by
  refine ⟨rfl, fun h => ?_, rfl⟩
  have hletter := h.rest_ofText 'x' (by decide +kernel)
  cases hletter

end Registry

end AliasCheck
