import AliasCheck.Proofs.Places
import AliasCheck.Schema.Display

/-!
# The pieces of displayed schemas

The text that displays a schema is put together of the same pieces as printed terms, with other
separators and spaces, and with keys that stand for themselves. It falls into just these pieces if
the names, keys and strings of the schema are such that the language of declarations has a way to
write them. `Schema.isLegible` says what is needed.
-/

namespace AliasCheck

open Piece

/-! ## What can be displayed and read -/

/-- The names of the values that have a word of their own. -/
def Schema.builtinNames : List String := ["string", "number", "boolean", "any"]

/-- The character is shown by its code point. -/
def Quote.needsCodePoint (c : Char) : Bool := char c == Escape.codePoint c

/-- A union without a question mark, which no other union can tell from its own members. -/
def Schema.isPlainUnion (s : Schema) : Bool := !s.nullable && s.members?.isSome

mutual

/-- The text of the schema is a type that stands for it. -/
def Schema.isLegible : Schema → Bool
  | ⟨_, shape⟩ => shape.isLegible
  termination_by structural s => s

/-- The text of the shape is a type that stands for it. -/
def Shape.isLegible : Shape → Bool
  | .value name => Schema.builtinNames.contains name || isTypeName name
  | .literal name text =>
    name == "StringLiteral" && !text.toList.any Quote.needsCodePoint
      && !Blanking.hasMark (quote text).toList
  | .object properties => Property.areLegible properties
  | .generic name params => isTypeName name && Schema.areLegible params
  | .union members =>
    decide (2 ≤ members.length) && !members.any Schema.isPlainUnion && Schema.areLegible members
  termination_by structural s => s

/-- The key of the property is a word or a number, and its type can be read. -/
def Property.isLegible : Property → Bool
  | ⟨key, schema, _⟩ =>
    (Token.isText .identifier key || Token.isText .number key) && schema.isLegible
  termination_by structural p => p

/-- The texts of all of the schemas are types that stand for them. -/
def Schema.areLegible : List Schema → Bool
  | [] => true
  | s :: ss => s.isLegible && Schema.areLegible ss
  termination_by structural ss => ss

/-- The texts of all of the properties are members that stand for them. -/
def Property.areLegible : List Property → Bool
  | [] => true
  | p :: ps => p.isLegible && Property.areLegible ps
  termination_by structural ps => ps

end

/-! ## The pieces of the text -/

/-- What stands between members of a union. -/
def Schema.bars : List Piece := [space, mark .pipe, space]

/-- What stands between arguments. -/
def Schema.commas : List Piece := [mark .comma, space]

/-- What stands between properties. -/
def Property.semicolons : List Piece := [mark .semicolon, space]

/-- What stands between a key and its type. -/
def Property.colon : List Piece := [mark .colon, space]

/-- The kind of the token that a key is. -/
def Property.keyKind (key : String) : Token.Kind :=
  if Token.isText .identifier key then .identifier else .number

mutual

/-- The pieces of the text of a schema. -/
def Schema.pieces : Schema → List Piece
  | ⟨nullable, shape⟩ => (if nullable then [mark .question] else []) ++ shape.pieces nullable
  termination_by structural s => s

/-- The pieces of the text of a shape. -/
def Shape.pieces (nullable : Bool) : Shape → List Piece
  | .value name => ofName name
  | .literal _ text => [token .string (quote text)]
  | .object [] => [mark .openBrace, mark .closeBrace]
  | .object (p :: ps) =>
    mark .openBrace :: space :: (p.pieces
      ++ (behind Property.semicolons (Property.listPieces ps) ++ [space, mark .closeBrace]))
  | .generic name [] => ofName name ++ [mark .openAngle, mark .closeAngle]
  | .generic name (s :: ss) =>
    ofName name ++ mark .openAngle :: (s.pieces
      ++ (behind Schema.commas (Schema.listPieces ss) ++ [mark .closeAngle]))
  | .union [] => if nullable then [mark .openParen, mark .closeParen] else []
  | .union (s :: ss) =>
    let ps := s.pieces ++ behind Schema.bars (Schema.listPieces ss)
    if nullable then mark .openParen :: (ps ++ [mark .closeParen]) else ps
  termination_by structural s => s

/-- The pieces of the text of a property. -/
def Property.pieces : Property → List Piece
  | ⟨key, schema, optional⟩ =>
    token (Property.keyKind key) key :: ((if optional then [mark .question] else [])
      ++ (Property.colon ++ schema.pieces))
  termination_by structural p => p

/-- The pieces of the text of each of the schemas. -/
def Schema.listPieces : List Schema → List (List Piece)
  | [] => []
  | s :: ss => s.pieces :: Schema.listPieces ss
  termination_by structural ss => ss

/-- The pieces of the text of each of the properties. -/
def Property.listPieces : List Property → List (List Piece)
  | [] => []
  | p :: ps => p.pieces :: Property.listPieces ps
  termination_by structural ps => ps

end

theorem render_ofName (name : String) : render (ofName name) = name.toList := by
  have hsegments : ∀ more : List (List Char),
      render (ofSegments more) = more.flatMap ('.' :: ·) := by
    intro more
    induction more with
    | nil => rfl
    | cons segment more ih =>
      have hsegment : (token .identifier (String.ofList segment)).text = segment :=
        String.toList_ofList
      have hdot : (mark .dot).text = ['.'] := rfl
      have hnothing : render [] = [] := rfl
      rw [ofSegments, List.flatMap_cons, render_append, ← ofSegments, ih, render_cons, render_cons,
        hsegment, hdot, hnothing, List.append_nil, List.flatMap_cons]
      rfl
  obtain ⟨first, more, hsplit⟩ := List.exists_cons_of_ne_nil (splitAt_ne_nil '.' name.toList)
  have hfirst : (token .identifier (String.ofList first)).text = first := String.toList_ofList
  rw [ofName, hsplit]
  show render (token .identifier (String.ofList first) :: ofSegments more) = name.toList
  rw [render_cons, hfirst, hsegments, join_splitAt hsplit]

mutual

/-- The text of a schema is put together of its pieces. -/
theorem Schema.render_pieces (s : Schema) : render s.pieces = s.display.toList := by
  match s with
  | ⟨nullable, shape⟩ =>
    have hquestion : render (if nullable then [mark .question] else [])
        = (if nullable then "?" else "").toList := by
      cases nullable <;> rfl
    rw [Schema.pieces, Schema.display, render_append, hquestion, Shape.render_pieces nullable shape,
      String.toList_append]
  termination_by structural s

theorem Shape.render_pieces (nullable : Bool) (s : Shape) :
    render (s.pieces nullable) = (s.display nullable).toList := by
  match s with
  | .value name => rw [Shape.pieces, Shape.display, render_ofName]
  | .literal name text =>
    rw [Shape.pieces, Shape.display]
    exact List.append_nil _
  | .object [] =>
    rw [Shape.pieces, Shape.display]
    rfl
  | .object (p :: ps) =>
    have hfirst := Property.render_pieces p
    have hmore := Property.render_listPieces ps
    have hclose : render [space, mark .closeBrace] = " \x7d".toList := rfl
    rw [Shape.pieces, Shape.display, render_cons, render_cons, render_append, render_append, hfirst,
      hmore, hclose]
    simp only [String.toList_append, List.append_assoc]
    rfl
  | .generic name [] =>
    rw [Shape.pieces, Shape.display, render_append, render_ofName, String.toList_append]
    rfl
  | .generic name (t :: ts) =>
    have hfirst := Schema.render_pieces t
    have hmore := Schema.render_listPieces ts Schema.commas ", " rfl
    have hclose : render [mark .closeAngle] = ">".toList := rfl
    have hopen : (mark .openAngle).text = "<".toList := rfl
    rw [Shape.pieces, Shape.display, render_append, render_cons, render_append, render_append,
      render_ofName, hfirst, hmore, hclose, hopen]
    simp only [String.toList_append, List.append_assoc]
  | .union [] =>
    rw [Shape.pieces, Shape.display]
    cases nullable <;> rfl
  | .union (t :: ts) =>
    have hfirst := Schema.render_pieces t
    have hmore := Schema.render_listPieces ts Schema.bars " | " rfl
    have hopen : (mark .openParen).text = "(".toList := rfl
    have hclose : render [mark .closeParen] = ")".toList := rfl
    rw [Shape.pieces, Shape.display]
    cases nullable with
    | false =>
      simp only [Bool.false_eq_true, if_false, render_append, hfirst, hmore, String.toList_append]
    | true =>
      simp only [if_true, render_cons, render_append, hfirst, hmore, hopen, hclose,
        String.toList_append, List.append_assoc]
  termination_by structural s

theorem Property.render_pieces (p : Property) : render p.pieces = p.display.toList := by
  match p with
  | ⟨key, schema, optional⟩ =>
    have hkey : (token (Property.keyKind key) key).text = key.toList := rfl
    have hquestion : render (if optional then [mark .question] else [])
        = (if optional then "?" else "").toList := by
      cases optional <;> rfl
    have hcolon : render Property.colon = ": ".toList := rfl
    rw [Property.pieces, Property.display, render_cons, render_append, render_append, hkey,
      hquestion, hcolon, Schema.render_pieces schema]
    simp only [String.toList_append, List.append_assoc]
  termination_by structural p

theorem Schema.render_listPieces (ss : List Schema) (separator : List Piece) (text : String)
    (htext : render separator = text.toList) :
    render (behind separator (Schema.listPieces ss)) = (Schema.displayMore text ss).toList := by
  match ss with
  | [] => rfl
  | s :: ss =>
    have hfirst := Schema.render_pieces s
    have hmore := Schema.render_listPieces ss separator text htext
    rw [Schema.listPieces, behind_cons, render_append, render_append, htext, hfirst, hmore,
      Schema.displayMore]
    simp only [String.toList_append, List.append_assoc]
  termination_by structural ss

theorem Property.render_listPieces (ps : List Property) :
    render (behind Property.semicolons (Property.listPieces ps))
      = (Property.displayMore ps).toList := by
  match ps with
  | [] => rfl
  | p :: ps =>
    have hfirst := Property.render_pieces p
    have hmore := Property.render_listPieces ps
    have hseparator : render Property.semicolons = "; ".toList := rfl
    rw [Property.listPieces, behind_cons, render_append, render_append, hseparator, hfirst, hmore,
      Property.displayMore]
    simp only [String.toList_append, List.append_assoc]
  termination_by structural ps

end
/-! ## Strings and keys -/

/-- A character that is not shown by its code point stands for itself or has a short escape. -/
theorem escapes_char {c : Char} (h : Quote.needsCodePoint c = false) :
    Escapes c (Quote.char c).toList := by
  unfold Quote.needsCodePoint at h
  unfold Quote.char at h ⊢
  split at h
  · show Escapes _ ['\\', '0']
    exact .escaped (by decide) fun cs => by rw [StringLiteral.decode]
  · show Escapes _ ['\\', 't']
    exact .escaped (by decide) fun cs => by rw [StringLiteral.decode]
  · show Escapes _ ['\\', 'r']
    exact .escaped (by decide) fun cs => by rw [StringLiteral.decode]
  · show Escapes _ ['\\', 'n']
    exact .escaped (by decide) fun cs => by rw [StringLiteral.decode]
  · show Escapes _ ['\\', '"']
    exact .escaped (by decide) fun cs => by rw [StringLiteral.decode] <;> simp
  · show Escapes _ ['\\', '\\']
    exact .escaped (by decide) fun cs => by rw [StringLiteral.decode] <;> simp
  · rename_i hline hquote hslash
    split at h
    · rw [beq_self_eq_true] at h
      cases h
    · rename_i hshown
      rw [if_neg hshown, String.toList_singleton]
      exact .plain hquote hslash hline

/-- A displayed string is the text of a string token with its value, if no character of it is shown
by its code point. -/
theorem string_quote {text : String} (h : text.toList.any Quote.needsCodePoint = false) :
    Token.isText .string (quote text) = true ∧ StringLiteral.unquote (quote text) = text := by
  have hchars : ∀ c ∈ text.toList, Escapes c (Quote.char c).toList := by
    intro c hc
    rw [List.any_eq_false] at h
    exact escapes_char (Bool.eq_false_iff.mpr (h c hc))
  have htext : (quote text).toList
      = '"' :: (text.toList.flatMap (fun c => (Quote.char c).toList) ++ ['"']) := by
    rw [quote, String.toList_append, String.toList_append, String.toList_join, List.flatMap_map]
    rfl
  have hstring := string_of_escapes hchars htext
  rwa [String.ofList_toList] at hstring

namespace Property

variable {key : String}

/-- A key is a token of its kind. -/
theorem isText_keyKind
    (h : (Token.isText .identifier key || Token.isText .number key) = true) :
    (keyKind key = .identifier ∨ keyKind key = .number) ∧
      Token.isText (keyKind key) key = true := by
  unfold keyKind
  split
  · rename_i hword
    exact ⟨.inl rfl, hword⟩
  · rename_i hword
    rw [Bool.or_eq_true] at h
    exact ⟨.inr rfl, h.resolve_left hword⟩

/-- A key is told apart from the colon or the question mark behind it. -/
theorem legible_key (h : (Token.isText .identifier key || Token.isText .number key) = true)
    (optional : Bool) {ps : List Piece} (hps : Legible ps) :
    Legible (token (keyKind key) key :: ((if optional then [mark .question] else [])
      ++ (colon ++ ps))) := by
  obtain ⟨hkind, htext⟩ := isText_keyKind h
  have hrest : Legible ((if optional then [mark .question] else []) ++ (colon ++ ps)) := by
    have hcolon : Legible (colon ++ ps) := .plainMark .colon (.space hps)
    cases optional with
    | false => exact hcolon
    | true => exact .plainMark .question hcolon
  generalize hmore : (if optional then [mark .question] else []) ++ (colon ++ ps) = more
    at hrest ⊢
  have hfirst : ∀ d, (render more).head? = some d → Lexeme.EndsWord d ∧ d ≠ ' ' := by
    intro d hd
    have hends : Lexeme.EndsWord ':' ∧ Lexeme.EndsWord '?' := by
      unfold Lexeme.EndsWord
      decide
    rw [← hmore] at hd
    cases optional with
    | false =>
      cases hd
      exact ⟨hends.1, by decide⟩
    | true =>
      cases hd
      exact ⟨hends.2, by decide⟩
  have hapart : ¬ Blanking.Continues (render more) :=
    Blanking.not_continues_of_head fun d hd => (hfirst d hd).2
  rcases hkind with hkind | hkind
  · rw [hkind] at htext ⊢
    exact .word htext (fun d hd => (hfirst d hd).1.1) (fun _ => hapart) hrest
  · rw [hkind] at htext ⊢
    exact .number htext (fun d hd => (hfirst d hd).1) (fun _ => hapart) hrest

end Property

/-- The name of a value is told apart from what ends it. -/
theorem legible_valueName {name : String}
    (h : (Schema.builtinNames.contains name || isTypeName name) = true) {ps : List Piece}
    (hps : Trails ps) : Legible (ofName name ++ ps) := by
  have hbuiltin : ∀ name ∈ Schema.builtinNames, isName name = true := by decide
  refine legible_ofName ?_ hps
  rw [Bool.or_eq_true, List.contains_iff_mem] at h
  rcases h with h | h
  · exact hbuiltin name h
  · rw [isTypeName, Bool.and_eq_true] at h
    exact h.1

theorem trails_bars {ps : List Piece} (hps : Legible ps) : Trails (Schema.bars ++ ps) :=
  .spaceMark (by decide) (.space hps)

theorem trails_commas {ps : List Piece} (hps : Legible ps) : Trails (Schema.commas ++ ps) :=
  .mark (by decide) (.space hps)

theorem trails_semicolons {ps : List Piece} (hps : Legible ps) :
    Trails (Property.semicolons ++ ps) :=
  .mark (by decide) (.space hps)

/-! ## Telling the pieces apart -/

mutual

/-- The pieces of the text of a schema can be told apart. -/
theorem Schema.legible (s : Schema) (hs : s.isLegible = true) {ps : List Piece} (hps : Trails ps) :
    Legible (s.pieces ++ ps) := by
  match s with
  | ⟨nullable, shape⟩ =>
    rw [Schema.isLegible] at hs
    rw [Schema.pieces, List.append_assoc]
    have hshape := Shape.legible nullable shape hs hps
    cases nullable with
    | false => exact hshape
    | true => exact .plainMark .question hshape
  termination_by structural s

/-- The pieces of the text of a shape can be told apart. -/
theorem Shape.legible (nullable : Bool) (s : Shape) (hs : s.isLegible = true) {ps : List Piece}
    (hps : Trails ps) : Legible (s.pieces nullable ++ ps) := by
  match s with
  | .value name =>
    rw [Shape.isLegible] at hs
    rw [Shape.pieces]
    exact legible_valueName hs hps
  | .literal name text =>
    rw [Shape.isLegible, Bool.and_eq_true, Bool.and_eq_true, Bool.not_eq_true', Bool.not_eq_true']
      at hs
    rw [Shape.pieces]
    exact .string (string_quote hs.1.2).1 hs.2 hps.legible
  | .object [] =>
    rw [Shape.pieces]
    exact .plainMark .openBrace (.plainMark .closeBrace hps.legible)
  | .object (p :: more) =>
    rw [Shape.isLegible, Property.areLegible, Bool.and_eq_true] at hs
    have hend : Trails ([space, mark .closeBrace] ++ ps) := .spaceMark (by decide) hps.legible
    have hmore := Trails.behind trails_semicolons (Property.legibleAll more hs.2) hend
    rw [Shape.pieces]
    simp only [List.cons_append, List.append_assoc]
    exact .plainMark .openBrace (.space (Property.legible p hs.1 hmore))
  | .generic name [] =>
    rw [Shape.isLegible, Bool.and_eq_true, isTypeName, Bool.and_eq_true] at hs
    rw [Shape.pieces, List.append_assoc]
    exact legible_ofName hs.1.1 (.mark (by decide) (.plainMark .closeAngle hps.legible))
  | .generic name (t :: more) =>
    rw [Shape.isLegible, Bool.and_eq_true, isTypeName, Bool.and_eq_true, Schema.areLegible,
      Bool.and_eq_true] at hs
    have hend : Trails ([mark .closeAngle] ++ ps) := .mark (by decide) hps.legible
    have hmore := Trails.behind trails_commas (Schema.legibleAll more hs.2.2) hend
    rw [Shape.pieces]
    simp only [List.cons_append, List.append_assoc]
    exact legible_ofName hs.1.1 (.mark (by decide) (Schema.legible t hs.2.1 hmore))
  | .union [] =>
    rw [Shape.isLegible, Bool.and_eq_true, Bool.and_eq_true] at hs
    exact absurd hs.1.1 (by decide)
  | .union (t :: more) =>
    rw [Shape.isLegible, Bool.and_eq_true, Schema.areLegible, Bool.and_eq_true (Schema.isLegible _)]
      at hs
    have hinside : ∀ {rs}, Trails rs →
        Legible (t.pieces ++ (behind Schema.bars (Schema.listPieces more) ++ rs)) := by
      intro rs hrs
      exact Schema.legible t hs.2.1 (.behind trails_bars (Schema.legibleAll more hs.2.2) hrs)
    rw [Shape.pieces]
    cases nullable with
    | false =>
      rw [if_neg Bool.false_ne_true, List.append_assoc]
      exact hinside hps
    | true =>
      rw [if_pos rfl]
      simp only [List.cons_append, List.append_assoc]
      exact .plainMark .openParen (hinside (.mark (by decide) hps.legible))
  termination_by structural s

/-- The pieces of the text of a property can be told apart. -/
theorem Property.legible (p : Property) (hp : p.isLegible = true) {ps : List Piece}
    (hps : Trails ps) : Legible (p.pieces ++ ps) := by
  match p with
  | ⟨key, schema, optional⟩ =>
    rw [Property.isLegible, Bool.and_eq_true] at hp
    rw [Property.pieces, List.cons_append, List.append_assoc, List.append_assoc]
    exact Property.legible_key hp.1 optional (Schema.legible schema hp.2 hps)
  termination_by structural p

theorem Schema.legibleAll (ss : List Schema) (hss : Schema.areLegible ss = true) :
    ∀ qs ∈ Schema.listPieces ss, ∀ {rs}, Trails rs → Legible (qs ++ rs) := by
  match ss with
  | [] => exact nofun
  | s :: ss =>
    rw [Schema.areLegible, Bool.and_eq_true] at hss
    rw [Schema.listPieces, List.forall_mem_cons]
    exact ⟨Schema.legible s hss.1, Schema.legibleAll ss hss.2⟩
  termination_by structural ss

theorem Property.legibleAll (ps : List Property) (hps : Property.areLegible ps = true) :
    ∀ qs ∈ Property.listPieces ps, ∀ {rs}, Trails rs → Legible (qs ++ rs) := by
  match ps with
  | [] => exact nofun
  | p :: ps =>
    rw [Property.areLegible, Bool.and_eq_true] at hps
    rw [Property.listPieces, List.forall_mem_cons]
    exact ⟨Property.legible p hps.1, Property.legibleAll ps hps.2⟩
  termination_by structural ps

end

end AliasCheck
