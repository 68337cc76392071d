import AliasCheck.Proofs.DisplayedPieces
import AliasCheck.Proofs.PrintedTerms
import AliasCheck.Registry

/-!
# Reading displayed schemas

The text that displays a schema is a type of the language of declarations. What is read from it is
the term that the schema would come from, by induction on the schema, so a source that declares the
text for a name gives the schema back.
-/

namespace AliasCheck

open Grammar Piece

/-! ## Schemas as terms -/

mutual

/-- The term that the text of a schema stands for. -/
def Schema.term : Schema → TypeTerm
  | ⟨nullable, shape⟩ => if nullable then .nullable shape.term else shape.term
  termination_by structural s => s

/-- The term that the text of a shape stands for. -/
def Shape.term : Shape → TypeTerm
  | .value name => (word? name).getD (.named name)
  | .literal _ text => .stringLiteral text (quote text)
  | .object properties => .object (Property.members properties) false
  | .generic name params => .applied name (Schema.terms params)
  | .union members => .union (Schema.terms members)
  termination_by structural s => s

/-- The member that the text of a property stands for. -/
def Property.member : Property → Member
  | ⟨key, schema, optional⟩ => ⟨key, schema.term, optional⟩
  termination_by structural p => p

/-- The terms that the texts of schemas stand for. -/
def Schema.terms : List Schema → List TypeTerm
  | [] => []
  | s :: ss => s.term :: Schema.terms ss
  termination_by structural ss => ss

/-- The members that the texts of properties stand for. -/
def Property.members : List Property → List Member
  | [] => []
  | p :: ps => p.member :: Property.members ps
  termination_by structural ps => ps

end

/-! ## Reading the pieces -/

theorem Shape.strength_term {s : Shape} (h : ∀ members, s ≠ .union members) :
    s.term.strength = 3 := by
  cases s with
  | value name =>
    rw [Shape.term]
    cases hword : word? name with
    | none => rfl
    | some t =>
      have hstrong : ∀ word, (word? word).all (fun t => t.strength == 3) = true := by
        intro word
        unfold word?
        split <;> rfl
      have ht := hstrong name
      rw [hword, Option.all_some, beq_iff_eq] at ht
      exact ht
  | union members => exact absurd rfl (h members)
  | _ =>
    rw [Shape.term]
    rfl

/-- The members of a union that can be read bind strongly enough to stand in it. -/
theorem Schema.one_le_strength {s : Schema} (h : s.isPlainUnion = false) :
    1 ≤ s.term.strength := by
  obtain ⟨nullable, shape⟩ := s
  rw [Schema.term]
  cases nullable with
  | true => exact (by decide : 1 ≤ 2)
  | false =>
    have hshape : ∀ members, shape ≠ .union members := by
      rintro members rfl
      cases h
    rw [if_neg Bool.false_ne_true, Shape.strength_term hshape]
    decide

/-- No name of a type is a word. -/
theorem word?_of_isTypeName {name : String} (h : isTypeName name = true) : word? name = none := by
  have hreserved : ∀ word ∈ reserved, isTypeName word = false := by decide
  refine (word?_eq_none fun hmem => ?_).1
  rw [hreserved name hmem] at h
  cases h

/-- The name of a value is read as the value. -/
theorem readAs_valueName {name : String}
    (h : (Schema.builtinNames.contains name || isTypeName name) = true) :
    ReadAs 3 (ofName name) ((word? name).getD (.named name)) := by
  intro ts r hspells hr
  rw [Bool.or_eq_true, List.contains_iff_mem] at h
  by_cases hbuiltin : name ∈ Schema.builtinNames
  · have hwords : ∀ name ∈ Schema.builtinNames, ofName name = [token .identifier name] ∧
        ∃ word, word? name = some (.keyword word) := by
      intro name hname
      simp only [Schema.builtinNames, List.mem_cons, List.not_mem_nil, or_false] at hname
      rcases hname with rfl | rfl | rfl | rfl
      · exact ⟨by decide, .string, rfl⟩
      · exact ⟨by decide, .number, rfl⟩
      · exact ⟨by decide, .boolean, rfl⟩
      · exact ⟨by decide, .any, rfl⟩
    obtain ⟨hpieces, word, hword⟩ := hwords name hbuiltin
    rw [hpieces] at hspells
    obtain ⟨u, us, rfl, hu, rfl, rfl⟩ := hspells
    have hread : Reads .primary (u :: us) _ us := .word hu hword
    rw [hword]
    exact .of_primary hu (by decide) hread (Nat.le_refl 3) hr
  · have hname := h.resolve_left hbuiltin
    obtain ⟨u, us, rfl, hu, hword, htypeof, hid⟩ := typeName_of_spells hname hspells hr.dot
    rw [word?_of_isTypeName hname]
    exact .of_primary hu (by decide) (.named hu hword htypeof hid hr.openAngle) (Nat.le_refl 3) hr

/-- The text of a property is read as a member, if that of its schema is read as a term. -/
theorem readAsMember_property {key : String} {optional : Bool} {schema : Schema}
    (hkey : (Token.isText .identifier key || Token.isText .number key) = true)
    (hschema : ReadAs 0 schema.pieces schema.term) :
    ReadAsMember (Property.pieces ⟨key, schema, optional⟩)
      (Property.member ⟨key, schema, optional⟩) := by
  obtain ⟨hkind, -⟩ := Property.isText_keyKind hkey
  have hkinds : Property.keyKind key ∈ Token.keyKinds := by
    rcases hkind with h | h <;> (rw [h]; decide)
  have hvalue : ∀ k : Token, k.kind = Property.keyKind key → k.text = key → key? k = some key := by
    intro k hk htext
    rw [key?, hk, htext]
    rcases hkind with h | h <;> rw [h]
  rw [Property.pieces, Property.member]
  exact readAsMember hkinds hvalue (fun _ _ _ h => h) hschema

/-- The text of an object type is read as an object type, if those of its properties are read as
members. -/
theorem readAs_object (nullable : Bool) {ps : List Property}
    (h : List.Forall₂ ReadAsMember (Property.listPieces ps) (Property.members ps)) :
    ReadAs 3 ((Shape.object ps).pieces nullable) (.object (Property.members ps) false) := by
  have hobject : ∀ {body : List Piece}, ReadAsMembers false body (Property.members ps) →
      ∀ {ts r : List Token}, Spells (mark .openBrace :: (body ++ [mark .closeBrace])) ts r →
        Follows 3 r → Placed 3 ts (.object (Property.members ps) false) r := by
    rintro body hbody _ r ⟨o, us, rfl, ho, -, hspells⟩ hr
    have hread : Reads .primary (o :: us) (.object (Property.members ps) false) r :=
      reads_object hbody ho hspells
    exact .of_primary ho (by decide) hread (Nat.le_refl 3) hr
  intro ts r hspells hr
  cases ps with
  | nil =>
    rw [Shape.pieces] at hspells
    exact hobject (readAsMembers_nil false) hspells hr
  | cons p ps =>
    rw [Property.listPieces, Property.members, List.forall₂_cons] at h
    rw [Property.members] at hobject ⊢
    rw [Shape.pieces] at hspells
    obtain ⟨o, us, hts, ho, htext, hspells⟩ := hspells
    have hbody : ReadAsMembers false (p.pieces ++ behind Property.semicolons
        (Property.listPieces ps)) (p.member :: Property.members ps) :=
      readAsMembers (.inr rfl) (fun _ _ _ h => h) h.1 h.2
    obtain ⟨vs, hfirst, hspells⟩ := spells_append.mp hspells
    obtain ⟨ws, hmore, hend⟩ := spells_append.mp hspells
    have hmembers := spells_append.mpr ⟨vs, hfirst, hmore⟩
    exact hobject hbody ⟨o, us, hts, ho, htext, spells_append.mpr ⟨ws, hmembers, hend⟩⟩ hr

/-- The text of a generic type is read as a name with arguments, if those of its parameters are read
as terms. -/
theorem readAs_generic (nullable : Bool) {name : String} {ss : List Schema}
    (hname : isTypeName name = true)
    (h : List.Forall₂ (ReadAs 0) (Schema.listPieces ss) (Schema.terms ss)) :
    ReadAs 3 ((Shape.generic name ss).pieces nullable) (.applied name (Schema.terms ss)) := by
  have hgeneric : ∀ {body : List Piece},
      (∀ {ts r : List Token} {c : Token}, Spells body ts (c :: r) → c.kind = .closeAngle →
        Reads (.items .angle .term) ts (Schema.terms ss) r) →
      ∀ {ts r : List Token},
        Spells (ofName name ++ mark .openAngle :: (body ++ [mark .closeAngle])) ts r →
        Follows 3 r → Placed 3 ts (.applied name (Schema.terms ss)) r := by
    intro body hbody ts r hspells hr
    obtain ⟨us, hfirst, o, vs, rfl, ho, -, hspells⟩ := spells_append.mp hspells
    obtain ⟨ws, hargs, c, zs, rfl, hc, -, rfl⟩ := spells_append.mp hspells
    have hdot : startsWith .dot (o :: vs) = false := startsWith_cons_ne ho (by decide) vs
    obtain ⟨u, us, rfl, hu, hword, htypeof, hid⟩ := typeName_of_spells hname hfirst hdot
    have hread := Reads.applied hu hword htypeof hid ho (hbody hargs hc)
    exact .of_primary hu (by decide) hread (Nat.le_refl 3) hr
  intro ts r hspells hr
  cases ss with
  | nil =>
    rw [Shape.pieces] at hspells
    have hnone : ∀ {ts r : List Token} {c : Token}, Spells [] ts (c :: r) →
        c.kind = .closeAngle → Reads (.items .angle .term) ts (Schema.terms []) r := by
      rintro _ r c rfl hc
      exact .noItems hc
    exact hgeneric hnone hspells hr
  | cons s ss =>
    rw [Schema.listPieces, Schema.terms, List.forall₂_cons] at h
    rw [Schema.terms] at hgeneric ⊢
    rw [Shape.pieces, ← List.append_assoc] at hspells
    refine hgeneric (fun hargs hc => ?_) hspells hr
    exact reads_items .angle (fun _ _ _ h => h) h.1 h.2 hargs hc

/-- The text of a union is read as a union, if those of its members are read in their places. -/
theorem readAs_union (nullable : Bool) {ss : List Schema} (hlen : 2 ≤ ss.length)
    (h : List.Forall₂ (ReadAs 1) (Schema.listPieces ss) (Schema.terms ss)) :
    ReadAs (if nullable then 2 else 0) ((Shape.union ss).pieces nullable)
      (.union (Schema.terms ss)) := by
  match ss, hlen, h with
  | s :: t :: more, _, h =>
    rw [Schema.listPieces, Schema.terms, List.forall₂_cons] at h
    have hunion : ReadAs 0 (s.pieces ++ behind Schema.bars (Schema.listPieces (t :: more)))
        (.union (Schema.terms (s :: t :: more))) := by
      intro ts r hspells hr
      have hplaced := placed_join .union (fun _ _ _ h => h) h.1 h.2 hspells (hr.bar rfl)
        (hr.mono (Nat.zero_le 1))
      rw [Schema.terms] at hplaced
      rw [Schema.terms, Schema.terms]
      exact hplaced
    rw [Shape.pieces]
    cases nullable with
    | false => exact hunion
    | true => exact hunion.parens (by decide)

mutual

/-- The text of a schema is read as its term. -/
theorem Schema.readAs (s : Schema) (hs : s.isLegible = true) :
    ReadAs s.term.strength s.pieces s.term := by
  match s with
  | ⟨nullable, shape⟩ =>
    rw [Schema.isLegible] at hs
    have hshape := Shape.readAs nullable shape hs
    rw [Schema.pieces, Schema.term]
    cases nullable with
    | false => exact hshape
    | true =>
      rintro _ r ⟨q, us, rfl, hq, -, hspells⟩ hr
      have hplaced := hshape us r hspells hr
      exact ⟨⟨.question, by decide, beq_iff_eq.mpr hq⟩, .nullable hq hplaced.reads⟩
  termination_by structural s

/-- The text of a shape is read as its term; behind a question mark it is strong enough to stand
there. -/
theorem Shape.readAs (nullable : Bool) (s : Shape) (hs : s.isLegible = true) :
    ReadAs (if nullable then 2 else s.term.strength) (s.pieces nullable) s.term := by
  have hweak : ∀ {ps : List Piece} {t : TypeTerm}, t.strength = 3 → ReadAs 3 ps t →
      ReadAs (if nullable then 2 else t.strength) ps t := by
    intro ps t ht hread
    refine hread.mono ?_
    cases nullable with
    | false => exact Nat.le_of_eq ht
    | true => exact (by decide : 2 ≤ 3)
  match s with
  | .value name =>
    rw [Shape.isLegible] at hs
    have hstrong : (Shape.value name).term.strength = 3 := Shape.strength_term nofun
    rw [Shape.pieces]
    rw [Shape.term] at hstrong ⊢
    exact hweak hstrong (readAs_valueName hs)
  | .literal name text =>
    rw [Shape.isLegible, Bool.and_eq_true, Bool.and_eq_true, Bool.not_eq_true'] at hs
    rw [Shape.pieces, Shape.term]
    refine hweak rfl ?_
    rintro _ r ⟨u, us, rfl, hu, htext, rfl⟩ hr
    have hread : Reads .primary (u :: us)
        (.stringLiteral (StringLiteral.unquote u.text) u.text) us := .stringLiteral hu
    rw [htext, (string_quote hs.1.2).2] at hread
    exact .of_primary hu (by decide) hread (Nat.le_refl 3) hr
  | .object properties =>
    rw [Shape.isLegible] at hs
    rw [Shape.term]
    refine hweak rfl ?_
    exact readAs_object nullable (Property.readAll properties hs)
  | .generic name params =>
    rw [Shape.isLegible, Bool.and_eq_true] at hs
    rw [Shape.term]
    have hargs := Schema.readAsAll params hs.2 0 fun _ _ => Nat.zero_le _
    exact hweak rfl (readAs_generic nullable hs.1 hargs)
  | .union members =>
    rw [Shape.isLegible, Bool.and_eq_true, Bool.and_eq_true, decide_eq_true_eq,
      Bool.not_eq_true', List.any_eq_false] at hs
    have hmembers := Schema.readAsAll members hs.2 1
      fun s hmem => Schema.one_le_strength (Bool.eq_false_iff.mpr (hs.1.2 s hmem))
    rw [Shape.term]
    exact readAs_union nullable hs.1.1 hmembers
  termination_by structural s

/-- The texts of the schemas are read as their terms in places that need no more strength than the
terms have. -/
theorem Schema.readAsAll (ss : List Schema) (hss : Schema.areLegible ss = true) (need : Nat)
    (hneed : ∀ s ∈ ss, need ≤ s.term.strength) :
    List.Forall₂ (ReadAs need) (Schema.listPieces ss) (Schema.terms ss) := by
  match ss with
  | [] => exact .nil
  | s :: ss =>
    rw [Schema.areLegible, Bool.and_eq_true] at hss
    rw [List.forall_mem_cons] at hneed
    exact .cons ((Schema.readAs s hss.1).mono hneed.1) (Schema.readAsAll ss hss.2 need hneed.2)
  termination_by structural ss

/-- The text of a property is read as its member. -/
theorem Property.readAs (p : Property) (hp : p.isLegible = true) :
    ReadAsMember p.pieces p.member := by
  match p with
  | ⟨key, schema, optional⟩ =>
    rw [Property.isLegible, Bool.and_eq_true] at hp
    exact readAsMember_property hp.1 ((Schema.readAs schema hp.2).mono (Nat.zero_le _))
  termination_by structural p

theorem Property.readAll (ps : List Property) (hps : Property.areLegible ps = true) :
    List.Forall₂ ReadAsMember (Property.listPieces ps) (Property.members ps) := by
  match ps with
  | [] => exact .nil
  | p :: ps =>
    rw [Property.areLegible, Bool.and_eq_true] at hps
    exact .cons (Property.readAs p hps.1) (Property.readAll ps hps.2)
  termination_by structural ps

end

/-! ## The schema again -/

mutual

/-- The term that the text of a schema stands for amounts to the schema. -/
theorem Schema.toSchema_term (s : Schema) (hs : s.isLegible = true) : s.term.toSchema = s := by
  match s with
  | ⟨nullable, shape⟩ =>
    rw [Schema.isLegible] at hs
    have hshape := Shape.toSchema_term shape hs
    rw [Schema.term]
    cases nullable with
    | false => exact hshape
    | true =>
      rw [if_pos rfl, TypeTerm.toSchema, hshape]
      rfl
  termination_by structural s

theorem Shape.toSchema_term (s : Shape) (hs : s.isLegible = true) :
    s.term.toSchema = ⟨false, s⟩ := by
  match s with
  | .value name =>
    rw [Shape.isLegible, Bool.or_eq_true, List.contains_iff_mem] at hs
    have hbuiltin : ∀ name ∈ Schema.builtinNames,
        ((word? name).getD (.named name)).toSchema = .value name := by decide
    rw [Shape.term]
    rcases hs with hs | hs
    · exact hbuiltin name hs
    · rw [word?_of_isTypeName hs]
      rfl
  | .literal name text =>
    rw [Shape.isLegible, Bool.and_eq_true, Bool.and_eq_true, beq_iff_eq] at hs
    rw [Shape.term, TypeTerm.toSchema, hs.1.1]
    rfl
  | .object properties =>
    rw [Shape.isLegible] at hs
    rw [Shape.term, TypeTerm.toSchema, Property.toProperties_members properties hs]
    rfl
  | .generic name params =>
    rw [Shape.isLegible, Bool.and_eq_true] at hs
    rw [Shape.term, TypeTerm.toSchema, Schema.toSchemas_terms params hs.2]
    rfl
  | .union members =>
    rw [Shape.isLegible, Bool.and_eq_true] at hs
    rw [Shape.term, TypeTerm.toSchema, Schema.toSchemas_terms members hs.2]
    rfl
  termination_by structural s

theorem Property.toProperty_member (p : Property) (hp : p.isLegible = true) :
    p.member.toProperty = p := by
  match p with
  | ⟨key, schema, optional⟩ =>
    rw [Property.isLegible, Bool.and_eq_true] at hp
    rw [Property.member, Member.toProperty, Schema.toSchema_term schema hp.2]
  termination_by structural p

theorem Schema.toSchemas_terms (ss : List Schema) (hss : Schema.areLegible ss = true) :
    TypeTerm.toSchemas (Schema.terms ss) = ss := by
  match ss with
  | [] => rfl
  | s :: ss =>
    rw [Schema.areLegible, Bool.and_eq_true] at hss
    rw [Schema.terms, TypeTerm.toSchemas, Schema.toSchema_term s hss.1,
      Schema.toSchemas_terms ss hss.2]
  termination_by structural ss

theorem Property.toProperties_members (ps : List Property) (hps : Property.areLegible ps = true) :
    Member.toProperties (Property.members ps) = ps := by
  match ps with
  | [] => rfl
  | p :: ps =>
    rw [Property.areLegible, Bool.and_eq_true] at hps
    rw [Property.members, Member.toProperties, Property.toProperty_member p hps.1,
      Property.toProperties_members ps hps.2]
  termination_by structural ps

end

/-- A source that declares the text of a schema for a name gives the schema for that name and
nothing else. -/
theorem Registry.ofSource_display (s : Schema) (hs : s.isLegible = true) :
    ofSource ("type X = " ++ s.display) = .ok [("X", s)] := by
  have hlegible : Legible s.pieces := by
    have hpieces := s.legible hs Trails.nil
    rwa [List.append_nil] at hpieces
  have hreads : ∀ ts, Spells s.pieces ts [] → Reads .term ts s.term [] := by
    intro ts hspells
    have hnothing : Follows 0 [] := ⟨rfl, rfl, rfl, fun _ => rfl, fun _ => rfl, fun _ => rfl⟩
    exact ((s.readAs hs).mono (Nat.zero_le _) ts [] hspells hnothing).reads
  have htext : s.display = String.ofList (render s.pieces) := by
    rw [s.render_pieces, String.ofList_toList]
  rw [ofSource, htext, Program.parse_declaration hlegible hreads]
  show Except.ok [("X", s.term.toSchema)] = _
  rw [s.toSchema_term hs]

/-- Unions behind question marks, empty lists, escapes, keys that are numbers, and a word of the
mark of library declarations. -/
theorem Registry.ofSource_display_example :
    ofSource
        ("type X = ?(declare | ?\"a\\n\\\"\" | a.B<> | Map<string, "
          ++ "\x7b id: \x7b\x7d; 1.5?: ?(any | é) \x7d>)")
      = .ok [("X", ⟨true, .union [.value "declare", ⟨true, .literal "StringLiteral" "a\n\""⟩,
          .generic "a.B" [], .generic "Map" [.value "string", .object [⟨"id", .object [], false⟩,
            ⟨"1.5", ⟨true, .union [.value "any", .value "é"]⟩, true⟩]]]⟩)] := by
  refine Eq.trans (congrArg ofSource ?_) (ofSource_display ⟨true, .union _⟩ (by decide +kernel))
  decide +kernel

end AliasCheck
