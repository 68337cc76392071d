import AliasCheck.Proofs.Leniency
import AliasCheck.Proofs.PrintedTerms
import AliasCheck.Proofs.Slashes
import Mathlib.Logic.Relation

/-!
# The shapes of terms that are read

Not every tree is a term that can be read: a union of one type is written as that type, a literal
carries the text of a token, and names are made of identifiers. `TypeTerm.IsSound` says what a term
has to be by itself, and every term that is read has these properties, and so do all terms in it, at
any depth. This goes by induction on how it is read: what a phrase denotes is sound if its parts
are, and none of the rules makes up a text.
-/

namespace AliasCheck

open Grammar Piece

/-! ## Terms in terms -/

namespace TypeTerm

/-- The terms that a term is made of directly. -/
def parts : TypeTerm → List TypeTerm
  | object members _ => members.map Member.value
  | applied _ args => args
  | nullable inner => [inner]
  | union terms | intersection terms | tuple terms => terms
  | function params returns => returns :: params
  | named _ | stringLiteral .. | numberLiteral _ | booleanLiteral _ | keyword _ | typeOf _
  | existential => []

/-- The term is another one or stands in it, at any depth. -/
def Contains : TypeTerm → TypeTerm → Prop :=
  Relation.ReflTransGen fun whole part => part ∈ whole.parts

/-- Its parts apart, the term can have been read from these tokens. -/
def IsSound (tokens : List Token) : TypeTerm → Prop
  | union members | intersection members => 2 ≤ members.length
  | stringLiteral value raw =>
    (∃ t ∈ tokens, t.kind = .string ∧ t.text = raw) ∧ value = StringLiteral.unquote raw
  | numberLiteral raw => ∃ t ∈ tokens, t.kind = .number ∧ (raw = t.text ∨ raw = "-" ++ t.text)
  | named name | applied name _ => isTypeName name = true
  | typeOf name => isName name = true
  | object .. | nullable _ | tuple _ | function .. | booleanLiteral _ | keyword _
  | existential => True

/-- All terms in a term can have been read from these tokens. -/
def AllSound (tokens : List Token) (t : TypeTerm) : Prop := ∀ s, t.Contains s → s.IsSound tokens

variable {tokens : List Token} {t : TypeTerm}

theorem allSound_iff :
    t.AllSound tokens ↔ t.IsSound tokens ∧ ∀ s ∈ t.parts, s.AllSound tokens := by
  constructor
  · exact fun h => ⟨h t .refl, fun s hs u hu => h u (.head hs hu)⟩
  · rintro ⟨ht, hparts⟩ s hs
    rcases hs.cases_head with rfl | ⟨u, hu, hs⟩
    · exact ht
    · exact hparts u hu s hs

end TypeTerm

/-- What a phrase denotes is made of terms that can have been read from these tokens. -/
def Phrase.AllSound (tokens : List Token) : (p : Phrase) → p.Value → Prop
  | term, t | conjunct, t | operand, t | primary, t | param, t | function _, t =>
    TypeTerm.AllSound tokens t
  | more _, ts => ∀ t ∈ ts, TypeTerm.AllSound tokens t
  | items _ item, xs => ∀ x ∈ xs, item.AllSound tokens x
  | behind _, _ | typeParam, _ | typeParams, _ => True
  | member, m => ∀ x ∈ m, x.value.AllSound tokens
  | members _, ms => ∀ m ∈ ms, m.value.AllSound tokens

/-! ## Names -/

section Names

variable {name id : String} {t : Token} {ts r : List Token}

/-- An identifier is a letter with letters and digits behind it. -/
theorem word_of_rule {allowed : Bool} {c : Char} {cs text : List Char}
    (h : Lexeme.Rule allowed c cs (.token .identifier text)) :
    Lexeme.isIdentifierStart c = true ∧ text = c :: cs.takeWhile Lexeme.isIdentifierPart := by
  cases h with
  | word hc => exact ⟨hc, rfl⟩
  | mark hc => exact absurd rfl (Lexeme.punctuation_kind hc).1

theorem notMem_of_isIdentifier (h : Token.isText .identifier name = true) :
    '.' ∉ name.toList := by
  obtain ⟨c, cs, hname, hrule⟩ := Token.isText_eq_true.mp h
  obtain ⟨hc, htext⟩ := word_of_rule hrule
  rw [hname, htext, List.mem_cons, not_or]
  constructor
  · rintro rfl
    cases hc
  · intro hmem
    exact absurd (List.all_eq_true.mp List.all_takeWhile _ hmem) (by decide)

theorem splitAt_identifier (h : Token.isText .identifier name = true) :
    splitAt '.' name.toList = [name.toList] :=
  splitAt_of_notMem (notMem_of_isIdentifier h)

theorem isName_identifier (h : Token.isText .identifier name = true) : isName name = true := by
  rw [isName, splitAt_identifier h, List.all_cons, String.ofList_toList, h]
  rfl

/-- A further segment behind a name. -/
theorem splitAt_segment (name : String) (h : Token.isText .identifier t.text = true) :
    splitAt '.' (name ++ "." ++ t.text).toList = splitAt '.' name.toList ++ [t.text.toList] := by
  rw [← splitAt_identifier h, ← splitAt_append]
  simp

/-- Segments behind a name make a name of it that has the same first segment. -/
theorem isName_of_segments
    (hts : ∀ t ∈ ts, t.kind = .identifier → Token.isText .identifier t.text = true)
    (hname : isName name = true) (h : segments name ts = .ok (id, r)) :
    isName id = true ∧ (splitAt '.' id.toList).head? = (splitAt '.' name.toList).head? := by
  fun_induction segments name ts with
  | case1 | case5 | case6 =>
    cases h
    exact ⟨hname, rfl⟩
  | case2 name d t ts hd ht ih =>
    have htext := hts t (by simp) ht
    have hsplit := splitAt_segment name htext
    have hlonger : isName (name ++ "." ++ t.text) = true := by
      rw [isName] at hname ⊢
      rw [hsplit, List.all_append, hname, List.all_cons, String.ofList_toList, htext]
      rfl
    obtain ⟨hid, hhead⟩ := ih (fun u hu => hts u (by simp [hu])) hlonger h
    rw [hsplit, List.head?_append_of_ne_nil _ (splitAt_ne_nil _ _)] at hhead
    exact ⟨hid, hhead⟩
  | case3 | case4 => cases h

theorem isName_of_qualifiedName
    (hts : ∀ t ∈ ts, t.kind = .identifier → Token.isText .identifier t.text = true)
    (h : qualifiedName ts = .ok (id, r)) :
    isName id = true ∧ (splitAt '.' id.toList).head? = ts.head?.map fun t => t.text.toList := by
  obtain ⟨⟨name, us⟩, hname, hrest⟩ := bind_eq_ok.mp h
  obtain ⟨t, ht, rfl, rfl⟩ := identifier_eq_ok.mp hname
  have htext := hts t List.mem_cons_self ht
  have hbehind : ∀ u ∈ us, u.kind = .identifier → Token.isText .identifier u.text = true :=
    fun u hu => hts u (List.mem_cons_of_mem t hu)
  obtain ⟨hid, hhead⟩ := isName_of_segments hbehind (isName_identifier htext) hrest
  rw [splitAt_identifier htext] at hhead
  exact ⟨hid, hhead⟩

/-- A word that is neither a term nor `typeof` can begin the name of a type. -/
theorem notMem_reserved (hword : word? t.text = none) (htypeof : t.text ≠ "typeof") :
    t.text ∉ reserved := by
  intro hmem
  simp only [reserved, List.mem_cons, List.not_mem_nil, or_false] at hmem
  rcases hmem with h | h | h | h | h | h | h | h | h | h
  · exact htypeof h
  all_goals
    rw [h] at hword
    cases hword

theorem isTypeName_of_qualifiedName
    (hts : ∀ u ∈ t :: ts, u.kind = .identifier → Token.isText .identifier u.text = true)
    (hword : word? t.text = none) (htypeof : t.text ≠ "typeof")
    (h : qualifiedName (t :: ts) = .ok (id, r)) : isTypeName id = true := by
  obtain ⟨hid, hhead⟩ := isName_of_qualifiedName hts h
  have hnot := notMem_reserved hword htypeof
  rw [isTypeName, hid, hhead]
  simpa using hnot

end Names

/-- The identifiers of a text are identifiers on their own. -/
theorem Token.Scans.isText_identifier {previous : Option Token} {offset : Nat} {cs : List Char}
    {tokens : List Token} (h : Scans previous offset cs tokens) {t : Token} (ht : t ∈ tokens)
    (hkind : t.kind = .identifier) : Token.isText .identifier t.text = true := by
  obtain ⟨before, after, htokens⟩ := List.append_of_mem ht
  obtain ⟨front, c, tail, rest, -, htext, -, hrule⟩ := h.rule_at htokens
  rw [hkind] at hrule
  obtain ⟨hc, htail⟩ := word_of_rule (hrule.cut (Nat.le_refl _))
  rw [Token.isText_eq_true, htext, String.toList_ofList]
  refine ⟨c, tail, rfl, ?_⟩
  have hword : Lexeme.Rule true c tail _ := .word hc
  rwa [← htail] at hword

/-! ## Phrases -/

section Phrases

variable {tokens ts r : List Token} {t : Token} {x : TypeTerm}

open TypeTerm

theorem allSound_join (joint : Joint) {first : TypeTerm} {more : List TypeTerm}
    (hfirst : first.AllSound tokens) (hmore : ∀ x ∈ more, x.AllSound tokens) :
    (joint.join first more).AllSound tokens := by
  cases more with
  | nil => exact hfirst
  | cons second more =>
    have hparts : ∀ x ∈ first :: second :: more, x.AllSound tokens :=
      List.forall_mem_cons.mpr ⟨hfirst, hmore⟩
    cases joint <;> exact allSound_iff.mpr ⟨by simp [IsSound, Joint.join], hparts⟩

/-- Array brackets apply the name of arrays. -/
theorem allSound_arrays (h : x.AllSound tokens) (ts : List Token) :
    (arrays x ts).1.AllSound tokens := by
  fun_induction arrays x ts with
  | case1 x o c ts _ ih =>
    have hname : isTypeName "Array" = true := by decide
    exact ih (allSound_iff.mpr ⟨hname, List.forall_mem_singleton.mpr h⟩)
  | case2 => exact h
  | case3 => exact h

theorem allSound_word {word : String} (h : word? word = some x) : x.AllSound tokens := by
  unfold word? at h
  split at h <;> cases h <;> exact allSound_iff.mpr ⟨trivial, by simp [parts]⟩

/-- All terms in what a phrase denotes can have been read from the tokens that it is an end of. -/
theorem Reads.allSound {p : Phrase} {ts r : List Token} {x : p.Value} (h : Reads p ts x r)
    (hwords : ∀ t ∈ tokens, t.kind = .identifier → Token.isText .identifier t.text = true)
    (hts : ts <:+ tokens) : p.AllSound tokens x := by
  have hidentifiers : ∀ {us : List Token}, us <:+ tokens →
      ∀ t ∈ us, t.kind = .identifier → Token.isText .identifier t.text = true :=
    fun hus t ht => hwords t (hus.mem ht)
  induction h with
  | @term us _ _ _ _ hfirst _ ihfirst ihrest =>
    have hskip := (skip_suffix .pipe us).trans hts
    exact allSound_join .union (ihfirst hskip) (ihrest (hfirst.suffix.trans hskip))
  | @conjunct us _ _ _ _ hfirst _ ihfirst ihrest =>
    have hskip := (skip_suffix .ampersand us).trans hts
    exact allSound_join .intersection (ihfirst hskip) (ihrest (hfirst.suffix.trans hskip))
  | noMore _ => exact List.forall_mem_nil _
  | moreUnion h hx _ ihx ihxs | moreIntersection h hx _ ihx ihxs =>
    have hnext := (suffix_of_next? h).trans hts
    exact List.forall_mem_cons.mpr ⟨ihx hnext, ihxs (hx.suffix.trans hnext)⟩
  | nullable _ _ ihx =>
    have hinner := ihx ((List.suffix_cons _ _).trans hts)
    exact allSound_iff.mpr ⟨trivial, List.forall_mem_singleton.mpr hinner⟩
  | suffixed _ _ ihx => exact allSound_arrays (ihx hts) _
  | object _ _ ihms =>
    have hmembers := ihms (((skip_suffix _ _).trans (List.suffix_cons _ _)).trans hts)
    exact allSound_iff.mpr ⟨trivial, List.forall_mem_map.mpr hmembers⟩
  | tuple _ _ ihxs =>
    exact allSound_iff.mpr ⟨trivial, ihxs ((List.suffix_cons _ _).trans hts)⟩
  | group _ _ _ _ ihx => exact ihx ((List.suffix_cons _ _).trans hts)
  | functionType _ _ ihx => exact ihx hts
  | @stringLiteral t _ ht =>
    have hmem := hts.mem List.mem_cons_self
    exact allSound_iff.mpr ⟨⟨⟨t, hmem, ht, rfl⟩, rfl⟩, by simp [parts]⟩
  | @numberLiteral t _ ht =>
    have hmem := hts.mem List.mem_cons_self
    exact allSound_iff.mpr ⟨⟨t, hmem, ht, .inl rfl⟩, by simp [parts]⟩
  | @negativeLiteral t n _ _ hn =>
    have hmem := hts.mem (List.mem_cons_of_mem t List.mem_cons_self)
    exact allSound_iff.mpr ⟨⟨n, hmem, hn, .inr rfl⟩, by simp [parts]⟩
  | existential _ => exact allSound_iff.mpr ⟨trivial, by simp [parts]⟩
  | word _ hx => exact allSound_word hx
  | typeOf _ _ hid =>
    have hname := isName_of_qualifiedName (hidentifiers ((List.suffix_cons _ _).trans hts)) hid
    exact allSound_iff.mpr ⟨hname.1, by simp [parts]⟩
  | named _ hword htypeof hid _ =>
    have hname := isTypeName_of_qualifiedName (hidentifiers hts) hword htypeof hid
    exact allSound_iff.mpr ⟨hname, by simp [parts]⟩
  | applied _ hword htypeof hid _ _ ihargs =>
    have hname := isTypeName_of_qualifiedName (hidentifiers hts) hword htypeof hid
    have hrest := suffix_of_passes (passes_qualifiedName hid)
    exact allSound_iff.mpr ⟨hname, ihargs (((List.suffix_cons _ _).trans hrest).trans hts)⟩
  | noItems _ => exact List.forall_mem_nil _
  | lastItem _ _ _ _ ihx => exact List.forall_mem_singleton.mpr (ihx hts)
  | item _ _ hx _ _ ihx ihxs =>
    have hrest := (List.suffix_cons _ _).trans hx.suffix
    exact List.forall_mem_cons.mpr ⟨ihx hts, ihxs (hrest.trans hts)⟩
  | notBehind _ _ | behind _ _ _ _ | typeParam _ _ _ _ _ | noTypeParams _ | typeParams _ _ _ =>
    exact trivial
  | @param ts _ _ _ ihx =>
    have hname := suffix_of_passes (passes_skipParamName (skip .ellipsis ts))
    exact ihx ((hname.trans (skip_suffix .ellipsis ts)).trans hts)
  | function _ hids _ hparams _ _ _ ihparams ihreturns =>
    have hbehind := ((List.suffix_cons _ _).trans hids.suffix).trans hts
    have hresult := ((List.suffix_cons _ _).trans hparams.suffix).trans hbehind
    exact allSound_iff.mpr
      ⟨trivial, List.forall_mem_cons.mpr ⟨ihreturns hresult, ihparams hbehind⟩⟩
  | bareSpread _ _ | spread _ _ _ _ | indexer _ _ _ _ _ _ _ | call _ _ _ => exact nofun
  | @method t k ts _ _ _ _ _ hk _ _ _ ihx =>
    have hsign := suffix_of_passes (passes_skipVariance (t :: ts))
    rw [hk] at hsign
    rintro _ ⟨⟩
    exact ihx (((List.suffix_cons _ _).trans hsign).trans hts)
  | @property t k c ts r _ _ _ _ _ hk _ _ hc _ _ ihx =>
    have hsign := suffix_of_passes (passes_skipVariance (t :: ts))
    have hquestion := skip_suffix .question r
    rw [hk] at hsign
    rw [hc] at hquestion
    have hvalue := ((List.suffix_cons _ _).trans hquestion).trans (List.suffix_cons k r)
    rintro _ ⟨⟩
    exact ihx ((hvalue.trans hsign).trans hts)
  | noMembers _ => exact List.forall_mem_nil _
  | @members _ _ _ _ _ m _ _ hm hend _ ihm ihms =>
    have hrest := (suffix_of_passes (passes_memberEnd hend)).trans hm.suffix
    intro m' hm'
    rcases List.mem_append.mp hm' with hfirst | hlater
    · exact ihm hts m' (Option.mem_toList.mp hfirst)
    · exact ihms (hrest.trans hts) m' hlater

end Phrases

/-! ## Sources -/

theorem ReadsAlias.allSound {tokens ts r : List Token} {a : Alias} (h : ReadsAlias ts a r)
    (hwords : ∀ t ∈ tokens, t.kind = .identifier → Token.isText .identifier t.text = true)
    (hts : ts <:+ tokens) : a.body.AllSound tokens := by
  cases h with
  | @mk n e us vs _ _ _ _ hparams _ hbody =>
    have hrest := (List.suffix_cons e vs).trans (hparams.suffix.trans (List.suffix_cons n us))
    exact hbody.allSound hwords (hrest.trans hts)

/-- Every term in an alias of a program, at any depth, has a shape that can be written: unions and
intersections have at least two members, literals have the texts of tokens of the source, and names
consist of identifiers, the first of which means nothing else if the name is that of a type. -/
theorem Program.isSound_of_parse {source : String} {program : Program} {tokens : List Token}
    (hparse : Program.parse source = .ok program)
    (hscan : Token.scan (blankDeclarations source.toList) = .ok tokens) :
    ∀ a ∈ program.aliases, ∀ t, a.body.Contains t → t.IsSound tokens := by
  intro a ha
  have hscans := Token.scanFrom_eq_ok.mp (Token.scan_eq_ok.mp hscan)
  obtain ⟨t, us, r, ⟨hbegins, -⟩, hread⟩ := ((parse_eq_ok hscan).mp hparse).alias_at ha
  exact hread.allSound (fun _ => hscans.isText_identifier)
    ((List.suffix_cons t us).trans hbegins.suffix)

/-- All three terms of this union have texts from the source, and the last one contains more. -/
theorem Program.isSound_of_parse_example :
    ∃ source program tokens a, source = "type A = 'x' | -1 | \x7b f(B.C<*>[]): ?typeof d.e \x7d" ∧
      Program.parse source = .ok program ∧
      Token.scan (blankDeclarations source.toList) = .ok tokens ∧ program.aliases = [a] ∧
      a.body.parts.map TypeTerm.form = ["StringLiteral", "NumberLiteral", "Object"] ∧
      ∀ t, a.body.Contains t → t.IsSound tokens := by
  generalize hsource : "type A = 'x' | -1 | \x7b f(B.C<*>[]): ?typeof d.e \x7d" = source
  have hforms : (Program.parse source).map
      (fun p => p.aliases.map fun a => a.body.parts.map TypeTerm.form)
      = .ok [["StringLiteral", "NumberLiteral", "Object"]] := by
    subst hsource
    decide +kernel
  obtain ⟨program, hparse, hbodies⟩ := map_eq_ok.mp hforms
  obtain ⟨tokens, hscan, -⟩ := bind_eq_ok.mp hparse
  obtain ⟨a, haliases, hparts⟩ := List.map_eq_singleton_iff.mp hbodies
  have ha : a ∈ program.aliases := by simp [haliases]
  exact ⟨source, program, tokens, a, rfl, hparse, hscan, haliases, hparts,
    Program.isSound_of_parse hparse hscan a ha⟩

end AliasCheck
